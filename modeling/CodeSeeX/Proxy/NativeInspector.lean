import CodeSeeX.Proxy.Sse

/-!
# Inspection of a native response stream

The side channel that accounts for a provider stream: it reads complete frames up to a
size limit and keeps the terminal state, the usage and the output items. From the first
frame on that it cannot hold, it reads nothing any more.
-/
namespace CodeSeeX.Native
open Framing

def maxInspectedSseFrameBytes : ℕ := 256 * 1024
def maxRelayedSseFrameBytes : ℕ := 8 * 1024 * 1024
def maxRetainedNativeOutputItems : ℕ := 128
def maxRetainedNativeOutputBytes : ℕ := 1048576

/-- `serde_json::from_str::<Value>` and the hexadecimal SHA-256 digest come from other crates. -/
structure NativeCrates where
  fromStr : Text → Option Value
  sha256Hex : Text → Text

inductive NativeResponseTerminal where
  | completed
  | failed
  | incomplete
  deriving DecidableEq

inductive NativeStreamFinalization where
  | completed
  | failed
  | interrupted
  deriving DecidableEq

structure NativeResponseStreamInspection where
  terminal : Option NativeResponseTerminal := none
  finalUsage : Option Value := none
  providerResponseIdHash : Option Text := none
  eventCount : ℕ := 0
  sequenceCount : ℕ := 0
  sequencesStrictlyIncreasing : Bool := false
  sawDoneSentinel : Bool := false
  oversizedFrameIgnored : Bool := false
  outputItems : List Value := []
  outputItemsBytes : ℕ := 0
  outputItemsIncomplete : Bool := false

def nativeStreamFinalization (inspection : NativeResponseStreamInspection)
    (locallyCancelled : Bool) : NativeStreamFinalization :=
  match inspection.terminal with
  | some .completed => .completed
  | some .failed => .failed
  | some .incomplete => .failed
  | none => if locallyCancelled then .interrupted else .failed

def responseIdFromEvent (payload : Value) : Option Text :=
  (((payload.pointer ["response", "id"]).bind Value.asStr).or (payload.getStr "response_id")).filter
    fun value => !value.isBlank

structure NativeResponseSseInspector where
  buffer : Bytes := []
  lastSequence : Option ℕ := none
  inspection : NativeResponseStreamInspection := {}

/-! ### One frame -/

namespace NativeResponseStreamInspection

def markUninspectableFrame (i : NativeResponseStreamInspection) : NativeResponseStreamInspection :=
  { i with oversizedFrameIgnored := true, outputItemsIncomplete := true }

def retainOutputItem (i : NativeResponseStreamInspection) (item : Value) :
    NativeResponseStreamInspection :=
  if i.outputItemsIncomplete then i
  else
    let size := item.print.utf8Len
    if maxRetainedNativeOutputItems ≤ i.outputItems.length ∨
        maxRetainedNativeOutputBytes < i.outputItemsBytes + size then
      { i with outputItemsIncomplete := true }
    else
      { i with outputItemsBytes := i.outputItemsBytes + size, outputItems := i.outputItems ++ [item] }

/-- What an event of the given kind adds to the output items. -/
def noteOutput (i : NativeResponseStreamInspection) (eventKind : Text) (payload : Value) :
    NativeResponseStreamInspection :=
  if eventKind = "response.output_item.done" then
    match payload.get "item" with
    | some item => i.retainOutputItem item
    | none => { i with outputItemsIncomplete := true }
  else if eventKind = "response.completed" ∧ i.outputItems = [] ∧ i.outputItemsIncomplete = false then
    match (payload.pointer ["response", "output"]).bind Value.asArray with
    | some items => items.foldl retainOutputItem i
    | none => i
  else i

end NativeResponseStreamInspection

/-- The usage snapshot of an event. -/
def usageOf (payload : Value) : Option Value :=
  (payload.pointer ["response", "usage"]).or (payload.get "usage")

/-- The terminal state that an event of the given kind stands for. -/
def terminalOf (eventKind : Text) : Option NativeResponseTerminal :=
  if eventKind = "response.completed" then some .completed
  else if eventKind = "response.failed" then some .failed
  else if eventKind = "response.incomplete" then some .incomplete
  else none

/-- `event:` names the kind of an event, else its payload does. -/
def eventKindOf (frame : Text) (payload : Value) : Text :=
  ((((lines frame).findSome? (stripStart "event:")).map Text.trim).or (payload.getStr "type")).getD []

namespace NativeResponseSseInspector

def markUninspectableFrame (s : NativeResponseSseInspector) : NativeResponseSseInspector :=
  { s with inspection := s.inspection.markUninspectableFrame }

def noteSequence (s : NativeResponseSseInspector) (sequence : ℕ) : NativeResponseSseInspector :=
  let count := s.inspection.sequenceCount + 1
  let increasing :=
    if s.lastSequence.any fun previous => sequence ≤ previous then false
    else if count = 1 then true
    else s.inspection.sequencesStrictlyIncreasing
  { s with
    lastSequence := some sequence
    inspection := { s.inspection with
      sequenceCount := count, sequencesStrictlyIncreasing := increasing } }

/-- The part of `inspect_frame` behind the parser. -/
def inspectPayload (crates : NativeCrates) (s : NativeResponseSseInspector) (frame : Text)
    (payload : Value) : NativeResponseSseInspector :=
  let s := { s with inspection := { s.inspection with eventCount := s.inspection.eventCount + 1 } }
  let s := match (payload.get "sequence_number").bind Value.asU64 with
    | some sequence => s.noteSequence sequence
    | none => s
  let inspection := { s.inspection with
    providerResponseIdHash :=
      ((responseIdFromEvent payload).map crates.sha256Hex).or s.inspection.providerResponseIdHash
    finalUsage := (usageOf payload).or s.inspection.finalUsage }
  let eventKind := eventKindOf frame payload
  let inspection := inspection.noteOutput eventKind payload
  { s with inspection := { inspection with
      terminal := (terminalOf eventKind).or inspection.terminal } }

def inspectFrame (crates : NativeCrates) (s : NativeResponseSseInspector) (frame : Bytes) :
    NativeResponseSseInspector :=
  if maxInspectedSseFrameBytes < frame.length then s.markUninspectableFrame
  else match fromUtf8 frame with
    | none => { s with inspection := { s.inspection with outputItemsIncomplete := true } }
    | some frame =>
        let data := (frameData frame).trim
        if data = [] then s
        else if data = "[DONE]" then
          { s with inspection := { s.inspection with sawDoneSentinel := true } }
        else match crates.fromStr data with
          | none => { s with inspection := { s.inspection with outputItemsIncomplete := true } }
          | some payload => s.inspectPayload crates frame payload

/-! ### Chunks -/

/-- The rounds of the loop over the frames of the buffer, and the check behind it. -/
def observeLoop (crates : NativeCrates) (s : NativeResponseSseInspector) (rest : Bytes) :
    List (Piece UInt8) → NativeResponseSseInspector
  | [] =>
      if maxInspectedSseFrameBytes < rest.length then
        { s with buffer := [] }.markUninspectableFrame
      else { s with buffer := rest }
  | p :: pieces =>
      if maxInspectedSseFrameBytes < p.frame.length then
        { s with buffer := [] }.markUninspectableFrame
      else (s.inspectFrame crates p.frame).observeLoop crates rest pieces

def observeBytes (crates : NativeCrates) (s : NativeResponseSseInspector) (bytes : Bytes) :
    NativeResponseSseInspector :=
  if s.inspection.oversizedFrameIgnored then s
  else
    let (pieces, rest) := sseCutter.drain (s.buffer ++ bytes)
    s.observeLoop crates rest pieces

def finish (crates : NativeCrates) (s : NativeResponseSseInspector) : NativeResponseSseInspector :=
  if s.inspection.oversizedFrameIgnored ∨ s.buffer = [] then s
  else { s with buffer := [] }.inspectFrame crates s.buffer

end NativeResponseSseInspector
end CodeSeeX.Native
