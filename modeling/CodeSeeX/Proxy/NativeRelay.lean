import CodeSeeX.Proxy.NativeInspector
import CodeSeeX.Proxy.PatchRepair
import CodeSeeX.Proxy.ReasoningMirror

/-!
# The native stream relay

The relay cuts a provider stream into frames, repairs patches in them, shows every frame
to the inspector and forwards it, rewritten where the client needs another response id or
the mirrored reasoning. Mirrored events take sequence numbers of their own; arithmetic on
these wraps at 64 bits.
-/
namespace CodeSeeX.Native
open Framing

/-- What the relay puts into the client's stream: a provider frame as it came, a provider frame
with another payload, or an event of its own. -/
inductive Outgoing where
  | verbatim (frame delimiter : Bytes)
  | rewritten (text : Text) (payload : Value) (delimiter : Bytes)
  | injected (payload : Value)

namespace Outgoing

def render : Outgoing → Bytes
  | verbatim frame delimiter => appendDelimiter frame delimiter
  | rewritten text payload delimiter =>
      appendDelimiter (rewriteSseDataLines text payload.print) delimiter
  | injected payload => sseFrame ((payload.getStr "type").getD []) payload

end Outgoing

structure NativeResponseSseRelay where
  buffer : Bytes
  inspector : NativeResponseSseInspector
  providerResponseId : Option Text
  localResponseId : Text
  presentReasoningSummary : Bool
  reasoningSummaryMode : ReasoningSummaryMode
  sequenceOffset : UInt64
  reasoning : ReasoningSummaryMirror
  applyPatchRepairs : ApplyPatchRepairTally

/-- The three places of an event that carry the response id. -/
def rewriteProviderResponseIdentity (payload : Value) (providerResponseId localResponseId : Text) :
    Value × Bool :=
  if providerResponseId = localResponseId then (payload, false)
  else
    let id : Value := .string localResponseId
    let (payload, own) :=
      if payload.getStr "id" = some providerResponseId then (payload.set "id" id, true)
      else (payload, false)
    let (payload, inner) :=
      if pointerStr payload ["response", "id"] = some providerResponseId then
        (payload.set "response" (((payload.get "response").getD .null).set "id" id), true)
      else (payload, false)
    let (payload, reference) :=
      if payload.getStr "response_id" = some providerResponseId then
        (payload.set "response_id" id, true)
      else (payload, false)
    (payload, own || inner || reference)

def sequenceNumber (payload : Value) : Option UInt64 :=
  ((payload.get "sequence_number").bind Value.asU64).map UInt64.ofNat

def withSequenceNumber (payload : Value) (number : UInt64) : Value :=
  payload.set "sequence_number" (.number (.posInt number))

namespace NativeResponseSseRelay

def new (localResponseId : Text) : NativeResponseSseRelay where
  buffer := []
  inspector := {}
  providerResponseId := none
  localResponseId := localResponseId
  presentReasoningSummary := false
  reasoningSummaryMode := .smart
  sequenceOffset := 0
  reasoning := ReasoningSummaryMirror.new .smart
  applyPatchRepairs := {}

variable (r : NativeResponseSseRelay)

def withReasoningSummary (mode : Option ReasoningSummaryMode) : NativeResponseSseRelay :=
  { r with
    presentReasoningSummary := mode.isSome
    reasoningSummaryMode := mode.getD .smart
    reasoning := ReasoningSummaryMirror.new (mode.getD .smart) }

/-- The client's copy of an event, the events behind it, and the mirror afterwards. -/
def mirrorReasoningEvent (payload : Value) : Value × List Value × ReasoningSummaryMirror :=
  let eventType := (payload.getStr "type").getD []
  let outputIndex := ((payload.get "output_index").bind Value.asU64).getD 0
  let m := r.reasoning
  if eventType = "response.output_item.added" then (payload, [], m.onItemAdded payload)
  else if eventType = "response.reasoning_summary_part.added" ∨
      eventType = "response.reasoning_summary_text.delta" ∨
      eventType = "response.reasoning_summary_text.done" ∨
      eventType = "response.reasoning_summary_part.done" then
    (payload, [], m.onProviderSummary payload)
  else if eventType = "response.content_part.added" then
    (payload, m.onContentPart r.localResponseId outputIndex payload)
  else if eventType = "response.reasoning_text.delta" then
    (payload, m.onTextDelta r.localResponseId outputIndex payload)
  else if eventType = "response.reasoning_text.done" then
    (payload, m.onTextDone r.localResponseId outputIndex payload)
  else if eventType = "response.output_item.done" then
    let (summary, events, m) := m.onItemDone r.localResponseId outputIndex payload
    match summary with
    | none => (payload, events, m)
    | some text =>
        let item := ((payload.get "item").getD .null).set "summary"
          (.array [reasoningSummaryPart text])
        (payload.set "item" item, events, m)
  else if eventType = "response.completed" then
    match (payload.pointer ["response", "output"]).bind Value.asArray with
    | none => (payload, [], m)
    | some items =>
        let response := ((payload.get "response").getD .null).set "output"
          (.array (items.map m.completedItem))
        (payload.set "response" response, [], m)
  else (payload, [], m)

def suppressProviderReasoning (eventType : Text) (payload : Value) : Bool :=
  let mirrored := ((payload.getStr "item_id").map fun itemId =>
    !r.reasoning.providerWritesSummary itemId).getD false
  if !r.presentReasoningSummary then false
  else if eventType = "response.content_part.added" ∨ eventType = "response.content_part.done" then
    pointerStr payload ["part", "type"] = some "reasoning_text" && mirrored
  else if eventType = "response.reasoning_text.delta" ∨
      eventType = "response.reasoning_text.done" then mirrored
  else false

/-- Events that carry a reasoning item are serialized again. -/
def carriesItem (eventType : Text) : Bool :=
  eventType = "response.output_item.added" || eventType = "response.output_item.done" ||
    eventType = "response.completed"

end NativeResponseSseRelay

/-- An event on its way through `relay_frame`. -/
structure RelayedEvent where
  relay : NativeResponseSseRelay
  payload : Value
  identityRewritten : Bool
  injected : List Value

namespace RelayedEvent

/-- The event under the client's response id. -/
def identify (r : NativeResponseSseRelay) (payload : Value) : RelayedEvent :=
  let r := { r with
    providerResponseId := r.providerResponseId.or (responseIdFromEvent payload) }
  match r.providerResponseId with
  | none => ⟨r, payload, false, []⟩
  | some id =>
      ⟨r, (rewriteProviderResponseIdentity payload id r.localResponseId).1,
        (rewriteProviderResponseIdentity payload id r.localResponseId).2, []⟩

/-- Only numbered events are mirrored. -/
def mirror (e : RelayedEvent) : RelayedEvent :=
  if e.relay.presentReasoningSummary && (sequenceNumber e.payload).isSome then
    let (payload, injected, reasoning) := e.relay.mirrorReasoningEvent e.payload
    { e with relay := { e.relay with reasoning }, payload, injected }
  else e

/-- The frame goes out as it came. -/
def passes (e : RelayedEvent) (eventType : Text) : Bool :=
  !e.identityRewritten && e.injected.isEmpty &&
    !(e.relay.presentReasoningSummary && NativeResponseSseRelay.carriesItem eventType) &&
      !e.relay.suppressProviderReasoning eventType e.payload

/-- The event itself under its new number, then the mirrored ones. -/
def renumbered (e : RelayedEvent) (eventType : Text) (baseSequence : Option UInt64) (text : Text)
    (delimiter : Bytes) : List Outgoing :=
  let own := match baseSequence with
    | some base => withSequenceNumber e.payload (base + e.relay.sequenceOffset)
    | none => e.payload
  let extra := match baseSequence with
    | some base => e.injected.mapIdx fun index event => Outgoing.injected
        (withSequenceNumber event (base + e.relay.sequenceOffset + 1 + UInt64.ofNat index))
    | none => []
  (if e.relay.suppressProviderReasoning eventType e.payload then []
    else [.rewritten text own delimiter]) ++ extra

end RelayedEvent

namespace NativeResponseSseRelay

/-- `relay_frame` for a frame with a payload. -/
def relayPayload (r : NativeResponseSseRelay) (text : Text) (payload : Value)
    (frame delimiter : Bytes) : List Outgoing × NativeResponseSseRelay :=
  let identified := RelayedEvent.identify r payload
  let baseSequence := sequenceNumber identified.payload
  let eventType := (identified.payload.getStr "type").getD []
  let e := identified.mirror
  if e.passes eventType then ([.verbatim frame delimiter], e.relay)
  else
    (e.renumbered eventType baseSequence text delimiter,
      { e.relay with
        sequenceOffset := e.relay.sequenceOffset + UInt64.ofNat e.injected.length })

section
variable (crates : NativeCrates) (r : NativeResponseSseRelay)

def relayFrame (frame delimiter : Bytes) : List Outgoing × NativeResponseSseRelay :=
  match fromUtf8 frame with
  | none => ([.verbatim frame delimiter], r)
  | some text =>
      match crates.fromStr (frameData text).trim with
      | none => ([.verbatim frame delimiter], r)
      | some payload => r.relayPayload text payload frame delimiter

/-- The frame with its patches repaired, and what was repaired. -/
def repairFrame (frame : Bytes) : Bytes × ApplyPatchRepairTally :=
  ((fromUtf8 frame).bind (normalizeApplyPatchSseFrame crates.fromStr)).getD (frame, {})

/-- One round of the loop in `relay_bytes`, for a frame that has left the buffer. -/
def takeFrame (p : Piece UInt8) : List Outgoing × NativeResponseSseRelay :=
  if maxInspectedSseFrameBytes < p.frame.length then
    ([.verbatim p.frame p.delimiter],
      { r with inspector := r.inspector.markUninspectableFrame })
  else
    let (frame, tally) := repairFrame crates p.frame
    let r := { r with
      applyPatchRepairs := r.applyPatchRepairs.merge tally
      inspector := (r.inspector.observeBytes crates frame).observeBytes crates p.delimiter }
    r.relayFrame crates frame p.delimiter

def takeFrames (r : NativeResponseSseRelay) : List (Piece UInt8) → List Outgoing × NativeResponseSseRelay
  | [] => ([], r)
  | p :: pieces =>
      let (ready, r) := r.takeFrame crates p
      let (later, r) := r.takeFrames pieces
      (ready ++ later, r)

/-- What the size of the unfinished frame in the buffer leads to. -/
def checkBuffer : NativeResponseSseRelay :=
  if maxInspectedSseFrameBytes < r.buffer.length then
    { r with
      inspector := r.inspector.markUninspectableFrame
      buffer := if maxRelayedSseFrameBytes < r.buffer.length then [] else r.buffer }
  else r

def relayBytes (bytes : Bytes) : List Outgoing × NativeResponseSseRelay :=
  let (pieces, rest) := sseCutter.drain (r.buffer ++ bytes)
  let (ready, r) := { r with buffer := rest }.takeFrames crates pieces
  (ready, r.checkBuffer)

def finish : List Outgoing × NativeResponseSseRelay :=
  if r.buffer = [] then ([], { r with inspector := r.inspector.finish crates })
  else
    { r with
      buffer := []
      inspector := (r.inspector.observeBytes crates r.buffer).finish crates }.relayFrame crates
        r.buffer []

/-- A whole stream: the chunks one after the other, then the end. -/
def relayChunks (r : NativeResponseSseRelay) : List Bytes →
    List Outgoing × NativeResponseSseRelay
  | [] => r.finish crates
  | chunk :: chunks =>
      let (ready, r) := r.relayBytes crates chunk
      let (later, r) := r.relayChunks chunks
      (ready ++ later, r)

end

end NativeResponseSseRelay
end CodeSeeX.Native
