import CodeSeeX.Proxy.NativeInspector
import CodeSeeX.Proxy.ResponseItems
import CodeSeeX.Proxy.ToolDeclarations

/-!
# Showing hosted searches

The proxy runs the searches itself, so the client would not see them. A final turn gets
them as items in front of its own; in a turn that the client continues, the hosted calls
are replaced by search items, or left out if the client has no item for them.
-/
namespace CodeSeeX.Native
open Tools

/-- A search that the proxy ran in this turn. -/
structure ExecutedSearch where
  callId : Text
  input : Text

/-- `payload.pointer_mut("/response/output")`, changed if it is an array. -/
def updateCompletedOutput (payload : Value) (f : List Value → List Value) : Value :=
  updateField payload "response" fun response =>
    updateField response "output" fun output => updateItems output f

/-! ## The final turn -/

/-- A frame as it came, or one that the proxy adds. -/
structure PresentedFrame where
  event : Option Text
  payload : Option Value
  raw : Bytes

namespace PresentedFrame

def fromBytes (crates : NativeCrates) (bytes : Bytes) : PresentedFrame :=
  match fromUtf8 bytes with
  | none => { event := none, payload := none, raw := bytes }
  | some text =>
      { event := ((lines text).findSome? (stripStart "event:")).map Text.trim
        payload := ((((lines text).findSome? (stripStart "data:")).map Text.trim).filter
          (· ≠ [])).bind crates.fromStr
        raw := bytes }

def synthetic (event : Text) (payload : Value) : PresentedFrame where
  event := some event
  payload := some payload
  raw := []

def hasType (frame : PresentedFrame) (kind : Text) : Bool :=
  (frame.payload.bind (·.getStr "type")) = some kind

/-- Sequence numbers are given out anew, to the events that have one. -/
def render (frame : PresentedFrame) (sequence : UInt64) : Bytes × UInt64 :=
  match frame.payload with
  | none => (frame.raw, sequence)
  | some payload =>
      let event := (frame.event.or (payload.getStr "type")).getD "message"
      if (payload.get "sequence_number").isSome then
        let payload := payload.set "sequence_number" (.number (.posInt (sequence + 1)))
        (sseFrame event payload, sequence + 1)
      else (sseFrame event payload, sequence)

def renderAll : List PresentedFrame → UInt64 → Bytes
  | [], _ => []
  | frame :: frames, sequence =>
      let (bytes, sequence) := frame.render sequence
      bytes ++ renderAll frames sequence

end PresentedFrame

def natNumber (n : ℕ) : Value := .number (.posInt (UInt64.ofNat n))

/-- The events of a search item. -/
def searchEventFrames (responseId : Text) (item : Value) (index : ℕ) : List PresentedFrame :=
  let itemId := (item.get "id").getD .null
  let actionType := (item.pointer ["action", "type"]).bind Value.asStr
  let progress : Text :=
    if actionType = some ("open" : Text) ∨ actionType = some ("open_page" : Text) then
      "response.web_search_call.opening"
    else "response.web_search_call.searching"
  let event (kind : Text) (fields : List (Text × Value)) : PresentedFrame :=
    .synthetic kind (.object (fields ++ ([("output_index", natNumber index),
      ("response_id", .string responseId), ("type", .string kind)] : List (Text × Value))))
  [event "response.output_item.added" [("item", item.set "status" (.string "in_progress"))],
    event "response.web_search_call.in_progress" [("item_id", itemId)],
    event progress [("action", (item.get "action").getD .null), ("item_id", itemId)],
    event "response.web_search_call.completed" [("item_id", itemId)],
    event "response.output_item.done" [("item", item)]]

def shiftOutputIndex (shift : ℕ) (payload : Value) : Value :=
  updateField payload "output_index" fun index =>
    match index.asU64 with
    | some value => natNumber (value + shift)
    | none => index

section
variable (texts : ItemTexts) (uuid : ℕ → Text)

def searchItems (searches : List ExecutedSearch) : List Value :=
  searches.zipIdx.map fun entry =>
    nativeWebSearchCallItem texts (uuid entry.2) entry.1.callId entry.1.input

/-- The frames of a final turn with the searches folded in; `none` if it has no final event. -/
def presentFrames (frames : List PresentedFrame) (responseId : Text) (items : List Value) :
    Option (List PresentedFrame) :=
  match frames.findIdx? (·.hasType "response.completed") with
  | none => none
  | some completed =>
      let shifted := frames.map fun frame =>
        { frame with payload := frame.payload.map (shiftOutputIndex items.length) }
      let folded := shifted.modify completed fun frame =>
        { frame with payload := frame.payload.map fun payload =>
            updateCompletedOutput payload (items ++ ·) }
      let insertion := match folded.findIdx? (·.hasType "response.created") with
        | some index => index + 1
        | none => 0
      let injected := items.zipIdx.flatMap fun entry => searchEventFrames responseId entry.1 entry.2
      -- the new frames go in front of the frame at `insertion`, if there is one
      some (if insertion < folded.length then
          folded.take insertion ++ injected ++ folded.drop insertion
        else folded)

def presentSse (crates : NativeCrates) (frames : List Bytes) (responseId : Text)
    (searches : List ExecutedSearch) : Option Bytes :=
  (presentFrames (frames.map (PresentedFrame.fromBytes crates)) responseId
    (searchItems texts uuid searches)).map fun frames => PresentedFrame.renderAll frames 0

def presentJson (crates : NativeCrates) (body : Bytes) (searches : List ExecutedSearch) :
    Option Bytes :=
  ((fromUtf8 body).bind crates.fromStr).bind fun payload =>
    ((payload.get "output").bind Value.asArray).map fun output =>
      Text.bytes (payload.set "output" (.array (searchItems texts uuid searches ++ output))).print

def present (crates : NativeCrates) (frames : List Bytes) (isSse : Bool) (body : Bytes)
    (responseId : Text) (searches : List ExecutedSearch) : Bytes :=
  if searches = [] then body
  else if isSse then (presentSse texts uuid crates frames responseId searches).getD body
  else (presentJson texts uuid crates body searches).getD body

end

/-! ## A turn that the client continues -/

/-- Under the call id of each hosted call, the item that the client gets for it, if any. -/
abbrev Replacements := BTreeMap Text (Option Value)

def rewriteHostedItem (replacements : Replacements) (item : Value) : List Value :=
  match (callId item).bind replacements.get with
  | some (some replacement) => [replacement]
  | some none => []
  | none => [item]

/-- The rewritten items, and whether a hosted call was among them. -/
def rewriteHostedItems (replacements : Replacements) (items : List Value) : List Value × Bool :=
  (items.flatMap (rewriteHostedItem replacements),
    items.any fun item => ((callId item).bind replacements.get).isSome)

def sseDataLine (frame : Text) : Option Text :=
  (lines frame).findSome? fun line =>
    ((stripStart "data:" line).map Text.trim).filter (· ≠ [])

/-- What becomes of a frame: it is kept, gets another payload, or is dropped. -/
inductive RewrittenFrame where
  | kept
  | changed (payload : Value)
  | dropped

def rewriteHostedPayload (hostedItemIds : List Text) (replacements : Replacements)
    (payload : Value) : RewrittenFrame :=
  let eventType := (payload.getStr "type").getD []
  if eventType = "response.output_item.added" ∨ eventType = "response.output_item.done" then
    match ((payload.get "item").bind callId).bind replacements.get with
    | some (some replacement) => .changed (payload.set "item" replacement)
    | some none => .dropped
    | none => .kept
  else if eventType = "response.function_call_arguments.delta" ∨
      eventType = "response.function_call_arguments.done" then
    match payload.getStr "item_id" with
    | some itemId => if itemId ∈ hostedItemIds then .dropped else .kept
    | none => .kept
  else if eventType = "response.completed" then
    match (payload.pointer ["response", "output"]).bind Value.asArray with
    | some output =>
        if (rewriteHostedItems replacements output).2 then
          .changed (updateCompletedOutput payload fun output =>
            (rewriteHostedItems replacements output).1)
        else .kept
    | none => .kept
  else .kept

def rewriteHostedFrame (crates : NativeCrates) (hostedItemIds : List Text)
    (replacements : Replacements) (frame : Bytes) : Option Bytes :=
  match fromUtf8 frame with
  | none => some frame
  | some text =>
      match (sseDataLine text).bind crates.fromStr with
      | none => some frame
      | some payload =>
          match rewriteHostedPayload hostedItemIds replacements payload with
          | .kept => some frame
          | .changed payload => some (rewriteSseDataLines text payload.print)
          | .dropped => none

/-- The ids of the provider's items for hosted calls. -/
def hostedItemIds (replacements : Replacements) (providerOutput : List Value) : List Text :=
  providerOutput.filterMap fun item =>
    if ((callId item).bind replacements.get).isSome then item.getStr "id" else none

def presentExecutedHostedCalls (crates : NativeCrates) (isSse : Bool) (frames : List Bytes)
    (providerOutput : List Value) (replacements : Replacements) : Bytes :=
  if replacements.entries = [] then frames.flatten
  else if !isSse then
    match frames with
    | [] => []
    | frame :: _ =>
        match (fromUtf8 frame).bind crates.fromStr with
        | none => frames.flatten
        | some payload =>
            Text.bytes (updateField payload "output" fun output => updateItems output fun items =>
              (rewriteHostedItems replacements items).1).print
  else
    (frames.filterMap (rewriteHostedFrame crates (hostedItemIds replacements providerOutput)
      replacements)).flatten

end CodeSeeX.Native
