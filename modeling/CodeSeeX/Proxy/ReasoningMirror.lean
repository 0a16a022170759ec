import CodeSeeX.General.BTreeMap
import CodeSeeX.Json
import CodeSeeX.Proxy.SummaryProjector

/-!
# The reasoning mirror

The client renders summaries, the provider streams reasoning text. The mirror keeps a
projector for each reasoning item and turns every provider event into the summary
events that the client gets on top of it.
-/
namespace CodeSeeX.Native

structure ReasoningSummaryMirror where
  activeItemId : Option Text
  partAnnounced : Bool
  textDone : Bool
  mode : ReasoningSummaryMode
  projectors : BTreeMap Text SummaryProjector
  providerSummaryItems : BTreeMap Text Unit

namespace ReasoningSummaryMirror

def maxTrackedItems : ℕ := 8

def new (mode : ReasoningSummaryMode) : ReasoningSummaryMirror where
  activeItemId := none
  partAnnounced := false
  textDone := false
  mode := mode
  projectors := BTreeMap.empty
  providerSummaryItems := BTreeMap.empty

variable (m : ReasoningSummaryMirror)

def begin (itemId : Text) : ReasoningSummaryMirror :=
  let m :=
    if m.activeItemId = some itemId then m
    else { m with activeItemId := some itemId, partAnnounced := false, textDone := false }
  { m with projectors :=
      (m.projectors.orInsert itemId (SummaryProjector.new m.mode)).dropFirst maxTrackedItems }

def pushDelta (itemId delta : Text) : Option Text × ReasoningSummaryMirror :=
  match m.projectors.get itemId with
  | none => (none, m)
  | some projector =>
      let (emit, projector) := projector.push delta
      (emit, { m with projectors := m.projectors.insert itemId projector })

def finishText (itemId : Text) : Option Text × ReasoningSummaryMirror :=
  match m.projectors.get itemId with
  | none => (none, m)
  | some projector =>
      let (emit, projector) := projector.finish
      (emit, { m with projectors := m.projectors.insert itemId projector })

def summary (itemId : Text) : Option Text :=
  ((m.projectors.get itemId).map SummaryProjector.summary).filter (· ≠ [])

/-- `summaries().get(item_id)` -/
def summaries : List (Text × Text) :=
  (m.projectors.entries.map fun entry => (entry.1, entry.2.summary)).filter (·.2 ≠ [])

def finishItem (itemId : Text) : ReasoningSummaryMirror :=
  if m.activeItemId = some itemId then
    { m with activeItemId := none, partAnnounced := false, textDone := false }
  else m

def markProviderSummary (itemId : Text) : ReasoningSummaryMirror :=
  { m with
    providerSummaryItems := (m.providerSummaryItems.insert itemId ()).dropFirst maxTrackedItems }

def providerWritesSummary (itemId : Text) : Bool :=
  (m.providerSummaryItems.get itemId).isSome

end ReasoningSummaryMirror

/-! ### Events of the client -/

def natValue (n : ℕ) : Value := .number (.posInt (UInt64.ofNat n))

def reasoningSummaryPart (text : Text) : Value :=
  .object [("text", .string text), ("type", .string "summary_text")]

def reasoningSummaryPartAdded (responseId itemId : Text) (outputIndex : ℕ) : Value :=
  .object [("item_id", .string itemId), ("output_index", natValue outputIndex),
    ("part", reasoningSummaryPart []), ("response_id", .string responseId),
    ("summary_index", natValue 0), ("type", .string "response.reasoning_summary_part.added")]

def reasoningSummaryTextDelta (responseId itemId : Text) (outputIndex : ℕ) (delta : Text) : Value :=
  .object [("delta", .string delta), ("item_id", .string itemId),
    ("output_index", natValue outputIndex), ("response_id", .string responseId),
    ("summary_index", natValue 0), ("type", .string "response.reasoning_summary_text.delta")]

def reasoningSummaryTextDone (responseId itemId : Text) (outputIndex : ℕ) (text : Text) : Value :=
  .object [("item_id", .string itemId), ("output_index", natValue outputIndex),
    ("response_id", .string responseId), ("summary_index", natValue 0), ("text", .string text),
    ("type", .string "response.reasoning_summary_text.done")]

def reasoningSummaryPartDone (responseId itemId : Text) (outputIndex : ℕ) (text : Text) : Value :=
  .object [("item_id", .string itemId), ("output_index", natValue outputIndex),
    ("part", reasoningSummaryPart text), ("response_id", .string responseId),
    ("summary_index", natValue 0), ("type", .string "response.reasoning_summary_part.done")]

/-! ### One event of the provider -/

/-- `value.pointer(path).and_then(Value::as_str)` -/
def pointerStr (v : Value) (path : List Text) : Option Text := (v.pointer path).bind Value.asStr

/-- `value.pointer("…/summary")` is missing, not an array, or empty. -/
def summaryEmpty (summary : Option Value) : Bool :=
  ((summary.bind Value.asArray).map List.isEmpty).getD true

namespace ReasoningSummaryMirror

variable (responseId : Text) (outputIndex : ℕ) (m : ReasoningSummaryMirror)

/-- The announcement of the summary part, if the active item has none yet. -/
def announcePart (itemId : Text) : List Value × ReasoningSummaryMirror :=
  if m.partAnnounced then ([], m)
  else ([reasoningSummaryPartAdded responseId itemId outputIndex], { m with partAnnounced := true })

def finishReasoningSummary (itemId : Text) : List Value × ReasoningSummaryMirror :=
  let (announced, m) := m.announcePart responseId outputIndex itemId
  if m.textDone then (announced, m)
  else
    let (tail, m) := { m with textDone := true }.finishText itemId
    let held := (tail.map fun tail =>
      reasoningSummaryTextDelta responseId itemId outputIndex tail).toList
    match m.summary itemId with
    | none => (announced ++ held, m)
    | some text =>
        (announced ++ held ++ [reasoningSummaryTextDone responseId itemId outputIndex text,
          reasoningSummaryPartDone responseId itemId outputIndex text], m)

/-- `response.output_item.added` -/
def onItemAdded (payload : Value) : ReasoningSummaryMirror :=
  if pointerStr payload ["item", "type"] ≠ some "reasoning" then m
  else match pointerStr payload ["item", "id"] with
    | none => m
    | some itemId =>
        let m := m.begin itemId
        if summaryEmpty (payload.pointer ["item", "summary"]) then m
        else m.markProviderSummary itemId

/-- A summary event of the provider itself. -/
def onProviderSummary (payload : Value) : ReasoningSummaryMirror :=
  match payload.getStr "item_id" with
  | none => m
  | some itemId => m.markProviderSummary itemId

/-- `response.content_part.added` -/
def onContentPart (payload : Value) : List Value × ReasoningSummaryMirror :=
  match payload.getStr "item_id" with
  | none => ([], m)
  | some itemId =>
      if pointerStr payload ["part", "type"] ≠ some "reasoning_text" then ([], m)
      else
        let m := m.begin itemId
        if m.providerWritesSummary itemId then ([], m)
        else m.announcePart responseId outputIndex itemId

/-- `response.reasoning_text.delta` -/
def onTextDelta (payload : Value) : List Value × ReasoningSummaryMirror :=
  match payload.getStr "item_id" with
  | none => ([], m)
  | some itemId =>
      let m := m.begin itemId
      if m.providerWritesSummary itemId then ([], m)
      else
        let (emit, m) := m.pushDelta itemId ((payload.getStr "delta").getD [])
        let (announced, m) := m.announcePart responseId outputIndex itemId
        (announced ++ (emit.map fun emit =>
          reasoningSummaryTextDelta responseId itemId outputIndex emit).toList, m)

/-- `response.reasoning_text.done` -/
def onTextDone (payload : Value) : List Value × ReasoningSummaryMirror :=
  match payload.getStr "item_id" with
  | none => ([], m)
  | some itemId =>
      let m := m.begin itemId
      if m.providerWritesSummary itemId then ([], m)
      else m.finishReasoningSummary responseId outputIndex itemId

/-- `response.output_item.done`: the summary that the item gets, and the events before it. -/
def onItemDone (payload : Value) : Option Text × List Value × ReasoningSummaryMirror :=
  match pointerStr payload ["item", "id"] with
  | none => (none, [], m)
  | some itemId =>
      if pointerStr payload ["item", "type"] ≠ some "reasoning" then (none, [], m)
      else if m.providerWritesSummary itemId then (none, [], m.finishItem itemId)
      else if !summaryEmpty (payload.pointer ["item", "summary"]) then
        (none, [], m.finishItem itemId)
      else match m.summary itemId with
        | none => (none, [], m.finishItem itemId)
        | some text =>
            let (events, m) := m.finishReasoningSummary responseId outputIndex itemId
            (some text, events, m.finishItem itemId)

/-- The client's copy of one output item of a completed response. -/
def completedItem (item : Value) : Value :=
  if item.getStr "type" ≠ some "reasoning" then item
  else if !summaryEmpty (item.get "summary") then item
  else match item.getStr "id" with
    | none => item
    | some itemId =>
        if m.providerWritesSummary itemId then item
        else match m.summaries.lookup itemId with
          | none => item
          | some text => item.set "summary" (.array [reasoningSummaryPart text])

end ReasoningSummaryMirror
end CodeSeeX.Native
