import CodeSeeX.Proxy.VisibleBridge

/-!
# Streamed calls of a turn

Two sides take up the pieces of the calls of a turn: the collector, whose calls are handed over
in the end, and the bridge, which announces a call before all its pieces are there. What each
side makes of a call depends on the pieces of this call alone, and from them it can be told when
what was announced is what is handed over.
-/
namespace CodeSeeX.VisibleBridge
open Tools StreamToolCalls List Option BTreeMap

variable (toolContext : ToolContext) (item : Value) {started : StartedTool}
  {state : VisibleToolState}

/-! ## A turn -/

structure CallTurn where
  bridge : StreamingVisibleToolBridge := {}
  toolStates : ToolStates := {}
  counters : Counters := {}
  events : List (ℕ × Value) := []

/-- What arrives in a turn: a delta with pieces of calls, or anything else, which takes some slots,
numbers and fresh ids. -/
inductive Arrival where
  | delta (delta : Value)
  | others (slots numbers ids : ℕ)

def Arrival.entries : Arrival → List Value
  | .delta fields => deltaToolCalls fields
  | .others _ _ _ => []

section
variable (texts : ItemTexts) (uuid : ℕ → Text) (responseId : Text)
  (toolContext : ToolContext)

namespace CallTurn

def arrive (turn : CallTurn) : Arrival → CallTurn
  | .delta delta =>
      let (bridge, counters, events) := turn.bridge.processDelta texts uuid responseId
        toolContext turn.counters delta
      { bridge := bridge
        toolStates := collectStreamingToolCallDeltas delta turn.toolStates
        counters := counters
        events := turn.events ++ events }
  | .others slots numbers ids =>
      { turn with counters := {
          outputIndex := turn.counters.outputIndex + slots
          sequence := turn.counters.sequence + numbers
          fresh := turn.counters.fresh + ids } }

def run (counters : Counters) (arrivals : List Arrival) : CallTurn :=
  arrivals.foldl (arrive texts uuid responseId toolContext) { counters := counters }

/-- The turn behind the handover of the call at an index. -/
def takeFinished (turn : CallTurn) (index : ℕ)
    (finished : StreamingVisibleToolBridge.FinishedVisibleTool) : CallTurn :=
  { turn with
    bridge := finished.bridge
    counters := finished.counters
    events := turn.events ++ finished.events.map fun event => (index, event) }

def handOverNative (turn : CallTurn) (call : ℕ × ChatToolCall) : CallTurn :=
  turn.takeFinished call.1
    (turn.bridge.nativeApplyPatchClientToolSseEvents texts uuid responseId call.2 turn.counters)

def handOverExternal (turn : CallTurn) (call : ℕ × ChatToolCall) : CallTurn :=
  turn.takeFinished call.1
    (turn.bridge.externalClientToolSseEvents texts uuid responseId toolContext call.2
      turn.counters)

end CallTurn

/-- The calls that were collected, each with its index. -/
def indexedToolCalls (uuid : ℕ → Text) (toolStates : ToolStates) : List (ℕ × ChatToolCall) :=
  (toolStates.states.entries.filter fun (_, state) => !state.name.isBlank).map
    fun (index, state) => (index, {
      id := if state.id.isBlank then ("call_" : Text) ++ uuid index else state.id
      name := state.name
      arguments := if state.arguments.isBlank then "\x7b\x7d" else state.arguments })

/-- The calls of an owner, each with its index. -/
def indexedOwnedBy (communityTools : CommunityToolSet) (calls : List (ℕ × ChatToolCall))
    (owner : ToolOwner) : List (ℕ × ChatToolCall) :=
  (calls.filter fun call => callOwner communityTools toolContext call.2 = owner).map
    fun call => (call.1, canonicalCall call.2)

/-- The handover of the client's calls of the turn. -/
def CallTurn.handOverAll (callUuid : ℕ → Text) (communityTools : CommunityToolSet)
    (turn : CallTurn) : CallTurn :=
  let calls := indexedToolCalls callUuid turn.toolStates
  let native := indexedOwnedBy toolContext communityTools calls .codexNativeApplyPatch
  let external := indexedOwnedBy toolContext communityTools calls .external
  external.foldl (CallTurn.handOverExternal texts uuid responseId toolContext)
    (native.foldl (CallTurn.handOverNative texts uuid responseId) turn)

end

/-! ## What the pieces of a call say -/

def idOf (pieces : List CallPieces) : Text := ((pieces.filterMap CallPieces.id).getLast?).getD []

def nameOf (pieces : List CallPieces) : Text :=
  (pieces.map fun piece => piece.name.getD []).flatten

def argumentsOf (pieces : List CallPieces) : Text :=
  (pieces.map fun piece => piece.arguments.getD []).flatten

section
variable (pieces : List CallPieces) (piece : CallPieces)

theorem idOf_concat :
    idOf (pieces ++ [piece]) = piece.id.getD (idOf pieces) := by
  rw [idOf, filterMap_append]
  cases h : piece.id with
  | none => simp [h, idOf]
  | some id => simp [h]

theorem nameOf_concat :
    nameOf (pieces ++ [piece]) = nameOf pieces ++ piece.name.getD [] := by
  simp [nameOf]

theorem argumentsOf_concat :
    argumentsOf (pieces ++ [piece]) = argumentsOf pieces ++ piece.arguments.getD [] := by
  simp [argumentsOf]

end

/-- The pieces name a tool of the client. -/
def namesVisible (toolContext : ToolContext) (pieces : List CallPieces) : Bool :=
  !(idOf pieces).isBlank && !(nameOf pieces).isBlank &&
    (visibleKind toolContext (nameOf pieces)).isSome

/-- The first pieces of a call with which it names a tool of the client. -/
def announcedAt (toolContext : ToolContext) (pieces : List CallPieces) :
    Option (List CallPieces) :=
  pieces.inits.find? (namesVisible toolContext)

theorem inits_concat {α : Type*} (xs : List α) (x : α) :
    (xs ++ [x]).inits = xs.inits ++ [xs ++ [x]] := by
  induction xs with
  | nil => rfl
  | cons y xs ih =>
    rw [cons_append, inits_cons, inits_cons, ih, map_append]
    rfl

theorem announcedAt_concat (pieces : List CallPieces) (piece : CallPieces) :
    announcedAt toolContext (pieces ++ [piece]) =
      (announcedAt toolContext pieces).or
        (if namesVisible toolContext (pieces ++ [piece]) then some (pieces ++ [piece])
          else none) := by
  rw [announcedAt, inits_concat, find?_append, announcedAt, find?_singleton]

/-! ## What the events of a call say -/

/-- The names in the announcements and in the done events of a call, the arguments that were sent
in parts, and those that its done events state. -/
structure CallReading where
  added : List (Option Text) := []
  done : List (Option Text) := []
  sent : Text := []
  arguments : List Text := []

namespace CallReading

def append (front back : CallReading) : CallReading where
  added := front.added ++ back.added
  done := front.done ++ back.done
  sent := front.sent ++ back.sent
  arguments := front.arguments ++ back.arguments

instance : Append CallReading := ⟨append⟩

theorem append_eq (front back : CallReading) : front ++ back = append front back := rfl

@[simp] theorem nil_append (reading : CallReading) : ({} : CallReading) ++ reading = reading := rfl

@[simp] theorem append_nil (reading : CallReading) : reading ++ ({} : CallReading) = reading := by
  simp [append_eq, append]

theorem append_assoc (front middle back : CallReading) :
    front ++ middle ++ back = front ++ (middle ++ back) := by
  simp [append_eq, append]

end CallReading

def readEvent (event : Value) : CallReading :=
  let item := (event.get "item").getD .null
  let type := (event.getStr "type").getD []
  if type = Text.lit "response.output_item.added" then { added := [item.getStr "name"] }
  else if type = Text.lit "response.function_call_arguments.delta" then
    { sent := (event.getStr "delta").getD [] }
  else if type = Text.lit "response.function_call_arguments.done" then
    { done := [event.getStr "name"], arguments := (event.getStr "arguments").toList }
  else if type = Text.lit "response.output_item.done" then { done := [item.getStr "name"] }
  else {}

def readEvents : List Value → CallReading
  | [] => {}
  | event :: events => readEvent event ++ readEvents events

theorem readEvents_append (front back : List Value) :
    readEvents (front ++ back) = readEvents front ++ readEvents back := by
  induction front with
  | nil => rfl
  | cons event front ih =>
    rw [cons_append, readEvents, readEvents, ih, CallReading.append_assoc]

@[simp] theorem readEvents_singleton (event : Value) : readEvents [event] = readEvent event :=
  CallReading.append_nil _

theorem asStr_field (key : Text) :
    ((item.get key).getD .null).asStr = item.getStr key := by
  rw [Value.getStr]
  cases item.get key <;> rfl

section
variable (responseId itemId : Text) (outputIndex : ℕ) (item : Value) (part : Text) (sequence : ℕ)

theorem read_added : readEvent (outputItemAdded responseId outputIndex item sequence) =
    { added := [item.getStr "name"] } := rfl

theorem read_itemDone : readEvent (outputItemDone responseId outputIndex item sequence) =
    { done := [item.getStr "name"] } := rfl

theorem read_inputDelta :
    readEvent (customToolInputDelta responseId itemId outputIndex part sequence) = {} := rfl

theorem read_argumentsDelta :
    readEvent (functionArgumentsDelta responseId itemId outputIndex part sequence) =
      { sent := part } := rfl

theorem read_functionDone : readEvents (functionCallDone responseId outputIndex item sequence) =
    { done := [item.getStr "name", item.getStr "name"]
      arguments := (item.getStr "arguments").toList } := by
  have hread (namespace_ : Option Value) : readEvent (ToolContext.setSome (.object [
      ("arguments", (item.get "arguments").getD .null), ("item_id", (item.get "id").getD .null),
      ("name", (item.get "name").getD .null), ("output_index", natValue outputIndex),
      ("response_id", .string responseId), ("sequence_number", natValue (sequence + 1)),
      ("type", .string "response.function_call_arguments.done")]) "namespace" namespace_) =
      { done := [item.getStr "name"], arguments := (item.getStr "arguments").toList } := by
    rw [← asStr_field item "name", ← asStr_field item "arguments", readEvent,
      getStr_setSome_ne (by decide), getStr_setSome_ne (by decide), getStr_setSome_ne (by decide),
      getStr_setSome_ne (by decide)]
    rfl
  rw [functionCallDone, readEvents, hread, readEvents_singleton, read_itemDone]
  simp [CallReading.append_eq, CallReading.append]

end

/-! ## Items -/

/-- The name that the items of a call have. -/
def shownName (toolContext : ToolContext) (kind : VisibleToolKind) (name : Text) :
    Option Text :=
  match kind with
  | .nativeApplyPatch => some "apply_patch"
  | .externalFunction =>
      some (((toolContext.entries.get name).map ToolEntry.responseName).getD name)
  | .codexToolSearch => none

section
variable {toolContext : ToolContext} {name : Text} {kind : VisibleToolKind}

theorem visibleKind_native : visibleKind toolContext name = some .nativeApplyPatch ↔
    isNativeApplyPatchTool name = true := by
  rw [visibleKind]
  by_cases hnative : isNativeApplyPatchTool name = true
  · simp only [hnative, if_true]
  · rw [if_neg hnative]
    refine iff_of_false ?_ hnative
    split_ifs <;> nofun

theorem visibleKind_external (h : isNativeApplyPatchTool name = false)
    (hexternal : toolContext.hasExternalTool name = true) :
    visibleKind toolContext name =
      some (if toolContext.isCodexToolSearchTool name then .codexToolSearch
        else .externalFunction) := by
  rw [visibleKind, h, hexternal, if_neg (by decide), if_pos rfl]
  split_ifs <;> rfl

theorem isCodexToolSearch_of_kind (h : visibleKind toolContext name = some kind)
    (hkind : kind ≠ .nativeApplyPatch) :
    toolContext.isCodexToolSearchTool name = decide (kind = .codexToolSearch) := by
  rw [visibleKind] at h
  split_ifs at h with hnative hexternal hsearch
  · exact absurd (some.inj h).symm hkind
  · rw [hsearch, ← some.inj h]
    rfl
  · rw [eq_false_of_ne_true hsearch, ← some.inj h]
    rfl

theorem responseItem_shown (texts : ItemTexts) {call : ChatToolCall}
    (h : visibleKind toolContext call.name = some kind) (hkind : kind ≠ .nativeApplyPatch)
    (itemId : Text) :
    let item := toolContext.responseItemFromChatCallWithId texts call itemId
    item.getStr "name" = shownName toolContext kind call.name ∧
      (kind = .externalFunction → item.getStr "arguments" = some call.arguments) := by
  have hsearch := isCodexToolSearch_of_kind h hkind
  rw [ToolContext.responseItemFromChatCallWithId]
  cases kind with
  | nativeApplyPatch => exact absurd rfl hkind
  | externalFunction =>
    rw [if_neg (by simp [hsearch])]
    refine ⟨?_, fun _ => ?_⟩
    · rw [getStr_setSome_ne (by decide), getStr_setSome_ne (by decide)]
      rfl
    · rw [getStr_setSome_ne (by decide), getStr_setSome_ne (by decide)]
      rfl
  | codexToolSearch =>
    rw [if_pos (by simp [hsearch])]
    refine ⟨?_, fun hfunction => by cases hfunction⟩
    · rw [getStr_setSome_ne (by decide)]
      rfl

theorem functionCallAdded_name :
    (functionCallAdded item).getStr "name" = item.getStr "name" := by
  rw [functionCallAdded, getStr_setSome_ne (by decide), ← asStr_field item "name"]
  rfl

theorem inProgress_name :
    (inProgress item).getStr "name" = item.getStr "name" := by
  rw [inProgress, Value.getStr, Value.get_set_ne (by decide)]
  rfl

theorem announcedItem_name (texts : ItemTexts)
    (h : visibleKind toolContext name = some started.kind) (id : Text) :
    (announcedItem texts toolContext id name started).getStr "name" =
      shownName toolContext started.kind name := by
  have hitem := fun hkind => (@responseItem_shown _ _ texts ⟨id, name, []⟩ h hkind started.itemId).1
  rw [announcedItem]
  cases hkind : started.kind with
  | nativeApplyPatch => rfl
  | externalFunction =>
    rw [hkind] at hitem
    exact (functionCallAdded_name _).trans (hitem nofun)
  | codexToolSearch =>
    rw [hkind] at hitem
    exact (inProgress_name _).trans (hitem nofun)

end

/-! ## What was sent of a call -/

/-- The arguments were sent up to here, in the way of the kind. -/
def Sent (kind : VisibleToolKind) (arguments : Text) (state : VisibleToolState)
    (reading : CallReading) : Prop :=
  state.consumedArguments = arguments.length ∧
    match kind with
    | .externalFunction => state.emittedInput = arguments ∧ reading = { sent := arguments }
    | _ => reading = {}

theorem sent_nothing (kind : VisibleToolKind) (hconsumed : state.consumedArguments = 0)
    (hemitted : state.emittedInput = []) : Sent kind [] state {} := by
  refine ⟨hconsumed, ?_⟩
  cases kind with
  | nativeApplyPatch => rfl
  | externalFunction => exact ⟨hemitted, rfl⟩
  | codexToolSearch => rfl

/-- What is sent on brings what was sent up to the arguments that are there. -/
theorem sent_emit {before chunk : Text} {reading : CallReading}
    (hstarted : state.started = some started) (harguments : state.arguments = before ++ chunk)
    (h : Sent started.kind before state reading) (responseId : Text) (counters : Counters) :
    let sent := state.emitArgumentDelta responseId counters
    sent.1.toVisibleToolState = state.toVisibleToolState ∧ sent.1.arguments = state.arguments ∧
      Sent started.kind state.arguments sent.1 (reading ++ readEvents sent.2.2) := by
  obtain ⟨hconsumed, hkind⟩ := h
  rw [VisibleToolState.emitArgumentDelta, hconsumed, harguments, length_append]
  by_cases hchunk : chunk = []
  · subst hchunk
    rw [if_pos (by simp), append_nil]
    refine ⟨rfl, ?_, hconsumed, ?_⟩
    · rw [harguments, append_nil]
    · rw [readEvents, CallReading.append_nil]
      exact hkind
  · have hlength := length_pos_iff.mpr hchunk
    rw [if_neg (by omega), hstarted, drop_left]
    dsimp only
    cases hcase : started.kind with
    | nativeApplyPatch =>
      obtain rfl : reading = {} := by rwa [hcase] at hkind
      dsimp only
      split_ifs
      · exact ⟨rfl, rfl, by simp, rfl⟩
      · refine ⟨rfl, rfl, by simp, ?_⟩
        rw [readEvents_singleton, read_inputDelta]
        rfl
    | externalFunction =>
      rw [hcase] at hkind
      obtain ⟨hemitted, hreading⟩ := hkind
      rw [if_neg hchunk]
      refine ⟨rfl, rfl, by simp, ?_, ?_⟩
      · dsimp only
        rw [hemitted]
      · rw [readEvents_singleton, read_argumentsDelta, hreading]
        rfl
    | codexToolSearch =>
      rw [hcase] at hkind
      refine ⟨rfl, rfl, by simp, ?_⟩
      rw [readEvents, CallReading.append_nil]
      exact hkind

/-! ## One call -/

/-- How far a call is: its tool is not one of the client's yet, or it was announced under the name
that its first pieces gave, and its arguments were sent. -/
inductive Progress (toolContext : ToolContext) (pieces : List CallPieces)
    (state : VisibleToolState) (events : List Value) : Prop where
  | waiting (hstarted : state.started = none)
      (hat : announcedAt toolContext pieces = none)
      (hsent : ∀ kind, Sent kind [] state {}) (hevents : readEvents events = {})
  | announced (started : StartedTool) (front : List CallPieces) (reading : CallReading)
      (hstarted : state.started = some started)
      (hat : announcedAt toolContext pieces = some front)
      (hkind : visibleKind toolContext (nameOf front) = some started.kind)
      (hsent : Sent started.kind state.arguments state reading)
      (hevents : readEvents events =
        { added := [shownName toolContext started.kind (nameOf front)] } ++ reading)

/-- The state and the events of a call are those of its pieces. -/
structure CallTracks (toolContext : ToolContext) (pieces : List CallPieces)
    (state : VisibleToolState) (events : List Value) : Prop where
  id : state.id = idOf pieces
  name : state.name = nameOf pieces
  arguments : state.arguments = argumentsOf pieces
  progress : Progress toolContext pieces state events

theorem callTracks_nil :
    CallTracks toolContext [] {} [] := by
  refine ⟨rfl, rfl, rfl, .waiting rfl ?_ (fun kind => sent_nothing kind rfl rfl) rfl⟩
  rfl

section
variable {texts : ItemTexts} {uuid : ℕ → Text} {responseId : Text}
  {toolContext : ToolContext}

/-- A call is announced where its pieces name a tool of the client, and not before. -/
theorem startIfVisible_cases {pieces : List CallPieces} {state : VisibleToolState}
    (hid : state.id = idOf pieces) (hname : state.name = nameOf pieces) (counters : Counters) :
    let out := state.startIfVisible texts uuid responseId toolContext counters
    if namesVisible toolContext pieces then
      ∃ started, visibleKind toolContext (nameOf pieces) = some started.kind ∧
        out.1 = { state with started := some started } ∧
        readEvents out.2.2 =
          { added := [shownName toolContext started.kind (nameOf pieces)] }
    else out.1 = state ∧ out.2.2 = [] := by
  rw [VisibleToolState.startIfVisible, StreamToolCalls.StreamingVisibleToolBridge.startIfVisible,
    hid, hname, namesVisible]
  by_cases hblank : ((idOf pieces).isBlank || (nameOf pieces).isBlank) = true
  · have hnot : (!(idOf pieces).isBlank && !(nameOf pieces).isBlank) = false := by
      rw [← Bool.not_or, hblank]
      rfl
    rw [if_pos hblank, hnot, Bool.false_and, if_neg (by decide)]
    exact ⟨rfl, rfl⟩
  · have hnot : (!(idOf pieces).isBlank && !(nameOf pieces).isBlank) = true := by
      rw [← Bool.not_or, eq_false_of_ne_true hblank]
      rfl
    rw [if_neg hblank, hnot, Bool.true_and]
    cases hkind : visibleKind toolContext (nameOf pieces) with
    | none =>
      exact ⟨rfl, rfl⟩
    | some kind =>
      refine ⟨⟨kind, itemIdStart kind ++ uuid counters.fresh, counters.outputIndex⟩, rfl, rfl, ?_⟩
      dsimp only [map_some]
      rw [readEvents_singleton, read_added, announcedItem_name texts hkind]

/-- Nothing is sent on for a call that is not announced. -/
theorem emit_waiting (h : state.started = none) (counters : Counters) :
    state.emitArgumentDelta responseId counters = (state, counters, []) := by
  rw [VisibleToolState.emitArgumentDelta, h]
  split_ifs <;> rfl

/-- Whether something is sent on or not, all that arrived is sent then. -/
theorem sent_process {state : VisibleToolState} {started : StartedTool} {before chunk : Text}
    {reading : CallReading} (hstarted : state.started = some started)
    (harguments : state.arguments = before ++ chunk) (h : Sent started.kind before state reading)
    (sawArguments : Bool) (counters : Counters) :
    let out :=
      if sawArguments || decide (state.consumedArguments < state.arguments.length) then
        state.emitArgumentDelta responseId counters
      else (state, counters, [])
    out.1.toVisibleToolState = state.toVisibleToolState ∧ out.1.arguments = state.arguments ∧
      Sent started.kind state.arguments out.1 (reading ++ readEvents out.2.2) := by
  dsimp only
  split_ifs with hsend
  · exact sent_emit hstarted harguments h responseId counters
  · rw [Bool.or_eq_true, not_or, decide_eq_true_iff, h.1, harguments, length_append] at hsend
    have hchunk : chunk = [] := length_eq_zero_iff.mp (by omega)
    rw [harguments, hchunk, append_nil, readEvents, CallReading.append_nil]
    exact ⟨rfl, rfl, h⟩

/-- One entry of a delta keeps the call on the track of its pieces. -/
theorem callTracks_process {pieces : List CallPieces} {events : List Value}
    (h : CallTracks toolContext pieces state events) (piece : CallPieces)
    (counters : Counters) :
    let out := state.process texts uuid responseId toolContext piece counters
    CallTracks toolContext (pieces ++ [piece]) out.1 (events ++ out.2.2) := by
  have hid : (state.take piece).id = idOf (pieces ++ [piece]) := by
    rw [idOf_concat, ← h.id]
    rfl
  have hname : (state.take piece).name = nameOf (pieces ++ [piece]) := by
    rw [nameOf_concat, ← h.name]
    rfl
  have harguments : (state.take piece).arguments = argumentsOf (pieces ++ [piece]) := by
    rw [argumentsOf_concat, ← h.arguments]
    rfl
  have hat := announcedAt_concat toolContext pieces piece
  -- what follows the announcement, if there is one
  have hsend : ∀ (later : VisibleToolState) (started : StartedTool) (front : List CallPieces)
      (before : Text) (reading : CallReading) (counters : Counters) (added : List Value),
      later = { state.take piece with started := some started } →
      announcedAt toolContext (pieces ++ [piece]) = some front →
      visibleKind toolContext (nameOf front) = some started.kind →
      state.arguments = before ++ state.arguments.drop before.length →
      Sent started.kind before (state.take piece) reading →
      readEvents (events ++ added) =
        { added := [shownName toolContext started.kind (nameOf front)] } ++ reading →
      let out :=
        if piece.arguments.isSome || decide (later.consumedArguments < later.arguments.length) then
          later.emitArgumentDelta responseId counters
        else (later, counters, [])
      CallTracks toolContext (pieces ++ [piece]) out.1 (events ++ (added ++ out.2.2)) := by
    intro later started front before reading counters added hlater hfront hkind hbefore hsent hread
    have hstarted : later.started = some started := by rw [hlater]
    have hall : later.arguments = before ++
        (state.arguments.drop before.length ++ piece.arguments.getD []) := by
      rw [hlater, ← append_assoc, ← hbefore]
      rfl
    have hlaterSent : Sent started.kind before later reading := by
      rw [hlater]
      exact hsent
    have hspec := @sent_process responseId later started _ _ reading hstarted hall hlaterSent
      piece.arguments.isSome counters
    generalize (if piece.arguments.isSome ||
        decide (later.consumedArguments < later.arguments.length) then
        later.emitArgumentDelta responseId counters
      else (later, counters, [])) = out at hspec ⊢
    obtain ⟨hkeeps, hkeepsArguments, hout⟩ := hspec
    rw [← hkeepsArguments] at hout
    refine ⟨?_, ?_, ?_, .announced started front _ ?_ hfront hkind hout ?_⟩
    · rw [hkeeps, hlater]
      exact hid
    · rw [hkeeps, hlater]
      exact hname
    · rw [hkeepsArguments, hlater]
      exact harguments
    · rw [hkeeps, hstarted]
    · rw [← append_assoc, readEvents_append, hread, CallReading.append_assoc]
  rw [VisibleToolState.process]
  cases h.progress with
  | waiting hstarted hnone hsent hevents =>
    have hwaits : (state.take piece).started = none := hstarted
    have hstart := @startIfVisible_cases texts uuid responseId toolContext _ _ hid hname
      counters
    rw [hnone, none_or] at hat
    dsimp only
    rw [hwaits, isNone_none, if_pos rfl]
    split_ifs at hat hstart with hvisible
    · obtain ⟨started, hkind, hlater, hread⟩ := hstart
      refine hsend _ started _ [] {} _ _ hlater hat hkind rfl (hsent started.kind) ?_
      rw [readEvents_append, hevents, CallReading.nil_append, hread]
      rfl
    · obtain ⟨hlater, hadded⟩ := hstart
      rw [hlater, hadded, emit_waiting hwaits, ite_self]
      refine ⟨hid, hname, harguments, .waiting hwaits hat hsent ?_⟩
      rw [append_nil, append_nil]
      exact hevents
  | announced started front reading hstarted hfront hkind hsent hevents =>
    have hlater : (state.take piece).started = some started := hstarted
    rw [hfront, some_or] at hat
    rw [hlater, isNone_some, if_neg Bool.false_ne_true]
    refine hsend _ started front state.arguments reading _ [] ?_ hat hkind ?_ hsent ?_
    · rw [← hlater]
    · rw [drop_length, append_nil]
    · rw [append_nil]
      exact hevents

end

/-! ## All calls of a turn -/

/-- What belongs to the call at an index. -/
def ofCall {α : Type*} (index : ℕ) (tagged : List (ℕ × α)) : List α :=
  (tagged.filter fun entry => entry.1 = index).map Prod.snd

section
variable {α : Type*} {index other : ℕ}

@[simp] theorem ofCall_append (front back : List (ℕ × α)) :
    ofCall index (front ++ back) = ofCall index front ++ ofCall index back := by
  rw [ofCall, filter_append, map_append]
  rfl

@[simp] theorem ofCall_self (entries : List α) :
    ofCall index (entries.map fun entry => (index, entry)) = entries := by
  simp [ofCall, List.filter_map, Function.comp_def]

theorem ofCall_other (h : other ≠ index) (entries : List α) :
    ofCall index (entries.map fun entry => (other, entry)) = [] := by
  simp [ofCall, List.filter_map, Function.comp_def, h]

theorem ofCall_single (entry : α) : ofCall index [(index, entry)] = [entry] := ofCall_self [entry]

theorem ofCall_single_ne (h : other ≠ index) (entry : α) : ofCall index [(other, entry)] = [] :=
  ofCall_other h [entry]

end

/-- The pieces in the entries of deltas, each with the index of its call. -/
def indexedPieces : ℕ → List Value → List (ℕ × CallPieces)
  | _, [] => []
  | last, call :: calls =>
      (callIndex call last, callPieces call) :: indexedPieces (callIndex call last) calls

def lastIndex (last : ℕ) (calls : List Value) : ℕ :=
  calls.foldl (fun last call => callIndex call last) last

theorem indexedPieces_append (last : ℕ) (front back : List Value) :
    indexedPieces last (front ++ back) =
      indexedPieces last front ++ indexedPieces (lastIndex last front) back := by
  induction front generalizing last with
  | nil => rfl
  | cons call front ih =>
    rw [cons_append, indexedPieces, indexedPieces, ih, cons_append]
    rfl

theorem lastIndex_append (last : ℕ) (front back : List Value) :
    lastIndex last (front ++ back) = lastIndex (lastIndex last front) back := foldl_append

/-- What the collector has of the calls. -/
structure CollectorTracks (seen : List (ℕ × CallPieces)) (last : ℕ) (toolStates : ToolStates) :
    Prop where
  last : toolStates.lastToolIndex = last
  states : ∀ index, toolStates.states.get index =
    if ofCall index seen = [] then none
    else some ⟨idOf (ofCall index seen), nameOf (ofCall index seen),
      argumentsOf (ofCall index seen)⟩

/-- What the bridge has of the calls, and the events it made of them. -/
structure BridgeTracks (toolContext : ToolContext) (seen : List (ℕ × CallPieces))
    (last : ℕ) (bridge : StreamingVisibleToolBridge) (events : List (ℕ × Value)) : Prop where
  last : bridge.lastToolIndex = last
  known : ∀ index, (bridge.states.get index).isSome = true ↔ ofCall index seen ≠ []
  calls : ∀ index, CallTracks toolContext (ofCall index seen)
    ((bridge.states.get index).getD {}) (ofCall index events)

section
variable {seen : List (ℕ × CallPieces)} {last : ℕ} {toolStates : ToolStates}
  (h : CollectorTracks seen last toolStates)
include h

theorem collectorTracks_collect (call : Value) :
    CollectorTracks (seen ++ [(callIndex call last, callPieces call)]) (callIndex call last)
      (toolStates.collect call) := by
  have hlast := h.last
  refine ⟨by rw [ToolStates.collect, hlast], fun index => ?_⟩
  rw [ToolStates.collect, hlast]
  by_cases hindex : callIndex call last = index
  · subst hindex
    rw [get_insert_self, ofCall_append, ofCall_single, if_neg (by simp), h.states,
      idOf_concat, nameOf_concat, argumentsOf_concat]
    split_ifs with hnone
    · rw [hnone]
      rfl
    · rfl
  · rw [get_insert_ne _ (Ne.symm hindex), ofCall_append, ofCall_single_ne hindex,
      append_nil]
    exact h.states index

theorem collectorTracks_collectAll (calls : List Value) :
    CollectorTracks (seen ++ indexedPieces last calls) (lastIndex last calls)
      (calls.foldl ToolStates.collect toolStates) := by
  induction calls generalizing seen last toolStates with
  | nil => simpa [indexedPieces, lastIndex] using h
  | cons call calls ih =>
    have hstep := ih (collectorTracks_collect h call)
    rw [append_assoc] at hstep
    exact hstep

end

section
variable {texts : ItemTexts} {uuid : ℕ → Text} {responseId : Text}
  {toolContext : ToolContext} {seen : List (ℕ × CallPieces)} {last : ℕ}
  {bridge : StreamingVisibleToolBridge} {events : List (ℕ × Value)}

section
variable (h : BridgeTracks toolContext seen last bridge events) (counters : Counters)
include h

theorem bridgeTracks_processCall (call : Value) :
    let out := bridge.processCall texts uuid responseId toolContext counters call
    BridgeTracks toolContext (seen ++ [(callIndex call last, callPieces call)])
      (callIndex call last) out.1 (events ++ out.2.2) := by
  rw [StreamingVisibleToolBridge.processCall, h.last]
  refine ⟨rfl, fun index => ?_, fun index => ?_⟩
  · by_cases hindex : callIndex call last = index
    · subst hindex
      rw [get_insert_self, ofCall_append, ofCall_single]
      simp
    · rw [get_insert_ne _ (Ne.symm hindex), ofCall_append, ofCall_single_ne hindex,
        append_nil]
      exact h.known index
  · by_cases hindex : callIndex call last = index
    · subst hindex
      rw [get_insert_self, ofCall_append, ofCall_single, getD_some, ofCall_append,
        ofCall_self]
      exact callTracks_process (h.calls _) (callPieces call) counters
    · rw [get_insert_ne _ (Ne.symm hindex), ofCall_append, ofCall_single_ne hindex,
        append_nil, ofCall_append, ofCall_other hindex, append_nil]
      exact h.calls index

theorem bridgeTracks_processCalls (calls : List Value) :
    let out := bridge.processCalls texts uuid responseId toolContext counters calls
    BridgeTracks toolContext (seen ++ indexedPieces last calls) (lastIndex last calls)
      out.1 (events ++ out.2.2) := by
  induction calls generalizing seen last bridge events counters with
  | nil => simpa [indexedPieces, lastIndex, StreamingVisibleToolBridge.processCalls] using h
  | cons call calls ih =>
    have hfirst := @bridgeTracks_processCall texts uuid responseId _ _ _ _ _ h counters call
    have hstep := ih hfirst
      (bridge.processCall texts uuid responseId toolContext counters call).2.1
    dsimp only at hstep ⊢
    rw [append_assoc, append_assoc] at hstep
    exact hstep

end

/-- The pieces of a turn, each with the index of its call. -/
def turnPieces (arrivals : List Arrival) : List (ℕ × CallPieces) :=
  indexedPieces 0 (arrivals.flatMap Arrival.entries)

/-- Both sides have of each call what its pieces say. -/
theorem run_tracks (counters : Counters) (arrivals : List Arrival) :
    let turn := CallTurn.run texts uuid responseId toolContext counters arrivals
    let last := lastIndex 0 (arrivals.flatMap Arrival.entries)
    CollectorTracks (turnPieces arrivals) last turn.toolStates ∧
      BridgeTracks toolContext (turnPieces arrivals) last turn.bridge turn.events := by
  induction arrivals using reverseRecOn with
  | nil =>
    refine ⟨⟨rfl, fun index => rfl⟩, rfl, fun index => ?_, fun index => callTracks_nil _⟩
    exact iff_of_false nofun (fun hne => hne rfl)
  | append_singleton arrivals arrival ih =>
    obtain ⟨hcollector, hbridge⟩ := ih
    have hsingle : [arrival].flatMap Arrival.entries = arrival.entries := by simp
    rw [CallTurn.run, foldl_append, turnPieces, flatMap_append, indexedPieces_append,
      lastIndex_append, hsingle]
    cases arrival with
    | delta fields =>
      exact ⟨collectorTracks_collectAll hcollector (deltaToolCalls fields),
        bridgeTracks_processCalls hbridge _ (deltaToolCalls fields)⟩
    | others slots numbers ids =>
      rw [Arrival.entries, indexedPieces, append_nil]
      exact ⟨hcollector, hbridge⟩

end

end CodeSeeX.VisibleBridge
