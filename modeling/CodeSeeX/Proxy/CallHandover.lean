import CodeSeeX.Proxy.StreamedCalls

/-!
# The handover of streamed calls

When a turn is over the client's calls are handed over one after the other. The bridge closes the
call that it announced with the same id, name and kind; where it finds none, the call is announced
then. When each call is closed under its own announcement can be told from the pieces of the calls.
-/
namespace CodeSeeX.VisibleBridge
open Tools StreamToolCalls Option BTreeMap List
open Native (stripStart stripStart_append)

/-! ## Finding a call again -/

section
variable {bridge later : StreamingVisibleToolBridge} {call : ChatToolCall} {kind : VisibleToolKind}
  {state : VisibleToolState} {index : ℕ}

theorem findStateMut_eq_some : bridge.findStateMut call kind = some (index, state) ↔
    bridge.states.get index = some state ∧
      StreamingVisibleToolBridge.isStateOf call kind state = true ∧
        ∀ earlier < index, ∀ other, bridge.states.get earlier = some other →
          StreamingVisibleToolBridge.isStateOf call kind other = false :=
  @find_entries_eq_some _ _ _ bridge.states index state
    (StreamingVisibleToolBridge.isStateOf call kind)

theorem findStateMut_eq_none : bridge.findStateMut call kind = none ↔
    ∀ index state, bridge.states.get index = some state →
      StreamingVisibleToolBridge.isStateOf call kind state = false :=
  @find_entries_eq_none _ _ _ bridge.states
    (StreamingVisibleToolBridge.isStateOf call kind)

theorem isStateOf_iff : StreamingVisibleToolBridge.isStateOf call kind state = true ↔
    state.id = call.id ∧ state.name = call.name ∧
      ∃ started, state.started = some started ∧ started.kind = kind := by
  simp [StreamingVisibleToolBridge.isStateOf, Option.any_eq_true, and_assoc]

/-- Both bridges have the same calls, announced in the same way. -/
def SameCalls (bridge later : StreamingVisibleToolBridge) : Prop :=
  ∀ index, (later.states.get index).map VisibleToolState.toVisibleToolState =
    (bridge.states.get index).map VisibleToolState.toVisibleToolState

theorem isStateOf_congr {other : VisibleToolState}
    (h : other.toVisibleToolState = state.toVisibleToolState) :
    StreamingVisibleToolBridge.isStateOf call kind other =
      StreamingVisibleToolBridge.isStateOf call kind state := by
  rw [StreamingVisibleToolBridge.isStateOf, StreamingVisibleToolBridge.isStateOf, h]

/-- A call is found at the same index in both. -/
theorem SameCalls.find (h : SameCalls bridge later) :
    (later.findStateMut call kind).map Prod.fst = (bridge.findStateMut call kind).map Prod.fst := by
  have hsame : ∀ index state, bridge.states.get index = some state →
      ∃ other, later.states.get index = some other ∧
        StreamingVisibleToolBridge.isStateOf call kind other =
          StreamingVisibleToolBridge.isStateOf call kind state := by
    intro index state hstate
    have hindex := h index
    rw [hstate, map_some] at hindex
    obtain ⟨other, hother, heq⟩ := map_eq_some_iff.mp hindex
    exact ⟨other, hother, isStateOf_congr heq⟩
  have hback : ∀ index other, later.states.get index = some other →
      ∃ state, bridge.states.get index = some state ∧
        StreamingVisibleToolBridge.isStateOf call kind other =
          StreamingVisibleToolBridge.isStateOf call kind state := by
    intro index other hother
    have hindex := (h index).symm
    rw [hother, map_some] at hindex
    obtain ⟨state, hstate, heq⟩ := map_eq_some_iff.mp hindex
    exact ⟨state, hstate, isStateOf_congr heq.symm⟩
  cases hfind : bridge.findStateMut call kind with
  | none =>
    rw [findStateMut_eq_none] at hfind
    have hnone : later.findStateMut call kind = none := by
      rw [findStateMut_eq_none]
      intro index other hother
      obtain ⟨state, hstate, heq⟩ := hback index other hother
      rw [heq]
      exact hfind index state hstate
    rw [hnone]
  | some found =>
    obtain ⟨index, state⟩ := found
    obtain ⟨hstate, his, hearlier⟩ := findStateMut_eq_some.mp hfind
    obtain ⟨other, hother, heq⟩ := hsame index state hstate
    have hsome : later.findStateMut call kind = some (index, other) := by
      rw [findStateMut_eq_some]
      refine ⟨hother, heq.trans his, fun earlier hlt early hearly => ?_⟩
      obtain ⟨first, hfirst, hequal⟩ := hback earlier early hearly
      rw [hequal]
      exact hearlier earlier hlt first hfirst
    rw [hsome]
    rfl

end

/-! ## The events of a handover -/

/-- What the events of a handover say, for a call of which something was given out before. -/
structure HandoverReading (toolContext : ToolContext)
    (kind : VisibleToolKind) (call : ChatToolCall) (emitted : Text) (reading : CallReading) :
    Prop where
  done : reading.done ≠ []
  names : ∀ name ∈ reading.done, name = shownName toolContext kind call.name
  arguments : reading.arguments = if kind = .externalFunction then [call.arguments] else []
  sent : reading.sent =
    if kind = .externalFunction then (stripStart emitted call.arguments).getD [] else []

section
variable (responseId itemId : Text) (outputIndex : ℕ)

theorem read_inputDeltas (parts : List Text)
    (sequence : ℕ → ℕ) :
    readEvents (parts.mapIdx fun place part =>
      customToolInputDelta responseId itemId outputIndex part (sequence place)) = {} := by
  induction parts generalizing sequence with
  | nil => rfl
  | cons part parts ih =>
    rw [mapIdx_cons, readEvents, ih fun place => sequence (place + 1), read_inputDelta]
    rfl

/-- A part that is empty is not sent. -/
theorem read_argumentsPart (part : Text)
    (sequence : ℕ) :
    readEvents (if part = [] then []
      else [functionArgumentsDelta responseId itemId outputIndex part sequence]) =
      { sent := part } := by
  split_ifs with hpart
  · rw [hpart]
    rfl
  · exact readEvents_singleton _

theorem read_inputPart (part : Text) (sequence : ℕ) :
    readEvents (if part = [] then []
      else [customToolInputDelta responseId itemId outputIndex part sequence]) = {} := by
  split_ifs
  · rfl
  · exact readEvents_singleton _

end

section
variable {texts : ItemTexts} {uuid : ℕ → Text} {responseId : Text}
  {toolContext : ToolContext} {bridge : StreamingVisibleToolBridge} {call : ChatToolCall}
  {state : VisibleToolState} {started : StartedTool} {index : ℕ} {counters : Counters}

theorem read_nativeDone (sequence : ℕ) (itemId : Text) (outputIndex : ℕ) :
    readEvents (customToolCallDone responseId outputIndex
      (Native.nativeApplyPatchResponseItemFromChatCallWithId texts.fromStr call.id call.arguments
        itemId) sequence) =
      { done := [some "apply_patch"] } := by
  rfl

/-- A finished call: its state is the only one that changes, and not in what it is found by. -/
structure Finishes (toolContext : ToolContext) (kind : VisibleToolKind)
    (call : ChatToolCall) (bridge : StreamingVisibleToolBridge) (index : ℕ)
    (state : VisibleToolState) (finished : StreamingVisibleToolBridge.FinishedVisibleTool) :
    Prop where
  same : SameCalls bridge finished.bridge
  others : ∀ other, other ≠ index → finished.bridge.states.get other = bridge.states.get other
  added : (readEvents finished.events).added = []
  reading : HandoverReading toolContext kind call state.emittedInput
    (readEvents finished.events)

theorem sameCalls_insert {later : VisibleToolState} (hstate : bridge.states.get index = some state)
    (h : later.toVisibleToolState = state.toVisibleToolState) :
    SameCalls bridge { bridge with states := bridge.states.insert index later } := by
  intro other
  by_cases hother : other = index
  · subst hother
    rw [get_insert_self, hstate, map_some, map_some, h]
  · rw [get_insert_ne _ hother]

theorem finishNative_spec (hfind : bridge.findStateMut call .nativeApplyPatch = some (index, state)) :
    ∃ finished, bridge.finishNativeApplyPatch texts responseId call counters = some finished ∧
      Finishes toolContext .nativeApplyPatch call bridge index state finished := by
  obtain ⟨hstate, his, -⟩ := findStateMut_eq_some.mp hfind
  obtain ⟨-, -, started, hstarted, -⟩ := isStateOf_iff.mp his
  rw [StreamingVisibleToolBridge.finishNativeApplyPatch, hfind, bind_eq_bind,
    bind_some]
  dsimp only
  rw [hstarted, bind_eq_bind, bind_some]
  refine ⟨_, rfl, sameCalls_insert hstate rfl, fun other hother => ?_, ?_, ?_⟩
  · exact get_insert_ne _ hother
  · dsimp only
    rw [readEvents_append, read_inputDeltas, read_nativeDone]
    rfl
  · dsimp only
    rw [readEvents_append, read_inputDeltas, read_nativeDone]
    exact ⟨nofun, fun name hname => mem_singleton.mp hname, rfl, rfl⟩

theorem finishExternal_spec (hkind : visibleKind toolContext call.name = some .externalFunction)
    (hfind : bridge.findStateMut call .externalFunction = some (index, state)) :
    ∃ finished, bridge.finishExternalFunction texts responseId toolContext call counters =
        some finished ∧
      Finishes toolContext .externalFunction call bridge index state finished := by
  obtain ⟨hstate, his, -⟩ := findStateMut_eq_some.mp hfind
  obtain ⟨-, -, started, hstarted, -⟩ := isStateOf_iff.mp his
  obtain ⟨hname, harguments⟩ := responseItem_shown texts hkind nofun started.itemId
  rw [StreamingVisibleToolBridge.finishExternalFunction, hfind, bind_eq_bind,
    bind_some]
  dsimp only
  rw [hstarted, bind_eq_bind, bind_some]
  refine ⟨_, rfl, sameCalls_insert hstate rfl, fun other hother => ?_, ?_, ?_⟩
  · exact get_insert_ne _ hother
  · dsimp only
    rw [readEvents_append, read_argumentsPart, read_functionDone]
    rfl
  · dsimp only
    rw [readEvents_append, read_argumentsPart, read_functionDone, hname, harguments rfl]
    refine ⟨nofun, ?_, rfl, ?_⟩
    · intro name hdone
      simpa [CallReading.append_eq, CallReading.append] using hdone
    · rw [if_pos rfl]
      exact append_nil _

theorem finishSearch_spec (hkind : visibleKind toolContext call.name = some .codexToolSearch)
    (hfind : bridge.findStateMut call .codexToolSearch = some (index, state)) :
    ∃ finished, bridge.finishCodexToolSearch texts responseId toolContext call counters =
        some finished ∧
      Finishes toolContext .codexToolSearch call bridge index state finished := by
  obtain ⟨-, his, -⟩ := findStateMut_eq_some.mp hfind
  obtain ⟨-, -, started, hstarted, -⟩ := isStateOf_iff.mp his
  obtain ⟨hname, -⟩ := responseItem_shown texts hkind nofun started.itemId
  rw [StreamingVisibleToolBridge.finishCodexToolSearch, hfind, bind_eq_bind,
    bind_some]
  dsimp only
  rw [hstarted, bind_eq_bind, bind_some]
  refine ⟨_, rfl, fun _ => rfl, fun _ _ => rfl, ?_, ?_⟩
  · rw [readEvents_singleton, read_itemDone]
  · rw [readEvents_singleton, read_itemDone, hname]
    exact ⟨nofun, fun name hdone => mem_singleton.mp hdone, rfl, rfl⟩

/-- A call that is announced when it is handed over. -/
structure HandsOverWhole (toolContext : ToolContext)
    (kind : VisibleToolKind) (call : ChatToolCall) (bridge : StreamingVisibleToolBridge)
    (finished : StreamingVisibleToolBridge.FinishedVisibleTool) : Prop where
  same : finished.bridge = bridge
  added : (readEvents finished.events).added = [shownName toolContext kind call.name]
  reading : HandoverReading toolContext kind call [] (readEvents finished.events)

theorem stripStart_nil (t : Text) : stripStart [] t = some t := stripStart_append [] t

theorem wholeNative_spec (hfind : bridge.findStateMut call .nativeApplyPatch = none) :
    HandsOverWhole toolContext .nativeApplyPatch call bridge
      (bridge.nativeApplyPatchClientToolSseEvents texts uuid responseId call counters) := by
  have hnone : bridge.finishNativeApplyPatch texts responseId call counters = none := by
    rw [StreamingVisibleToolBridge.finishNativeApplyPatch, hfind]
    rfl
  rw [StreamingVisibleToolBridge.nativeApplyPatchClientToolSseEvents, hnone,
    nativeApplyPatchResponseItemFromChatCall]
  refine ⟨rfl, ?_, ?_⟩
  · dsimp only
    rw [cons_append, readEvents, readEvents_append, read_inputPart, read_nativeDone, read_added]
    rfl
  · dsimp only
    rw [cons_append, readEvents, readEvents_append, read_inputPart, read_nativeDone, read_added]
    exact ⟨cons_ne_nil _ _, fun name hdone => mem_singleton.mp hdone, rfl, rfl⟩

theorem wholeExternal_spec
    (hkind : visibleKind toolContext call.name = some .externalFunction) :
    HandsOverWhole toolContext .externalFunction call bridge
      (bridge.wholeExternalFunction texts uuid responseId toolContext call counters) := by
  obtain ⟨hname, harguments⟩ := responseItem_shown texts hkind
    (by simp) (("fc_" : Text) ++ uuid counters.fresh)
  rw [StreamingVisibleToolBridge.wholeExternalFunction, ToolContext.responseItemFromChatCall]
  refine ⟨rfl, ?_, ?_⟩
  · dsimp only
    rw [cons_append, readEvents, readEvents_append, read_argumentsPart, read_functionDone, read_added,
      functionCallAdded_name, hname]
    rfl
  · dsimp only
    rw [cons_append, readEvents, readEvents_append, read_argumentsPart, read_functionDone, read_added, hname,
      harguments rfl]
    refine ⟨cons_ne_nil _ _, ?_, rfl, ?_⟩
    · intro name hdone
      simpa [CallReading.append_eq, CallReading.append] using hdone
    · rw [if_pos rfl, stripStart_nil]
      exact append_nil _

theorem wholeSearch_spec (hkind : visibleKind toolContext call.name = some .codexToolSearch) :
    HandsOverWhole toolContext .codexToolSearch call bridge
      (bridge.wholeCodexToolSearch texts uuid responseId toolContext call counters) := by
  obtain ⟨hname, -⟩ := responseItem_shown texts hkind
    (by simp) (("fc_" : Text) ++ uuid counters.fresh)
  rw [StreamingVisibleToolBridge.wholeCodexToolSearch, ToolContext.responseItemFromChatCall]
  refine ⟨rfl, ?_, ?_⟩
  · dsimp only
    rw [readEvents, readEvents_singleton, read_added, read_itemDone, inProgress_name, hname]
    rfl
  · dsimp only
    rw [readEvents, readEvents_singleton, read_added, read_itemDone, hname]
    exact ⟨cons_ne_nil _ _, fun name hdone => mem_singleton.mp hdone, rfl, rfl⟩

/-- The handover of one of the client's calls. -/
def handOver (texts : ItemTexts) (uuid : ℕ → Text) (responseId : Text)
    (toolContext : ToolContext) (bridge : StreamingVisibleToolBridge) (call : ChatToolCall)
    (counters : Counters) : StreamingVisibleToolBridge.FinishedVisibleTool :=
  if isNativeApplyPatchTool call.name then
    bridge.nativeApplyPatchClientToolSseEvents texts uuid responseId call counters
  else bridge.externalClientToolSseEvents texts uuid responseId toolContext call counters

section
variable {kind : VisibleToolKind} (hkind : visibleKind toolContext call.name = some kind)
include hkind

/-- A call whose state is found is finished in it. -/
theorem handOver_found (hfind : bridge.findStateMut call kind = some (index, state)) :
    Finishes toolContext kind call bridge index state
      (handOver texts uuid responseId toolContext bridge call counters) := by
  rw [handOver]
  by_cases hnative : isNativeApplyPatchTool call.name = true
  · obtain rfl : VisibleToolKind.nativeApplyPatch = kind :=
      some.inj ((visibleKind_native.mpr hnative).symm.trans hkind)
    obtain ⟨finished, hfinished, hspec⟩ := @finishNative_spec texts responseId toolContext
      bridge call state index counters hfind
    rw [if_pos hnative, StreamingVisibleToolBridge.nativeApplyPatchClientToolSseEvents, hfinished]
    exact hspec
  · have hne : kind ≠ .nativeApplyPatch := by
      intro heq
      exact hnative (visibleKind_native.mp (heq ▸ hkind))
    have hsearch := isCodexToolSearch_of_kind hkind hne
    rw [if_neg hnative, StreamingVisibleToolBridge.externalClientToolSseEvents, hsearch]
    cases kind with
    | nativeApplyPatch => exact absurd rfl hne
    | externalFunction =>
      obtain ⟨finished, hfinished, hspec⟩ := @finishExternal_spec texts responseId _ _ _ _ _ counters
        hkind hfind
      rw [if_neg (by decide), hfinished]
      exact hspec
    | codexToolSearch =>
      obtain ⟨finished, hfinished, hspec⟩ := @finishSearch_spec texts responseId _ _ _ _ _ counters
        hkind hfind
      rw [if_pos (by decide), hfinished]
      exact hspec

/-- A call whose state is not found gets all its events now. -/
theorem handOver_whole (hfind : bridge.findStateMut call kind = none) :
    HandsOverWhole toolContext kind call bridge
      (handOver texts uuid responseId toolContext bridge call counters) := by
  rw [handOver]
  by_cases hnative : isNativeApplyPatchTool call.name = true
  · obtain rfl : VisibleToolKind.nativeApplyPatch = kind :=
      some.inj ((visibleKind_native.mpr hnative).symm.trans hkind)
    rw [if_pos hnative]
    exact wholeNative_spec hfind
  · have hne : kind ≠ .nativeApplyPatch := by
      intro heq
      exact hnative (visibleKind_native.mp (heq ▸ hkind))
    have hsearch := isCodexToolSearch_of_kind hkind hne
    rw [if_neg hnative, StreamingVisibleToolBridge.externalClientToolSseEvents, hsearch]
    cases kind with
    | nativeApplyPatch => exact absurd rfl hne
    | externalFunction =>
      have hnone : bridge.finishExternalFunction texts responseId toolContext call counters =
          none := by
        rw [StreamingVisibleToolBridge.finishExternalFunction, hfind]
        rfl
      rw [if_neg (by decide), hnone]
      exact wholeExternal_spec hkind
    | codexToolSearch =>
      have hnone : bridge.finishCodexToolSearch texts responseId toolContext call counters =
          none := by
        rw [StreamingVisibleToolBridge.finishCodexToolSearch, hfind]
        rfl
      rw [if_pos (by decide), hnone]
      exact wholeSearch_spec hkind

end

end

end CodeSeeX.VisibleBridge
