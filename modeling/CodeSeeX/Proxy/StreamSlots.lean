import CodeSeeX.General.Slots
import CodeSeeX.Proxy.StreamLoop
import CodeSeeX.Proxy.StreamTexts

/-!
# The slots of a streamed response

Every output item takes the next slot when it is announced, and goes to the end of the output when
it is closed. The two agree as long as nothing is closed while an item of an earlier slot is open.
-/
namespace CodeSeeX.ResponseStream
open Checks Tools ToolLoop StreamToolCalls Slots List Option Bool

variable (outputIndex : ℕ) (texts : ItemTexts) {added item : Value} {channel : TextChannel}
  {state : VisibleToolState} {started : StartedTool} {vars : StreamVars}
  {opened : List (ℕ × Option Text)} {later : TurnVars} {stop : Option ToolLoopStop}
  {partition : ToolCallPartition} {result : StreamVars × StreamStep} {toolCalls : List ChatToolCall}
  {response : ChatStream} {events : List StreamEvent} {output : List Value}

/-! ## The log of slots -/

def itemKey (item : Value) : Option Text := item.getStr "id"

/-- What the events say of slots. -/
def slotLog (events : List StreamEvent) : List (Entry (Option Text) Value) :=
  events.filterMap fun
    | .itemAdded outputIndex item => some (.added outputIndex (itemKey item))
    | .itemDone outputIndex item => some (.done outputIndex item)
    | _ => none

@[simp] theorem slotLog_append (events later : List StreamEvent) :
    slotLog (events ++ later) = slotLog events ++ slotLog later := filterMap_append

/-- The response is not completed yet. -/
def Running (events : List StreamEvent) : Prop := ∀ output, StreamEvent.completed output ∉ events

theorem running_append {events later : List StreamEvent} (h : Running events)
    (hlater : Running later) : Running (events ++ later) := by
  intro output hmem
  rcases mem_append.mp hmem with hmem | hmem
  · exact h output hmem
  · exact hlater output hmem

theorem running_whole (added item : Value) :
    Running [.itemAdded outputIndex added, .itemDone outputIndex item] := by
  intro output hmem
  simp at hmem

theorem running_added (item : Value) : Running [.itemAdded outputIndex item] := by
  intro output hmem
  simp at hmem

theorem running_done (item : Value) : Running [.itemDone outputIndex item] := by
  intro output hmem
  simp at hmem

/-- The message of the turn, while it is open. -/
def openMessage (turn : TurnVars) : List (ℕ × Option Text) :=
  if turn.turnOutputOpen && !turn.turnOutputClosed then
    [(turn.turnOutputIndex.getD 0, some turn.turnItemId)]
  else []

/-- The calls that are announced and not handed over. -/
def openTools (turn : TurnVars) : List (ℕ × Option Text) :=
  turn.visibleToolBridge.announced.map fun started => (started.outputIndex, some started.itemId)

/-- The slots of a turn are in order: a message and calls are not open together, and reasoning that
is not closed yet has nothing in front of it. -/
structure Ledger (turn : TurnVars) : Prop where
  balanced : Balanced itemKey (slotLog turn.events) (openMessage turn ++ openTools turn) turn.output
    turn.outputIndex
  apart : openMessage turn = [] ∨ openTools turn = []
  pending : turn.reasoningClosed = false → turn.turnReasoning ≠ [] →
    openMessage turn = [] ∧ openTools turn = []
  running : Running turn.events

/-! ## Keys of items -/

theorem itemKey_reasoning (itemId reasoning : Text) :
    itemKey (reasoningAdded (reasoningResponseItem texts itemId reasoning)) =
      itemKey (reasoningResponseItem texts itemId reasoning) := by
  have hid : (reasoningResponseItem texts itemId reasoning).get "id" =
      some (.string (("rs_" : Text) ++ itemId)) := by
    rw [reasoningResponseItem, get_setSome_ne (by decide)]
    rfl
  rw [itemKey, itemKey, Value.getStr, Value.getStr, reasoningAdded, hid]
  rfl

theorem itemKey_inProgress (item : Value) : itemKey (inProgress item) = itemKey item := by
  rw [itemKey, itemKey, Value.getStr, Value.getStr, inProgress, Value.get_set_ne (by decide)]

theorem itemKey_proxyAdded (item : Value) : itemKey (proxyItemAdded item) = itemKey item := by
  rw [proxyItemAdded]
  split_ifs
  · exact itemKey_inProgress item
  · rfl

section
variable {turn : TurnVars}

/-! ## Items in one piece -/

theorem slotLog_pushWhole (hkey : itemKey added = itemKey item) :
    slotLog (turn.pushWhole added item).events = slotLog turn.events ++
      [.added turn.outputIndex (itemKey item), .done turn.outputIndex item] := by
  rw [TurnVars.pushWhole, slotLog_append, ← hkey]
  rfl

/-- An item is announced and closed while nothing is open. -/
theorem ledger_pushWhole (h : Ledger turn) (hkey : itemKey added = itemKey item)
    (hmessage : openMessage turn = []) (htools : openTools turn = []) :
    Ledger (turn.pushWhole added item) := by
  have hbalanced := h.balanced
  rw [hmessage, htools, append_nil] at hbalanced
  have hmessage' : openMessage (turn.pushWhole added item) = [] := hmessage
  have htools' : openTools (turn.pushWhole added item) = [] := htools
  refine ⟨?_, .inl hmessage', fun _ _ => ⟨hmessage', htools'⟩,
    running_append h.running (running_whole _ _ _)⟩
  rw [hmessage', htools', append_nil, slotLog_pushWhole hkey]
  exact hbalanced.whole

theorem ledger_closeReasoning (context : StreamContext) (h : Ledger turn) :
    Ledger (closeReasoningIfNeeded context turn) ∧
      openMessage (closeReasoningIfNeeded context turn) = openMessage turn ∧
      openTools (closeReasoningIfNeeded context turn) = openTools turn ∧
      ((closeReasoningIfNeeded context turn).reasoningClosed = true ∨
        (closeReasoningIfNeeded context turn).turnReasoning = []) := by
  rw [closeReasoningIfNeeded]
  split_ifs with hclose
  · rw [and_eq_true, not_eq_true', not_eq_true', isEmpty_eq_false_iff] at hclose
    obtain ⟨hmessage, htools⟩ := h.pending hclose.1 hclose.2
    have hpushed := ledger_pushWhole h (itemKey_reasoning context.texts
      (context.uuid turn.iteration turn.fresh) turn.turnReasoning) hmessage htools
    exact ⟨⟨hpushed.balanced, hpushed.apart, fun _ _ => ⟨hmessage, htools⟩, hpushed.running⟩, rfl,
      rfl, .inl rfl⟩
  · refine ⟨h, rfl, rfl, ?_⟩
    by_cases hclosed : turn.reasoningClosed = true
    · exact .inl hclosed
    · refine .inr ?_
      simpa [hclosed] using hclose

/-! ## The message -/

/-- The only open item stands in the slot that is the end of the output. -/
theorem slot_of_single {entry : ℕ × Option Text}
    (h : Balanced itemKey (slotLog turn.events) [entry] turn.output turn.outputIndex) :
    entry.1 = turn.output.length := by
  have hslots := h.slots
  rw [map_singleton, length_singleton, range'_one, singleton_perm_singleton]
    at hslots
  exact hslots

theorem ledger_closeContent (phase : Text) (h : Ledger turn)
    (hreasoning : turn.reasoningClosed = true ∨ turn.turnReasoning = []) :
    Ledger (closeContentIfNeeded phase turn) ∧ openMessage (closeContentIfNeeded phase turn) = [] ∧
      openTools (closeContentIfNeeded phase turn) = openTools turn := by
  rw [closeContentIfNeeded]
  split_ifs with hclose
  · have hopen : openMessage turn = [(turn.turnOutputIndex.getD 0, some turn.turnItemId)] :=
      if_pos hclose
    have htools : openTools turn = [] := by
      rcases h.apart with hnone | hnone
      · rw [hopen] at hnone
        cases hnone
      · exact hnone
    have hbalanced := h.balanced
    rw [hopen, htools, append_nil] at hbalanced
    have hslot := slot_of_single hbalanced
    dsimp only at hslot
    have hkey : itemKey (streamedMessageItem turn.turnItemId phase turn.turnText) =
        some turn.turnItemId := rfl
    have hclosed := @Balanced.close _ _ itemKey _ _ [] _ _
      (streamedMessageItem turn.turnItemId phase turn.turnText) hbalanced
      (by rw [hslot, hkey])
    refine ⟨⟨?_, .inl (by simp [openMessage]), ?_, running_append h.running (running_done _ _)⟩,
      by simp [openMessage], rfl⟩
    · have hnow : openMessage { turn with
          output := turn.output ++ [streamedMessageItem turn.turnItemId phase turn.turnText]
          events := turn.events ++ [.itemDone (turn.turnOutputIndex.getD 0)
            (streamedMessageItem turn.turnItemId phase turn.turnText)]
          turnOutputClosed := true } = [] := by simp [openMessage]
      rw [hnow]
      rw [← hslot] at hclosed
      have htools' := htools
      unfold openTools at htools' ⊢
      rw [htools', append_nil, slotLog_append]
      exact hclosed
    · intro hstill hsome
      rcases hreasoning with hdone | hnone
      · exact absurd (hdone.symm.trans hstill) (by simp)
      · exact absurd hnone hsome
  · exact ⟨h, if_neg hclose, rfl⟩

/-- Text opens no message behind calls that are announced. -/
theorem ledger_openContent (h : Ledger turn)
    (hreasoning : turn.reasoningClosed = true ∨ turn.turnReasoning = [])
    (hclosed : turn.turnOutputClosed = false)
    (hfits : turn.turnOutputOpen = true ∨ openTools turn = []) : Ledger (openContent turn) := by
  rw [openContent]
  split_ifs with hopen
  · exact h
  have htools : openTools turn = [] := hfits.resolve_left hopen
  have hmessage : openMessage turn = [] := by simp [openMessage, hopen]
  have hbalanced := h.balanced
  rw [hmessage, htools, append_nil] at hbalanced
  have hannounced := hbalanced.announce (some turn.turnItemId)
  refine ⟨?_, .inr htools, ?_, running_append h.running (running_added _ _)⟩
  · have hnow : openMessage { turn with
        turnOutputOpen := true
        turnOutputIndex := some turn.outputIndex
        outputIndex := turn.outputIndex + 1
        events := turn.events ++
          [.itemAdded turn.outputIndex (messageAdded turn.turnItemId "commentary")] } =
        [(turn.outputIndex, some turn.turnItemId)] := by simp [openMessage, hclosed]
    rw [hnow]
    unfold openTools at htools ⊢
    rw [htools, append_nil, slotLog_append]
    exact hannounced
  · intro hstill hsome
    rcases hreasoning with hdone | hnone
    · exact absurd (hdone.symm.trans hstill) (by simp)
    · exact absurd hnone hsome

theorem ledger_appendContent (content : Text) (h : Ledger turn) :
    Ledger (appendContent content turn) := by
  refine ⟨?_, h.apart, h.pending, running_append h.running fun output hmem => by simp at hmem⟩
  have hlog : slotLog (appendContent content turn).events = slotLog turn.events := by
    rw [appendContent, slotLog_append]
    exact append_nil _
  rw [hlog]
  exact h.balanced

end

/-! ## The texts of a turn -/

section
variable {context : StreamContext} {turn : TurnVars}

/-- Nothing is in the way of a text that a channel keeps: reasoning needs that no item is open, and
a message that no call is announced when it begins. -/
def TextFits (channel : TextChannel) (text : Text) (turn : TurnVars) : Prop :=
  match channel with
  | .reasoning => text = [] ∨ turn.reasoningClosed = true ∨
      (openMessage turn = [] ∧ openTools turn = [])
  | .content => text = [] ∨ turn.turnOutputClosed = true ∨ turn.turnOutputOpen = true ∨
      openTools turn = []

theorem open_closeReasoning (context : StreamContext) (turn : TurnVars) :
    (closeReasoningIfNeeded context turn).turnOutputOpen = turn.turnOutputOpen ∧
      (closeReasoningIfNeeded context turn).turnOutputClosed = turn.turnOutputClosed := by
  rw [closeReasoningIfNeeded]
  split_ifs <;> exact ⟨rfl, rfl⟩

theorem ledger_emitVisible {channel : TextChannel} {text : Text} (h : Ledger turn)
    (hfits : TextFits channel text turn) : Ledger (emitVisible context channel text turn) := by
  cases channel with
  | content =>
    rw [emitVisible, emitContentDelta]
    split_ifs with hemit
    · rw [and_eq_true, not_eq_true', not_eq_true', isEmpty_eq_false_iff] at hemit
      obtain ⟨hledger, -, htools, hreasoning⟩ := ledger_closeReasoning context h
      obtain ⟨hopen, hclosed⟩ := open_closeReasoning context turn
      refine ledger_appendContent text (ledger_openContent hledger hreasoning ?_ ?_)
      · rw [hclosed]
        exact hemit.2
      · rw [hopen, htools]
        rcases hfits with hnil | hdone | hfits
        · exact absurd hnil hemit.1
        · exact absurd (hdone.symm.trans hemit.2) (by simp)
        · exact hfits
    · exact h
  | reasoning =>
    rw [emitVisible, emitReasoningDelta]
    split_ifs with hemit
    · rw [and_eq_true, not_eq_true', not_eq_true', isEmpty_eq_false_iff] at hemit
      refine ⟨h.balanced, h.apart, fun _ _ => ?_, h.running⟩
      rcases hfits with hnil | hdone | hnothing
      · exact absurd hnil hemit.1
      · exact absurd (hdone.symm.trans hemit.2) (by simp)
      · exact hnothing
    · exact h

/-- What a text of a channel shows at once. -/
def shownText (context : StreamContext) (channel : TextChannel) (text : Text) (turn : TurnVars) :
    Text :=
  if context.adaptDeepseekToolProtocol then
    (ToolProtocol.push context.texts.fromStr (toolsAvailable turn.payload) (turn.buffer channel)
      text).1.visibleText
  else text

theorem ledger_handleContent {toolContent : ToolProtocol.DeepSeekToolContent} (h : Ledger turn)
    (hfits : TextFits channel toolContent.visibleText turn) :
    Ledger (handleProviderToolContent context channel toolContent turn) := by
  have hvisible := @ledger_emitVisible context turn channel toolContent.visibleText h hfits
  exact ⟨hvisible.balanced, hvisible.apart, hvisible.pending, hvisible.running⟩

theorem ledger_receiveText {text : Text} (h : Ledger turn)
    (hfits : TextFits channel (shownText context channel text turn) turn) :
    Ledger (receiveText context channel text turn) := by
  rw [shownText] at hfits
  rw [receiveText]
  by_cases hadapt : context.adaptDeepseekToolProtocol = true
  · rw [if_pos hadapt] at hfits ⊢
    refine ledger_handleContent ?_ ?_
    · cases channel <;> exact ⟨h.balanced, h.apart, h.pending, h.running⟩
    · cases channel <;> exact hfits
  · rw [if_neg hadapt] at hfits ⊢
    exact ledger_emitVisible h hfits

/-! ## Calls that are announced -/

theorem announced_insert {bridge : StreamingVisibleToolBridge} {index : ℕ} :
    (({ bridge with states := bridge.states.insert index state } :
      StreamingVisibleToolBridge).announced).Perm
      (state.started.toList ++
        ((bridge.states.remove index).entries.map Prod.snd).filterMap VisibleToolState.started) := by
  refine ((BTreeMap.insert_perm_remove bridge.states index state).map Prod.snd
    |>.filterMap VisibleToolState.started).trans ?_
  rw [map_cons, filterMap_cons]
  cases state.started <;> exact Perm.refl _

/-- The calls that are announced at an index, and those of the others. -/
theorem announced_split (bridge : StreamingVisibleToolBridge) (index : ℕ) :
    bridge.announced.Perm
      ((((bridge.states.get index).getD {}).started).toList ++
        ((bridge.states.remove index).entries.map Prod.snd).filterMap VisibleToolState.started) := by
  cases hstate : bridge.states.get index with
  | none =>
    have hkey : index ∉ bridge.states.keys := by
      intro hmem
      obtain ⟨value, hvalue⟩ := BTreeMap.mem_keys.mp hmem
      rw [hstate] at hvalue
      cases hvalue
    rw [BTreeMap.remove_of_notMem hkey]
    exact Perm.refl _
  | some state =>
    refine ((BTreeMap.remove_perm (BTreeMap.get_eq_some.mp hstate)).map Prod.snd
      |>.filterMap VisibleToolState.started).trans ?_
    rw [map_cons, filterMap_cons, getD_some]
    cases state.started <;> exact Perm.refl _

theorem startIfVisible_some {toolContext : ToolContext} {itemId : Text} {outputIndex : ℕ}
    (h : StreamingVisibleToolBridge.startIfVisible toolContext state itemId outputIndex =
      some started) :
    started.outputIndex = outputIndex ∧ started.itemId = itemIdStart started.kind ++ itemId := by
  rw [StreamingVisibleToolBridge.startIfVisible] at h
  split_ifs at h
  obtain ⟨kind, -, hstarted⟩ := map_eq_some_iff.mp h
  rw [← hstarted]
  exact ⟨rfl, rfl⟩

/-- An entry of a delta announces at most one call, in the slot that is given to it. -/
theorem announced_processCall (toolContext : ToolContext)
    (bridge : StreamingVisibleToolBridge) (call : Value) (itemId : Text) (outputIndex : ℕ) :
    (bridge.processCall toolContext call itemId outputIndex).1.announced.Perm
      (bridge.announced ++ ((bridge.processCall toolContext call itemId outputIndex).2.map
        fun started => started.2.2).toList) ∧
      ∀ id name started,
        (bridge.processCall toolContext call itemId outputIndex).2 = some (id, name, started) →
          started.outputIndex = outputIndex ∧ started.itemId = itemIdStart started.kind ++ itemId := by
  rw [StreamingVisibleToolBridge.processCall]
  have hsplit := announced_split bridge (callIndex call bridge.lastToolIndex)
  generalize (bridge.states.get (callIndex call bridge.lastToolIndex)).getD {} = old at hsplit ⊢
  constructor
  · refine announced_insert.trans (Perm.trans ?_ (hsplit.append_right _).symm)
    cases hold : old.started with
    | some started => simp
    | none =>
      cases StreamingVisibleToolBridge.startIfVisible toolContext _ itemId outputIndex with
      | none => simp
      | some started => exact perm_append_comm
  · intro id name started hstarted
    obtain ⟨other, hother, heq⟩ := map_eq_some_iff.mp hstarted
    rw [Prod.mk.injEq, Prod.mk.injEq] at heq
    split_ifs at hother
    rw [← heq.2.2]
    exact startIfVisible_some hother

theorem itemKey_setSome {item : Value} {key : Text} (h : Text.lit "id" ≠ key) (value : Option Value) :
    itemKey (ToolContext.setSome item key value) = itemKey item := by
  rw [itemKey, itemKey, getStr_setSome_ne h]

theorem itemKey_responseItem (toolContext : ToolContext) (call : ChatToolCall)
    (itemId : Text) :
    itemKey (toolContext.responseItemFromChatCallWithId texts call itemId) = some itemId := by
  rw [ToolContext.responseItemFromChatCallWithId]
  split_ifs
  · rw [itemKey_setSome (by decide)]
    rfl
  · rw [itemKey_setSome (by decide), itemKey_setSome (by decide)]
    rfl

theorem itemKey_functionCallAdded {item : Value} {itemId : Text} (h : itemKey item = some itemId) :
    itemKey (functionCallAdded item) = some itemId := by
  obtain ⟨field, hfield, htext⟩ := bind_eq_some_iff.mp h
  rw [functionCallAdded, itemKey_setSome (by decide), hfield]
  exact htext

theorem itemKey_announcedItem (toolContext : ToolContext) (id name : Text)
    (started : StartedTool) :
    itemKey (announcedItem texts toolContext id name started) = some started.itemId := by
  rw [announcedItem]
  cases started.kind with
  | nativeApplyPatch => rfl
  | externalFunction => exact itemKey_functionCallAdded (itemKey_responseItem _ _ _ _)
  | codexToolSearch => exact (itemKey_inProgress _).trans (itemKey_responseItem _ _ _ _)

/-- The parts of a turn that the announcement of calls needs: the message is closed and so is
reasoning. -/
structure ReadyForCalls (turn : TurnVars) : Prop where
  ledger : Ledger turn
  message : openMessage turn = []
  reasoning : turn.reasoningClosed = true ∨ turn.turnReasoning = []

theorem ready_announceCall (h : ReadyForCalls turn) (call : Value) :
    ReadyForCalls (announceCall context turn call) := by
  obtain ⟨hperm, hslot⟩ := announced_processCall context.toolContext turn.visibleToolBridge
    call (context.uuid turn.iteration turn.fresh) turn.outputIndex
  rw [announceCall]
  revert hperm hslot
  obtain ⟨bridge, started⟩ := turn.visibleToolBridge.processCall context.toolContext call
    (context.uuid turn.iteration turn.fresh) turn.outputIndex
  intro hperm hslot
  have hbalanced := h.ledger.balanced
  rw [h.message, nil_append] at hbalanced
  have hpending : turn.reasoningClosed = false → turn.turnReasoning ≠ [] → False := by
    intro hstill hsome
    rcases h.reasoning with hdone | hnone
    · exact absurd (hdone.symm.trans hstill) (by simp)
    · exact hsome hnone
  cases started with
  | none =>
    rw [map_none, toList_none, append_nil] at hperm
    have hmessage : openMessage { turn with visibleToolBridge := bridge } = [] := h.message
    refine ⟨⟨?_, .inl hmessage, fun hstill hsome => (hpending hstill hsome).elim,
      h.ledger.running⟩, hmessage, h.reasoning⟩
    rw [hmessage, nil_append]
    exact hbalanced.perm (hperm.map _).symm
  | some called =>
    obtain ⟨id, name, started⟩ := called
    obtain ⟨hindex, -⟩ := hslot id name started rfl
    have hmessage : openMessage { turn with
        visibleToolBridge := bridge
        fresh := turn.fresh + 1
        outputIndex := turn.outputIndex + 1
        events := turn.events ++ [.itemAdded turn.outputIndex
          (announcedItem context.texts context.toolContext id name started)] } = [] :=
      h.message
    refine ⟨⟨?_, .inl hmessage, fun hstill hsome => (hpending hstill hsome).elim,
      running_append h.ledger.running (running_added _ _)⟩, hmessage, h.reasoning⟩
    rw [hmessage, nil_append, slotLog_append]
    have hannounced := hbalanced.announce (some started.itemId)
    have hkey := itemKey_announcedItem context.texts context.toolContext id name started
    rw [← hkey] at hannounced
    refine hannounced.perm (Perm.trans ?_ (hperm.map _).symm)
    rw [map_append, hkey, ← hindex]
    exact Perm.refl _

theorem ready_announceCalls (h : ReadyForCalls turn) (delta : Value) :
    ReadyForCalls (announceCalls context delta turn) := by
  rw [announceCalls]
  induction deltaToolCalls delta generalizing turn with
  | nil => exact h
  | cons call calls ih => exact ih (ready_announceCall h call)

theorem reasoning_closeContent (phase : Text) (turn : TurnVars) :
    (closeContentIfNeeded phase turn).reasoningClosed = turn.reasoningClosed ∧
      (closeContentIfNeeded phase turn).turnReasoning = turn.turnReasoning := by
  rw [closeContentIfNeeded]
  split_ifs <;> exact ⟨rfl, rfl⟩

/-- With its message and its reasoning closed, a turn is ready for calls. -/
theorem ready_close (phase : Text) (h : Ledger turn) :
    ReadyForCalls (closeContentIfNeeded phase (closeReasoningIfNeeded context turn)) ∧
      openTools (closeContentIfNeeded phase (closeReasoningIfNeeded context turn)) =
        openTools turn := by
  obtain ⟨hledger, -, htools, hreasoning⟩ := ledger_closeReasoning context h
  obtain ⟨hclosed, hmessage, htools'⟩ := ledger_closeContent phase hledger hreasoning
  obtain ⟨hsame, hsame'⟩ := reasoning_closeContent phase (closeReasoningIfNeeded context turn)
  refine ⟨⟨hclosed, hmessage, ?_⟩, htools'.trans htools⟩
  rw [hsame, hsame']
  exact hreasoning

theorem ledger_receiveToolCalls (h : Ledger turn) (delta : Value) :
    Ledger (receiveToolCalls context delta turn) := by
  rw [receiveToolCalls]
  split_ifs
  · have hready := @ready_announceCalls context _ (@ready_close context turn "commentary" h).1 delta
    exact ⟨hready.ledger.balanced, hready.ledger.apart, hready.ledger.pending,
      hready.ledger.running⟩
  · exact h

/-! ## The deltas -/

/-- The texts of a chunk are in nothing's way. -/
def ChunkFits (context : StreamContext) (turn : TurnVars) (chunk : Value) : Prop :=
  (turn.reasoningClosed = true ∨ ∀ text ∈ deltaText (chunkDelta chunk) .reasoning,
    TextFits .reasoning (shownText context .reasoning text turn) turn) ∧
  ∀ text ∈ deltaText (chunkDelta chunk) .content,
    TextFits .content
      (shownText context .content text (receiveReasoning context (chunkDelta chunk) turn))
      (receiveReasoning context (chunkDelta chunk) turn)

/-- What an adapter lets go at the end. -/
def heldText (context : StreamContext) (channel : TextChannel) (turn : TurnVars) : Text :=
  if context.adaptDeepseekToolProtocol then
    (ToolProtocol.finish context.texts.fromStr (toolsAvailable turn.payload)
      (turn.buffer channel)).visibleText
  else []

/-- The chunks of a completion, and what the adapters let go behind them. -/
def StreamFits (context : StreamContext) (turn : TurnVars) : List Value → Prop
  | [] => TextFits .reasoning (heldText context .reasoning turn) turn ∧
      TextFits .content (heldText context .content (finishChannel context .reasoning turn))
        (finishChannel context .reasoning turn)
  | chunk :: chunks =>
      ChunkFits context turn chunk ∧ StreamFits context (receiveChunk context turn chunk) chunks

theorem ledger_receiveChunk {chunk : Value} (h : Ledger turn) (hfits : ChunkFits context turn chunk) :
    Ledger (receiveChunk context turn chunk) := by
  have hreasoning : Ledger (receiveReasoning context (chunkDelta chunk) turn) := by
    rw [receiveReasoning]
    split_ifs with hclosed
    · exact h
    · cases htext : deltaText (chunkDelta chunk) .reasoning with
      | none => exact h
      | some text => exact ledger_receiveText h (hfits.1.resolve_left hclosed text htext)
  have hcontent : Ledger (receiveContent context (chunkDelta chunk)
      (receiveReasoning context (chunkDelta chunk) turn)) := by
    rw [receiveContent]
    cases htext : deltaText (chunkDelta chunk) .content with
    | none => exact hreasoning
    | some text => exact ledger_receiveText hreasoning (hfits.2 text htext)
  exact ledger_receiveToolCalls hcontent _

theorem ledger_finishChannel (h : Ledger turn)
    (hfits : TextFits channel (heldText context channel turn) turn) :
    Ledger (finishChannel context channel turn) := by
  rw [heldText] at hfits
  rw [finishChannel]
  by_cases hadapt : context.adaptDeepseekToolProtocol = true
  · rw [if_pos hadapt] at hfits ⊢
    exact ledger_handleContent h hfits
  · rw [if_neg hadapt]
    exact h

theorem ledger_receiveStream {chunks : List Value} (h : Ledger turn)
    (hfits : StreamFits context turn chunks) : Ledger (receiveStream context chunks turn) := by
  induction chunks generalizing turn with
  | nil => exact ledger_finishChannel (ledger_finishChannel h hfits.1) hfits.2
  | cons chunk chunks ih => exact ih (ledger_receiveChunk h hfits.1) hfits.2

/-- Between two turns nothing is open. -/
structure Settled (vars : StreamVars) : Prop where
  balanced : Balanced itemKey (slotLog vars.events) [] vars.output vars.outputIndex
  running : Running vars.events

theorem ledger_start (iteration : ℕ) (h : Settled vars) :
    Ledger (TurnVars.start context iteration vars) :=
  ⟨h.balanced, .inl rfl, fun _ _ => ⟨rfl, rfl⟩, h.running⟩

theorem settled_turn {turn : TurnVars} (h : Ledger turn) (hmessage : openMessage turn = [])
    (htools : openTools turn = []) : Settled turn.toStreamVars := by
  have hbalanced := h.balanced
  rw [hmessage, htools] at hbalanced
  exact ⟨hbalanced, h.running⟩

/-! ## The final turn -/

/-- The events account for the output. -/
def TurnAccounts (turn : TurnVars) : Prop := Accounts itemKey (slotLog turn.events) turn.output

theorem accounts_pushLast {added item : Value} (h : Settled turn.toStreamVars)
    (hkey : itemKey added = itemKey item) : TurnAccounts (pushLast added item turn) := by
  have hlog : slotLog (pushLast added item turn).events = slotLog turn.events ++
      [.added turn.outputIndex (itemKey item), .done turn.outputIndex item] := by
    rw [pushLast, slotLog_append, ← hkey]
    rfl
  rw [TurnAccounts, hlog]
  exact h.balanced.whole.accounts

/-- A final turn pushes the empty message or the compaction, but not both. -/
theorem accounts_finalTurn (h : Settled turn.toStreamVars)
    (hlast : turn.turnOutputOpen = true ∨ context.autoCompaction = none) :
    TurnAccounts (pushCompaction context (pushEmptyMessage context turn)) := by
  rw [pushCompaction, pushEmptyMessage]
  split_ifs with hopen
  · cases context.autoCompaction with
    | none => exact h.balanced.accounts
    | some item => exact accounts_pushLast h rfl
  · rw [hlast.resolve_left hopen]
    exact @accounts_pushLast { turn with fresh := turn.fresh + 1 } _ _ ⟨h.balanced, h.running⟩ rfl

/-! ## Handoff to the client -/

/-- The calls find the open items in the order of their slots, and then none. -/
def Serves (find : ClientCall → Option StartedTool) :
    ℕ → List (ℕ × Option Text) → List ClientCall → Prop
  | _, opened, [] => opened = []
  | base, opened, clientCall :: clientCalls =>
      match find clientCall with
      | some started => started.outputIndex = base ∧
          ∃ rest, opened.Perm ((base, some started.itemId) :: rest) ∧
            Serves find (base + 1) rest clientCalls
      | none => opened = [] ∧ Serves find (base + 1) [] clientCalls

section
variable {find : ClientCall → Option StartedTool} {clientCalls : List ClientCall}

theorem serves_nothing (hnone : ∀ clientCall ∈ clientCalls, find clientCall = none) (base : ℕ) :
    Serves find base [] clientCalls := by
  induction clientCalls generalizing base with
  | nil => rfl
  | cons clientCall clientCalls ih =>
    obtain ⟨hhere, hlater⟩ := forall_mem_cons.mp hnone
    rw [Serves, hhere]
    exact ⟨rfl, ih hlater _⟩

/-- Open items in consecutive slots are served by calls that find these slots in order. -/
theorem serves_of_slots {base count unannounced : ℕ}
    (hslots : (opened.map Prod.fst).Perm (range' base count))
    (hfound : ∀ clientCall started, find clientCall = some started → base ≤ started.outputIndex →
      (started.outputIndex, some started.itemId) ∈ opened)
    (hcalls : (clientCalls.map fun clientCall => (find clientCall).map StartedTool.outputIndex) =
      (range' base count).map some ++ replicate unannounced none) :
    Serves find base opened clientCalls := by
  induction count generalizing base opened clientCalls with
  | zero =>
    rw [range'_zero, perm_nil, map_eq_nil_iff] at hslots
    subst hslots
    refine serves_nothing (fun clientCall hmem => ?_) base
    have hall := (eq_replicate_iff.mp hcalls).2 _ (mem_map_of_mem hmem)
    exact map_eq_none_iff.mp hall
  | succ count ih =>
    cases clientCalls with
    | nil =>
      have hlength := congrArg length hcalls
      simp only [map_nil, length_nil, length_append, length_map,
        length_range', length_replicate] at hlength
      omega
    | cons clientCall clientCalls =>
      rw [map_cons, range'_succ, map_cons, cons_append, cons.injEq] at hcalls
      obtain ⟨started, hstarted, hindex⟩ := map_eq_some_iff.mp hcalls.1
      have hmem : (base, some started.itemId) ∈ opened := by
        have hin := hfound clientCall started hstarted hindex.ge
        rwa [hindex] at hin
      have hperm := perm_cons_erase hmem
      rw [Serves, hstarted]
      refine ⟨hindex, _, hperm, ih ?_ ?_ hcalls.2⟩
      · have hslots' := (hperm.map Prod.fst).symm.trans hslots
        exact Perm.cons_inv hslots'
      · intro other later hlater hle
        have hin := hfound other later hlater (by omega)
        rcases mem_cons.mp (hperm.mem_iff.mp hin) with heq | hrest
        · rw [Prod.mk.injEq] at heq
          omega
        · exact hrest

end

section
variable (context : StreamContext) (clientCall : ClientCall) (itemId : Text)

theorem itemKey_clientItem :
    itemKey (clientCall.item context itemId) = some itemId := by
  cases clientCall with
  | native call => rfl
  | external call => exact itemKey_responseItem _ _ _ _

theorem itemKey_clientAdded :
    itemKey (clientCall.added context.toolContext (clientCall.item context itemId)) =
      itemKey (clientCall.item context itemId) := by
  have hkey := itemKey_clientItem context clientCall itemId
  rw [ClientCall.added]
  cases clientCall.kind context.toolContext with
  | nativeApplyPatch =>
    rw [hkey]
    obtain ⟨field, hfield, htext⟩ := bind_eq_some_iff.mp hkey
    rw [customToolCallAdded, hfield]
    exact htext
  | externalFunction => exact (itemKey_functionCallAdded hkey).trans hkey.symm
  | codexToolSearch => exact itemKey_inProgress _

end

theorem findStarted_handOver (turn : TurnVars) (clientCall : ClientCall) :
    findStarted context (handOver context turn clientCall) = findStarted context turn := by
  have hbridge : (handOver context turn clientCall).visibleToolBridge = turn.visibleToolBridge := by
    unfold handOver
    cases findStarted context turn clientCall <;> rfl
  funext other
  rw [findStarted, findStarted, hbridge]

theorem handOver_found {clientCall : ClientCall} {started : StartedTool}
    (h : findStarted context turn clientCall = some started) :
    handOver context turn clientCall = { turn with
      output := turn.output ++ [clientCall.item context started.itemId]
      events := turn.events ++
        [.itemDone started.outputIndex (clientCall.item context started.itemId)] } := by
  unfold handOver
  rw [h]

/-- A call that was not announced is handed over in one piece. -/
theorem handOver_whole {clientCall : ClientCall} (h : findStarted context turn clientCall = none) :
    ∃ added item, itemKey added = itemKey item ∧
      (handOver context turn clientCall).toStreamVars = (turn.pushWhole added item).toStreamVars := by
  have hkey := itemKey_clientAdded context clientCall (itemIdStart
    (clientCall.kind context.toolContext) ++ context.uuid turn.iteration turn.fresh)
  refine ⟨_, _, hkey, ?_⟩
  unfold handOver
  rw [h]

/-- Calls that serve the open items close them in order. -/
theorem balanced_handOver {opened : List (ℕ × Option Text)} {clientCalls : List ClientCall}
    (h : Balanced itemKey (slotLog turn.events) opened turn.output turn.outputIndex)
    (hserves : Serves (findStarted context turn) turn.output.length opened clientCalls) :
    Balanced itemKey (slotLog (clientCalls.foldl (handOver context) turn).events) []
      (clientCalls.foldl (handOver context) turn).output
      (clientCalls.foldl (handOver context) turn).outputIndex := by
  induction clientCalls generalizing turn opened with
  | nil =>
    rwa [hserves] at h
  | cons clientCall clientCalls ih =>
    rw [Serves] at hserves
    have hsame := @findStarted_handOver context turn clientCall
    cases hfound : findStarted context turn clientCall with
    | some started =>
      rw [hfound] at hserves
      obtain ⟨hindex, rest, hperm, hlater⟩ := hserves
      rw [← itemKey_clientItem context clientCall started.itemId] at hperm
      have hclosed := h.close hperm
      rw [← hindex] at hclosed
      refine @ih (handOver context turn clientCall) rest ?_ ?_
      · rw [handOver_found hfound, slotLog_append]
        exact hclosed
      · rw [hsame, handOver_found hfound, length_append]
        exact hlater
    | none =>
      rw [hfound] at hserves
      obtain ⟨hnone, hlater⟩ := hserves
      subst hnone
      obtain ⟨added, item, hkey, hpushed⟩ := handOver_whole hfound
      have hlog : slotLog (handOver context turn clientCall).events = _ :=
        (congrArg (fun vars => slotLog vars.events) hpushed).trans (slotLog_pushWhole hkey)
      have houtput : (handOver context turn clientCall).output = turn.output ++ [item] :=
        congrArg StreamVars.output hpushed
      have hnext : (handOver context turn clientCall).outputIndex = turn.outputIndex + 1 :=
        congrArg StreamVars.outputIndex hpushed
      refine @ih (handOver context turn clientCall) [] ?_ ?_
      · rw [hlog, houtput, hnext]
        exact h.whole
      · rw [hsame, houtput, length_append]
        exact hlater

/-! ## Calls that CodeSeeX runs -/

/-- Nothing is open in a turn. -/
structure Idle (turn : TurnVars) : Prop where
  settled : Settled turn.toStreamVars
  tools : turn.visibleToolBridge.announced = []

theorem idle_pushWhole (h : Idle turn) (hkey : itemKey added = itemKey item) :
    Idle (turn.pushWhole added item) := by
  refine ⟨⟨?_, running_append h.settled.running (running_whole _ _ _)⟩, h.tools⟩
  rw [slotLog_pushWhole hkey]
  exact h.settled.balanced.whole

theorem idle_showCalls (executed : List ChatToolCall) (h : Idle turn) :
    Idle (showCalls context executed turn) := by
  have hfold : ∀ (items : List Value) (turn : TurnVars), Idle turn →
      Idle (items.foldl (fun turn item => turn.pushWhole (proxyItemAdded item) item) turn) := by
    intro items
    induction items with
    | nil => exact fun _ hidle => hidle
    | cons item items ih => exact fun turn hidle => ih _ (idle_pushWhole hidle (itemKey_proxyAdded item))
  exact hfold _ _ ⟨h.settled, h.tools⟩

theorem idle_showSearch (call : ChatToolCall) (result : Value) (h : Idle turn) :
    Idle (showSearch context call result turn) := by
  rw [showSearch]
  split_ifs
  · have hpushed := idle_pushWhole h (@rfl _ (itemKey (webSearchCallOutputResponseItem
      (context.uuid turn.iteration turn.fresh) call (context.summarizeToolResult result))))
    exact ⟨hpushed.settled, hpushed.tools⟩
  · exact h

theorem idle_pushMessage {message : Value} {error : Text}
    (hpush : pushMessage turn message error = .ok later) (h : Idle turn) : Idle later := by
  rw [pushMessage] at hpush
  split at hpush
  · rw [Except.ok.injEq] at hpush
    rw [← hpush]
    exact ⟨⟨h.settled.balanced, h.settled.running⟩, h.tools⟩
  · cases hpush

theorem idle_takeResults {snapshot : List Value} {index : ℕ} {calls : List ChatToolCall}
    {results : List (ChatToolCall × Value)}
    (htake : takeResults context snapshot index turn calls = .ok (later, results)) (h : Idle turn) :
    Idle later := by
  induction calls generalizing index turn later results with
  | nil =>
    rw [takeResults, Except.ok.injEq, Prod.mk.injEq] at htake
    rwa [← htake.1]
  | cons call calls ih =>
    simp only [takeResults, bind_ok] at htake
    obtain ⟨_, -, shown, hshown, ⟨turned, others⟩, hlater, heq⟩ := htake
    rw [Except.ok.injEq, Prod.mk.injEq] at heq
    rw [← heq.1]
    exact ih hlater (idle_pushMessage hshown (idle_showSearch call _ h))

theorem idle_executeStreamedTurn {toolCalls executed : List ChatToolCall}
    (hexecute : executeStreamedTurn context turn toolCalls executed = .ok (later, stop))
    (h : Idle turn) : Idle later := by
  simp only [executeStreamedTurn, bind_ok] at hexecute
  obtain ⟨shown, hshown, ⟨turned, results⟩, hresults, _, -, heq⟩ := hexecute
  rw [Except.ok.injEq, Prod.mk.injEq] at heq
  have hidle := idle_takeResults hresults (idle_pushMessage hshown (idle_showCalls executed h))
  rw [← heq.1]
  exact ⟨⟨hidle.settled.balanced, hidle.settled.running⟩, hidle.tools⟩

/-- What a turn leaves: a completed response that accounts for its items, or a settled state. -/
def StepAccounts (vars : StreamVars) : StreamStep → Prop
  | .completed => ∃ events, vars.events = events ++ [.completed vars.output] ∧
      Accounts itemKey (slotLog events) vars.output
  | .request _ => Settled vars

theorem findStarted_idle (h : turn.visibleToolBridge.announced = []) (clientCall : ClientCall) :
    findStarted context turn clientCall = none := by
  rw [findStarted, StreamingVisibleToolBridge.findState, bind_eq_none_iff]
  intro state hstate
  exact filterMap_eq_nil_iff.mp h state (mem_of_find?_eq_some hstate)

theorem stepAccounts_handOverAll
    (h : Balanced itemKey (slotLog turn.events) opened turn.output turn.outputIndex)
    (hserves : Serves (findStarted context turn) turn.output.length opened
      (clientCalls partition)) :
    StepAccounts (handOverAll context turn partition).1 (handOverAll context turn partition).2 :=
  ⟨_, rfl, (balanced_handOver h hserves).accounts⟩

theorem stepAccounts_afterResults
    (hafter : afterStreamedResults context turn partition stop = .ok result) (h : Idle turn) :
    StepAccounts result.1 result.2 := by
  have hrecover : ∀ (stop : ToolLoopStop) (code : Text),
      recoverStreaming turn stop code = .ok result → StepAccounts result.1 result.2 := by
    intro stop code hrecovered
    simp only [recoverStreaming, bind_ok] at hrecovered
    obtain ⟨payload, -, heq⟩ := hrecovered
    rw [Except.ok.injEq] at heq
    rw [← heq]
    exact ⟨h.settled.balanced, h.settled.running⟩
  unfold afterStreamedResults at hafter
  cases hbudget : webSearchBudgetStop turn.seen with
  | some budget =>
    rw [hbudget] at hafter
    exact hrecover budget _ hafter
  | none =>
    rw [hbudget] at hafter
    cases stop with
    | some stop =>
      dsimp only at hafter
      split_ifs at hafter
      exact hrecover stop _ hafter
    | none =>
      split_ifs at hafter
      · simp only [bind_ok] at hafter
        obtain ⟨_, -, heq⟩ := hafter
        rw [Except.ok.injEq] at heq
        rw [← heq]
        exact stepAccounts_handOverAll h.settled.balanced
          (serves_nothing (fun _ _ => findStarted_idle h.tools _) _)
      · rw [Except.ok.injEq] at hafter
        rw [← hafter]
        exact h.settled

/-! ## Which runs keep the order -/

/-- All calls that were announced are handed over, in the order in which they took their slots, and
those that were not announced last. -/
def HandoverFits (context : StreamContext) (turn : TurnVars) (partition : ToolCallPartition) : Prop :=
  ∃ (announced : List StartedTool) (unannounced : ℕ),
    (clientCalls partition).map (findStarted context turn) =
      announced.map some ++ replicate unannounced none ∧
    announced.Perm turn.visibleToolBridge.announced ∧
    (announced.map StartedTool.outputIndex).Pairwise (· < ·)

/-- A last turn has announced no call and does not push both an empty message and a compaction, and
calls are announced only in a turn that leaves all of them to the client. -/
def TurnFits (context : StreamContext) (turn : TurnVars) (toolCalls : List ChatToolCall) : Prop :=
  if toolCalls = [] then
    turn.visibleToolBridge.announced = [] ∧
      (turn.turnOutputOpen = true ∨ context.autoCompaction = none)
  else
    let partition := partitionToolCalls toolCalls context.communityTools context.toolContext
    if partition.hasClientExecutedCalls && !partition.hasProxyExecutedCalls then
      HandoverFits context turn partition
    else turn.visibleToolBridge.announced = []

def IterationFits (context : StreamContext) (iteration : ℕ) (vars : StreamVars)
    (response : ChatStream) : Prop :=
  StreamFits context (TurnVars.start context iteration vars) response.chunks ∧
    TurnFits context (closeTurn context (streamTurn context iteration vars response.chunks))
      (turnToolCalls context (streamTurn context iteration vars response.chunks))

/-- The iterations of a run fit, each in the state in which it begins. -/
def RunFits (context : StreamContext) : ℕ → ℕ → StreamVars → ChatStream → Prop
  | 0, _, _, _ => True
  | left + 1, iteration, vars, response =>
      IterationFits context iteration vars response ∧
        ∀ later code next,
          streamIteration context iteration vars response = .ok (later, .request code) →
          context.streamChatCompletions (iteration + 1) later.payload = .ok next →
          RunFits context left (iteration + 1) later next

theorem findStarted_mem {clientCall : ClientCall}
    (h : findStarted context turn clientCall = some started) :
    (started.outputIndex, some started.itemId) ∈ openTools turn := by
  obtain ⟨state, hstate, hstarted⟩ := bind_eq_some_iff.mp h
  have hmem : started ∈ turn.visibleToolBridge.announced :=
    mem_filterMap.mpr ⟨state, mem_of_find?_eq_some hstate, hstarted⟩
  exact mem_map_of_mem hmem

theorem stepAccounts_clientTurn
    (hturn : streamedClientTurn context turn toolCalls partition = .ok result) (h : Ledger turn)
    (hmessage : openMessage turn = []) (hfits : HandoverFits context turn partition) :
    StepAccounts result.1 result.2 := by
  simp only [streamedClientTurn, bind_ok] at hturn
  obtain ⟨_, -, _, -, heq⟩ := hturn
  rw [Except.ok.injEq] at heq
  rw [← heq]
  have hbalanced := h.balanced
  rw [hmessage, nil_append] at hbalanced
  obtain ⟨announced, unannounced, hcalls, hperm, horder⟩ := hfits
  have hopen : (announced.map StartedTool.outputIndex).Perm
      (List.range' turn.output.length (openTools turn).length) := by
    refine (hperm.map _).trans (Perm.trans ?_ hbalanced.slots)
    rw [openTools, List.map_map]
    exact Perm.refl _
  have hslots : announced.map StartedTool.outputIndex =
      List.range' turn.output.length (openTools turn).length :=
    hopen.eq_of_pairwise (fun _ _ _ _ hlt hgt => absurd hlt hgt.asymm) horder pairwise_lt_range'
  have hindices := congrArg (List.map (Option.map StartedTool.outputIndex)) hcalls
  have hsome : announced.map (Option.map StartedTool.outputIndex ∘ some) =
      (announced.map StartedTool.outputIndex).map some := by
    rw [List.map_map]
    rfl
  rw [map_append, List.map_map, List.map_map, map_replicate, hsome, hslots] at hindices
  exact stepAccounts_handOverAll hbalanced (serves_of_slots hbalanced.slots
    (fun _ _ hfound _ => findStarted_mem hfound) hindices)

theorem stepAccounts_streamedToolTurn (hturn : streamedToolTurn context turn toolCalls = .ok result)
    (h : Ledger turn) (hmessage : openMessage turn = []) (hcalls : toolCalls ≠ [])
    (hfits : TurnFits context turn toolCalls) : StepAccounts result.1 result.2 := by
  rw [TurnFits, if_neg hcalls] at hfits
  unfold streamedToolTurn at hturn
  dsimp only at hturn hfits
  split at hturn
  · cases hturn
  · split at hturn
    · cases hturn
    · have hseen : Ledger { turn with seen := recordIteration turn.seen toolCalls } :=
        ⟨h.balanced, h.apart, h.pending, h.running⟩
      split_ifs at hturn hfits with hclient
      · exact stepAccounts_clientTurn hturn hseen hmessage hfits
      · simp only [bind_ok] at hturn
        obtain ⟨⟨later, stop⟩, hexecute, hafter⟩ := hturn
        have htools : openTools turn = [] := by
          rw [openTools, hfits]
          rfl
        have hidle : Idle { turn with seen := recordIteration turn.seen toolCalls } :=
          ⟨settled_turn hseen hmessage htools, hfits⟩
        exact stepAccounts_afterResults hafter (idle_executeStreamedTurn hexecute hidle)

theorem stepAccounts_finalTurn (hturn : finalTurn context turn = .ok result)
    (h : Settled turn.toStreamVars)
    (hlast : turn.turnOutputOpen = true ∨ context.autoCompaction = none) :
    StepAccounts result.1 result.2 := by
  simp only [finalTurn, bind_ok] at hturn
  obtain ⟨_, -, heq⟩ := hturn
  rw [Except.ok.injEq] at heq
  rw [← heq]
  exact ⟨_, rfl, accounts_finalTurn h hlast⟩

/-- What one iteration does with the slots. -/
theorem stepAccounts_streamIteration {iteration : ℕ}
    (hiteration : streamIteration context iteration vars response = .ok result) (h : Settled vars)
    (hfits : IterationFits context iteration vars response) : StepAccounts result.1 result.2 := by
  obtain ⟨hstream, hturn⟩ := hfits
  unfold streamIteration at hiteration
  split at hiteration
  · cases hiteration
  · have hreceived : Ledger (streamTurn context iteration vars response.chunks) :=
      ledger_receiveStream (ledger_start iteration h) hstream
    generalize streamTurn context iteration vars response.chunks = received at *
    obtain ⟨hready, htools⟩ := @ready_close context received
      (if turnToolCalls context received = [] then "final_answer" else "commentary") hreceived
    rw [endTurn] at hiteration
    split_ifs at hiteration with hcalls
    · rw [TurnFits, if_pos hcalls] at hturn
      have hnone : openTools (closeTurn context received) = [] := by
        rw [openTools, hturn.1]
        rfl
      exact stepAccounts_finalTurn hiteration (settled_turn hready.ledger hready.message hnone)
        hturn.2
    · exact stepAccounts_streamedToolTurn hiteration hready.ledger hready.message hcalls hturn

theorem not_completed_failure {failure : StreamFailure} :
    failure.events ≠ events ++ [.completed output] := by
  intro h
  have hlast := (append_inj' h rfl).2
  cases hlast

theorem loop_accounts {left iteration : ℕ} (h : Settled vars)
    (hfits : RunFits context left iteration vars response)
    (hrun : responseStreamFromChat.loop context left iteration vars response =
      events ++ [.completed output]) : Accounts itemKey (slotLog events) output := by
  induction left generalizing iteration vars response with
  | zero =>
    refine absurd ?_ (h.running output)
    rw [responseStreamFromChat.loop] at hrun
    rw [hrun]
    exact mem_append_right _ (mem_singleton_self _)
  | succ left ih =>
    rw [responseStreamFromChat.loop] at hrun
    cases hiteration : streamIteration context iteration vars response with
    | error failure =>
      rw [hiteration] at hrun
      exact absurd hrun not_completed_failure
    | ok result =>
      have hstep := stepAccounts_streamIteration hiteration h hfits.1
      obtain ⟨later, step⟩ := result
      rw [hiteration] at hrun
      cases step with
      | completed =>
        obtain ⟨before, hevents, haccounts⟩ := hstep
        obtain ⟨hsame, hlast⟩ := append_inj' (hevents.symm.trans hrun) rfl
        rw [singleton_inj, StreamEvent.completed.injEq] at hlast
        rw [← hsame, ← hlast]
        exact haccounts
      | request code =>
        dsimp only at hrun
        cases hnext : context.streamChatCompletions (iteration + 1) later.payload with
        | error message =>
          rw [hnext] at hrun
          exact absurd hrun not_completed_failure
        | ok next =>
          rw [hnext] at hrun
          exact ih hstep (hfits.2 later code next hiteration hnext) hrun

theorem settled_nothing (payload : Value) : Settled { payload } :=
  ⟨balanced_nil itemKey, fun _ hmem => by cases hmem⟩

/-- In a run whose iterations fit, the output of the completed response is what was announced and
closed. -/
theorem completed_output_accounted (context : StreamContext) (payload : Value)
    (response : ChatStream) (events : List StreamEvent) (output : List Value)
    (hfits : RunFits context (maxToolLoopIterations + 1) 0 { payload } response)
    (hrun : responseStreamFromChat context payload response = events ++ [.completed output]) :
    Accounts itemKey (slotLog events) output :=
  loop_accounts (settled_nothing payload) hfits hrun

end

/-! ### A search and a patch, and nothing -/

/-- A stream that runs a search, and whose next completion has a text and a patch. -/
def searchThenPatch : StreamContext :=
  { plainStream with
    enabledTools := ["web_search"]
    streamChatCompletions := fun _ _ =>
      .ok ⟨[textChunk "hello", callChunk "call_2" "apply_patch"], none⟩ }

def searchChunks : List Value :=
  [deltaChunk [("reasoning_content", .string "think")], callChunk "call_1" "web_search"]

theorem searchThenPatch_fits : RunFits searchThenPatch (maxToolLoopIterations + 1) 0
    { payload := toolPayload } ⟨searchChunks, none⟩ := by
  refine ⟨⟨⟨⟨.inr fun _ _ => .inr (.inr ⟨rfl, rfl⟩), nofun⟩, ⟨.inr nofun, nofun⟩, .inl rfl, .inl rfl⟩,
    rfl⟩, fun later code next hstep hnext => ?_⟩
  cases hstep
  cases hnext
  -- the call was announced while it was streamed, and is closed at the handover
  refine ⟨⟨⟨⟨.inr nofun, fun _ _ => .inr (.inr (.inr rfl))⟩, ⟨.inr nofun, nofun⟩, .inl rfl,
    .inl rfl⟩, [_], 0, rfl, Perm.refl _, pairwise_singleton _ _⟩, fun later code next hstep => ?_⟩
  cases hstep

/-- The items of reasoning, search, result, message and patch. -/
theorem searchThenPatch_accounted : ∃ events output,
    responseStreamFromChat searchThenPatch toolPayload ⟨searchChunks, none⟩ =
        events ++ [.completed output] ∧
      output.length = 5 ∧ Accounts itemKey (slotLog events) output :=
  ⟨_, _, (dropLast_concat_getLast (by decide +kernel)).symm, by decide +kernel,
    completed_output_accounted searchThenPatch toolPayload ⟨searchChunks, none⟩ _ _
      searchThenPatch_fits rfl⟩

/-- A stream whose context was compacted before it began. -/
def compactedStream : StreamContext :=
  { plainStream with
    autoCompaction := some (.object [("id", .string "cmp_1"), ("type", .string "compaction")]) }

/-- A completion without text and calls takes one slot for two items. -/
theorem empty_message_shares_slot :
    ¬ ∀ (context : StreamContext) (payload : Value) (response : ChatStream)
      (events : List StreamEvent) (output : List Value),
      responseStreamFromChat context payload response = events ++ [.completed output] →
        Accounts itemKey (slotLog events) output := by
  intro h
  let itemId := ("msg_" : Text) ++ plainStream.uuid 0 1
  let message := streamedMessageItem itemId "final_answer" []
  let compaction : Value := .object [("id", .string "cmp_1"), ("type", .string "compaction")]
  have hshared := (h compactedStream toolPayload ⟨[], none⟩
    [.itemAdded 0 (messageAdded itemId "final_answer"), .itemDone 0 message,
      .itemAdded 0 compaction, .itemDone 0 compaction] [message, compaction] rfl).slots
  exact absurd hshared (by decide)

end CodeSeeX.ResponseStream
