import CodeSeeX.Proxy.ResponseHistory
import CodeSeeX.Proxy.ToolListing

/-!
# Turns behind an automatic compaction

An automatic compaction is taken before the model answers and is listed behind
the answer. The loop over the chain starts anew at the record that lists it, so
what that record produced after the snapshot has to come from somewhere else.
-/
namespace CodeSeeX.ResponseHistory
open Context Store ToolLoop List

/-- A completed turn as it is stored: the messages of the request, stored before the model
answers, those that the turn produced, the output it lists, and the automatic compaction that
was built for it. -/
structure SavedTurn where
  input : Value
  output : List Value
  compaction : Option Compaction
  requestMessages : List Value
  producedMessages : List Value
  toolFacts : List Text
  diagnostic : Option Value

variable (crates : HistoryCrates) {turn : SavedTurn} {replay : CompactionReplay}

namespace SavedTurn

def record (turn : SavedTurn) : StoredResponse :=
  { status := .completed
    input := turn.input
    response := .object [("output",
      .array (appendAutoCompactionIfSafe turn.output turn.compaction))]
    turnMessages := turn.requestMessages ++ turn.producedMessages
    toolFacts := turn.toolFacts
    diagnostic := turn.diagnostic }

/-- The output lists the automatic compaction. -/
def Compacted (turn : SavedTurn) : Prop :=
  ∃ compaction, turn.compaction = some compaction ∧
    appendAutoCompactionIfSafe turn.output turn.compaction =
      turn.output ++ [compactionItem compaction]

/-- The replay starts anew at the turn. -/
def isSnapshot (crates : HistoryCrates) (turn : SavedTurn) : Bool :=
  storedResponseStartsAuthoritativeClientReplay turn.record ∨
    (compactionReplay crates turn.record).isSome

end SavedTurn

section
variable (crates : HistoryCrates) (currentToolOutputIds currentToolCallIds : Finset Text)

/-- What a turn produced after its request was stored: the messages of its answer as they are
replayed, and the facts of its tools. -/
def produced (turn : SavedTurn) (later : List SavedTurn) : List ChatMessage :=
  (storedTurnMessagesForReplay turn.producedMessages .completed
    (nextToolOutputIds currentToolOutputIds (later.map SavedTurn.record)) currentToolCallIds
    ∅).messages ++
  (if turn.toolFacts.isEmpty then [] else [toolFactMessage turn.toolFacts]) ++
  (if turn.record.turnMessages.isEmpty then
    responseOutputMessages crates turn.record.response
      (nextToolOutputIds currentToolOutputIds (later.map SavedTurn.record)) currentToolCallIds
  else [])

/-- What the turns behind the last snapshot add, given the calls of the turn before them. -/
def laterMessages : Finset Text → List StoredResponse → List ChatMessage :=
  Journal.emitted
    (fun previousToolCallIds record later =>
      recordMessages crates currentToolCallIds previousToolCallIds
        (nextToolOutputIds currentToolOutputIds later) record)
    fun _ record => answerableToolCallIds record

def rebuiltHistory (chain : List SavedTurn) : HistoryState :=
  chainHistory crates currentToolCallIds currentToolOutputIds (chain.map SavedTurn.record)

/-- The turns of a chain outlive its automatic compactions: behind the compaction that is
replayed stand all that its turn produced and the messages of every later turn, the calls of
that turn are in the history for the answers sent next, and no output lists a compaction beside
a call of the client. -/
structure KeepsTurns (chain : List SavedTurn) : Prop where
  replayed : ∀ turn later, Journal.lastSnapshot (SavedTurn.isSnapshot crates) chain =
      some (turn, later) → turn.Compacted →
    ∀ replay, compactionReplay crates turn.record = some replay →
      (ChatMessage.text "user" replay.text ::
        (produced crates currentToolOutputIds currentToolCallIds turn later ++
          laterMessages crates currentToolOutputIds currentToolCallIds
            (answerableToolCallIds turn.record) (later.map SavedTurn.record))).Sublist
        (rebuiltHistory crates currentToolOutputIds currentToolCallIds chain).messages
  callsInHistory : ∀ turn later, Journal.lastSnapshot (SavedTurn.isSnapshot crates) chain =
      some (turn, later) → turn.Compacted → ∀ id ∈ answerableToolCallIds turn.record,
    ∃ message ∈ (rebuiltHistory crates currentToolOutputIds currentToolCallIds chain).messages,
      ∃ ids, toolCallIdsFromMessage message = some ids ∧ id ∈ ids
  noCalls : ∀ turn ∈ chain, turn.Compacted → ∀ item ∈ turn.output,
    responseItemIsToolCall item = false

/-- The turn whose compaction is replayed produced nothing behind its snapshot, and no output
that is clear of function and custom calls has a tool search when a compaction is due. -/
structure QuietSnapshots (chain : List SavedTurn) : Prop where
  nothingProduced : ∀ turn later, Journal.lastSnapshot (SavedTurn.isSnapshot crates) chain =
      some (turn, later) → turn.Compacted →
    produced crates currentToolOutputIds currentToolCallIds turn later = []
  noToolSearch : ∀ turn ∈ chain, turn.compaction.isSome →
    turn.output.any responseItemRequiresClientToolExecution = false →
    ∀ item ∈ turn.output, item.getStr "type" ≠ some ("tool_search_call" : Text)

end

/-! ## The compaction item -/

theorem responseItemIsToolCall_eq (item : Value) :
    responseItemIsToolCall item = (responseItemRequiresClientToolExecution item ||
      decide (item.getStr "type" = some ("tool_search_call" : Text))) := by
  unfold responseItemIsToolCall responseItemRequiresClientToolExecution
  cases item.getStr "type" <;> simp [Bool.or_assoc]

theorem compactionItem_replay (compaction : Compaction) :
    (compactionReplayFromItem crates (compactionItem compaction)).isSome := by
  have htype : (compactionItem compaction).getStr "type" = some ("compaction" : Text) := by
    simp [compactionItem, Value.getStr, Value.get, Value.asStr, lookup_cons]
  have hcontent : (compactionItem compaction).getStr "encrypted_content" =
      some compaction.encryptedContent := by
    simp [compactionItem, Value.getStr, Value.get, Value.asStr, lookup_cons]
  unfold compactionReplayFromItem
  rw [htype, hcontent, if_neg (by simp)]
  dsimp only
  cases crates.decodeCompactionPayload compaction.encryptedContent <;> rfl

theorem compactionItem_not_toolCall (compaction : Compaction) :
    responseItemIsToolCall (compactionItem compaction) = false := by
  have htype : (compactionItem compaction).getStr "type" = some ("compaction" : Text) := by
    simp [compactionItem, Value.getStr, Value.get, Value.asStr, lookup_cons]
  unfold responseItemIsToolCall
  rw [htype]
  simp

namespace SavedTurn

theorem compacted_iff (turn : SavedTurn) :
    turn.Compacted ↔ turn.compaction.isSome ∧
      turn.output.any responseItemRequiresClientToolExecution = false := by
  unfold Compacted appendAutoCompactionIfSafe
  cases turn.compaction with
  | none => simp
  | some compaction =>
    cases turn.output.any responseItemRequiresClientToolExecution <;> simp

theorem outputItems_record (turn : SavedTurn) : outputItems turn.record.response =
    appendAutoCompactionIfSafe turn.output turn.compaction := by
  simp [record, outputItems, Value.get, Value.asArray]

theorem outputItems_of_compacted (h : turn.Compacted) :
    ∃ compaction, outputItems turn.record.response = turn.output ++ [compactionItem compaction] := by
  obtain ⟨compaction, -, hlists⟩ := h
  exact ⟨compaction, turn.outputItems_record.trans hlists⟩

/-- A turn that lists its compaction is replayed from it. -/
theorem replay_of_compacted (h : turn.Compacted) :
    ∃ replay, compactionReplay crates turn.record = some replay := by
  obtain ⟨compaction, houtput⟩ := outputItems_of_compacted h
  obtain ⟨replay, hreplay⟩ := Option.isSome_iff_exists.mp
    (compactionItem_replay crates compaction)
  have hmem : replay ∈ (outputItems turn.record.response).filterMap
      (compactionReplayFromItem crates) := by
    rw [houtput, mem_filterMap]
    exact ⟨compactionItem compaction, by simp, hreplay⟩
  show ∃ replay, responseOutputCompactionReplay crates turn.record.response = some replay
  unfold responseOutputCompactionReplay
  cases hreplays : (outputItems turn.record.response).filterMap
    (compactionReplayFromItem crates) with
  | nil => rw [hreplays] at hmem; cases hmem
  | cons first rest => exact ⟨_, rfl⟩

/-- Without calls in its output there is nothing for the next request to answer. -/
theorem answerable_of_noCalls (h : turn.Compacted)
    (hcalls : ∀ item ∈ turn.output, responseItemIsToolCall item = false) :
    answerableToolCallIds turn.record = ∅ := by
  obtain ⟨compaction, houtput⟩ := outputItems_of_compacted h
  have hnone : (outputItems turn.record.response).filter responseItemIsToolCall = [] := by
    rw [houtput, filter_eq_nil_iff]
    intro item hitem
    obtain houtput | hlast := mem_append.mp hitem
    · simp [hcalls item houtput]
    · rw [mem_singleton.mp hlast, compactionItem_not_toolCall]
      simp
  show completedResponseToolCallIds turn.record.response = ∅
  unfold completedResponseToolCallIds
  rw [hnone]
  rfl

end SavedTurn

/-! ## The history behind the last snapshot -/

section
variable (crates : HistoryCrates) (currentToolOutputIds currentToolCallIds : Finset Text)

theorem historyStep_of_replay {record : StoredResponse}
    (h : compactionReplay crates record = some replay) (state : HistoryState)
    (nextIds : Finset Text) :
    (historyStep crates currentToolCallIds state record nextIds).messages =
        [ChatMessage.text "user" replay.text] ∧
      (historyStep crates currentToolCallIds state record nextIds).previousToolCallIds = ∅ := by
  unfold historyStep
  simp only [h, and_self]

theorem historyStep_of_not_snapshot (h : turn.isSnapshot crates = false) (state : HistoryState)
    (nextIds : Finset Text) :
    (historyStep crates currentToolCallIds state turn.record nextIds).messages =
        state.messages ++ recordMessages crates currentToolCallIds state.previousToolCallIds
          nextIds turn.record ∧
      (historyStep crates currentToolCallIds state turn.record nextIds).previousToolCallIds =
        answerableToolCallIds turn.record := by
  simp only [SavedTurn.isSnapshot, decide_eq_false_iff_not, not_or, Bool.not_eq_true,
    Option.isSome_eq_false_iff, Option.isNone_iff_eq_none] at h
  obtain ⟨hstarts, hreplay⟩ := h
  have hstart : state.startAt turn.record = state := by
    unfold HistoryState.startAt
    rw [hstarts, if_neg (by simp)]
  unfold historyStep
  simp only [hstart, hreplay, and_self]

/-- Behind the last snapshot, when a compaction is replayed there, stand its text and what the
later turns add, as if nothing had been called before them. -/
theorem rebuiltHistory_messages {chain later : List SavedTurn}
    (hlast : Journal.lastSnapshot (SavedTurn.isSnapshot crates) chain = some (turn, later))
    (hreplay : compactionReplay crates turn.record = some replay) :
    (rebuiltHistory crates currentToolOutputIds currentToolCallIds chain).messages =
      ChatMessage.text "user" replay.text ::
        laterMessages crates currentToolOutputIds currentToolCallIds ∅
          (later.map SavedTurn.record) := by
  obtain ⟨-, hquiet, earlier, rfl⟩ := Journal.lastSnapshot_eq_some _ hlast
  unfold rebuiltHistory chainHistory historyLoop
  rw [map_append, map_cons]
  generalize startingHistory _ = start
  obtain ⟨before, hbefore⟩ := Journal.replay_append_cons
    (fun state record later => historyStep crates currentToolCallIds state record
      (nextToolOutputIds currentToolOutputIds later)) start
    (earlier.map SavedTurn.record) turn.record (later.map SavedTurn.record)
  obtain ⟨hmessages, hprevious⟩ := historyStep_of_replay crates currentToolCallIds hreplay before
    (nextToolOutputIds currentToolOutputIds (later.map SavedTurn.record))
  have hsteps : ∀ record ∈ later.map SavedTurn.record, ∀ state nextIds,
      (historyStep crates currentToolCallIds state record nextIds).messages =
        state.messages ++ recordMessages crates currentToolCallIds state.previousToolCallIds
          nextIds record ∧
      (historyStep crates currentToolCallIds state record nextIds).previousToolCallIds =
        answerableToolCallIds record := by
    intro record hrecord
    obtain ⟨entry, hentry, rfl⟩ := mem_map.mp hrecord
    exact historyStep_of_not_snapshot crates currentToolCallIds (hquiet entry hentry)
  rw [hbefore, Journal.output_replay _
    (fun previousToolCallIds record later => recordMessages crates currentToolCallIds
      previousToolCallIds (nextToolOutputIds currentToolOutputIds later) record)
    (fun _ record => answerableToolCallIds record) HistoryState.messages
    HistoryState.previousToolCallIds
    (fun record hrecord state later => (hsteps record hrecord state _).1)
    (fun record hrecord state later => (hsteps record hrecord state _).2)]
  simp only [hmessages, hprevious, singleton_append]
  rfl

end

/-! ## The turns that are kept -/

section
variable {crates : HistoryCrates} {currentToolOutputIds currentToolCallIds : Finset Text}
  {chain : List SavedTurn}

theorem no_answerable_calls {later : List SavedTurn}
    (hlast : Journal.lastSnapshot (SavedTurn.isSnapshot crates) chain = some (turn, later))
    (hcompacted : turn.Compacted) (hcalls : ∀ turn ∈ chain, turn.Compacted → ∀ item ∈ turn.output,
      responseItemIsToolCall item = false) :
    answerableToolCallIds turn.record = ∅ := by
  obtain ⟨-, -, earlier, hchain⟩ := Journal.lastSnapshot_eq_some _ hlast
  exact SavedTurn.answerable_of_noCalls hcompacted
    (hcalls turn (by rw [hchain]; simp) hcompacted)

section
variable (h : KeepsTurns crates currentToolOutputIds currentToolCallIds chain) {turn : SavedTurn}
include h

/-- What the replayed turn produced has no place in a history of its text and the later turns. -/
theorem nothingProduced_of_keepsTurns {later : List SavedTurn}
    (hlast : Journal.lastSnapshot (SavedTurn.isSnapshot crates) chain = some (turn, later))
    (hcompacted : turn.Compacted) :
    produced crates currentToolOutputIds currentToolCallIds turn later = [] := by
  obtain ⟨replay, hreplay⟩ := SavedTurn.replay_of_compacted crates hcompacted
  have hsub := h.replayed turn later hlast hcompacted replay hreplay
  rw [rebuiltHistory_messages crates currentToolOutputIds currentToolCallIds hlast hreplay,
    no_answerable_calls hlast hcompacted h.noCalls] at hsub
  have hlength := hsub.length_le
  simp only [length_cons, length_append] at hlength
  exact eq_nil_of_length_eq_zero (by omega)

theorem noToolSearch_of_keepsTurns (hturn : turn ∈ chain) (hdue : turn.compaction.isSome)
    (hclear : turn.output.any responseItemRequiresClientToolExecution = false) {item : Value}
    (hitem : item ∈ turn.output) : item.getStr "type" ≠ some ("tool_search_call" : Text) := by
  have hcall := h.noCalls turn hturn (turn.compacted_iff.mpr ⟨hdue, hclear⟩) item hitem
  rw [responseItemIsToolCall_eq, Bool.or_eq_false_iff, decide_eq_false_iff_not] at hcall
  exact hcall.2

end

end

/-- A chain keeps its turns behind automatic compactions exactly when the turn whose compaction
is replayed had produced nothing and no compaction is due beside a tool search alone. -/
theorem keepsTurns_iff (crates : HistoryCrates)
    (currentToolOutputIds currentToolCallIds : Finset Text) (chain : List SavedTurn) :
    KeepsTurns crates currentToolOutputIds currentToolCallIds chain ↔
      QuietSnapshots crates currentToolOutputIds currentToolCallIds chain := by
  constructor
  · intro h
    exact ⟨fun turn later hlast hcompacted => nothingProduced_of_keepsTurns h hlast hcompacted,
      fun turn hturn hdue hclear item hitem =>
        noToolSearch_of_keepsTurns h hturn hdue hclear hitem⟩
  · intro h
    have hcalls : ∀ turn ∈ chain, turn.Compacted → ∀ item ∈ turn.output,
        responseItemIsToolCall item = false := by
      intro turn hturn hcompacted item hitem
      obtain ⟨hdue, hclear⟩ := turn.compacted_iff.mp hcompacted
      have hsearch := h.noToolSearch turn hturn hdue hclear item hitem
      have hclearItem := any_eq_false.mp hclear item hitem
      rw [responseItemIsToolCall_eq, Bool.or_eq_false_iff, decide_eq_false_iff_not]
      exact ⟨by simpa using hclearItem, hsearch⟩
    refine ⟨?_, ?_, hcalls⟩
    · intro turn later hlast hcompacted replay hreplay
      rw [rebuiltHistory_messages crates currentToolOutputIds currentToolCallIds hlast hreplay,
        h.nothingProduced turn later hlast hcompacted,
        no_answerable_calls hlast hcompacted hcalls]
      exact Sublist.refl _
    · intro turn later hlast hcompacted id hid
      rw [no_answerable_calls hlast hcompacted hcalls] at hid
      simp at hid

/-! ## Two turns that are lost -/

def noKeyCrates : HistoryCrates :=
  { core := { fromStr := fun _ => none, decodeBase64Utf8 := fun _ => none }
    decodeReasoningContent := fun _ => none
    decodeCompactionPayload := fun _ => .error "no key" }

def dueCompaction : Compaction :=
  { id := "cmp_1", encryptedContent := "opaque", summary := "Earlier turns." }

/-- The model answers; the compaction taken before is listed behind the answer. -/
def answeredTurn : SavedTurn :=
  { input := .object [("input", .string "What is the capital of France?")]
    output := [.object [
      ("content", .array [.object [("text", .string "Paris"), ("type", .string "output_text")]]),
      ("type", .string "message")]]
    compaction := some dueCompaction
    requestMessages := [.object [
      ("content", .string "What is the capital of France?"), ("role", .string "user")]]
    producedMessages := [.object [("content", .string "Paris"), ("role", .string "assistant")]]
    toolFacts := []
    diagnostic := none }

/-- The model searches for tools, which the client answers. -/
def toolSearchTurn : SavedTurn :=
  { answeredTurn with
    output := [.object [
      ("arguments", .object []), ("call_id", .string "call_1"), ("type", .string "tool_search_call")]]
    producedMessages := [] }

/-- The answer is forgotten by the next request; a compaction is listed beside a tool search
whose result the client sends next. -/
theorem answered_turn_forgotten :
    ¬ KeepsTurns noKeyCrates ∅ ∅ [answeredTurn] ∧ ¬ KeepsTurns noKeyCrates ∅ ∅ [toolSearchTurn] := by
  constructor
  · intro h
    have hcompacted : answeredTurn.Compacted := answeredTurn.compacted_iff.mpr (by decide +kernel)
    have hsnapshot : answeredTurn.isSnapshot noKeyCrates = true := by decide +kernel
    have hproduced := @nothingProduced_of_keepsTurns _ _ _ _ h answeredTurn []
      (by simp [Journal.lastSnapshot, hsnapshot]) hcompacted
    have hlength : (produced noKeyCrates ∅ ∅ answeredTurn []).length = 1 := by decide +kernel
    rw [hproduced] at hlength
    cases hlength
  · intro h
    have hdue : toolSearchTurn.compaction.isSome := by decide
    exact noToolSearch_of_keepsTurns h (mem_singleton_self toolSearchTurn) hdue
      (by decide +kernel) (mem_singleton_self _) (by decide +kernel)

end CodeSeeX.ResponseHistory
