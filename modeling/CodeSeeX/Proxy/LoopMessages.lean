import CodeSeeX.Proxy.StreamLoop
import CodeSeeX.Proxy.StreamTexts
import CodeSeeX.Proxy.ToolListing

/-!
# The messages that the tool loops send

Each request of a tool loop carries the turn before it: an assistant message with its calls and
the results of the calls. The loop without streaming sends the message of the provider where all
calls are its own; the streamed loop always builds the message from the calls that it ran.
-/
namespace CodeSeeX.ToolLoop
open Checks Tools

variable {results : List (ChatToolCall × Value)} {entries : List Value} {messages : List Value}

/-! ## Legal requests -/

/-- The message is the result of the call that an entry names. -/
def Answers (message entry : Value) : Prop :=
  message.getStr "role" = some (Text.lit "tool") ∧
    ∃ id, entry.getStr "id" = some id ∧ message.getStr "tool_call_id" = some id

/-- An assistant message with calls, and one result for each of its entries. -/
structure Answered (assistant : Value) (results : List Value) : Prop where
  role : assistant.getStr "role" = some (Text.lit "assistant")
  calls : messageToolCalls assistant ≠ []
  answers : List.Forall₂ Answers results (messageToolCalls assistant)

/-- The messages of a request go on where those of the request before ended, with an answered turn;
the request of a recovery turn closes with its own message. -/
def ExtendsByTurn (before sent : Value) : Prop :=
  ∃ messages assistant results closing, payloadMessages before = some messages ∧
    payloadMessages sent = some (messages ++ assistant :: results ++ closing) ∧
    Answered assistant results ∧ (closing = [] ∨ ∃ stop, closing = [recoveryMessage stop])

/-- The turn has calls of the client, or the provider's message says what is run: it has the role of
an assistant, and each of its entries is a call. -/
def SpeaksForItself (context : LoopContext) (chat : Value) : Prop :=
  (turnPartition context chat).hasClientExecutedCalls = true ∨
    (EntriesParse chat ∧
      (choiceMessage chat).bind (Value.getStr · "role") = some (Text.lit "assistant"))

/-! ## The results of calls -/

section
variable {context : LoopContext}

theorem answers_toolMessage_iff {call : ChatToolCall} {entry : Value} {content : Text} :
    Answers (toolMessage call.id content) entry ↔ entry.getStr "id" = some call.id := by
  constructor
  · intro h
    obtain ⟨-, id, hentry, hmessage⟩ := h
    exact hentry.trans hmessage.symm
  · exact fun hid => ⟨rfl, call.id, hid, rfl⟩

/-- The results of calls answer the entries that name the calls. -/
theorem answers_toolMessages_iff :
    List.Forall₂ Answers (toolMessages context results) entries ↔
      List.Forall₂ (fun result entry => entry.getStr "id" = some result.1.id) results entries := by
  rw [toolMessages, List.forall₂_map_left_iff]
  constructor
  · exact fun h => h.imp fun _ _ => answers_toolMessage_iff.mp
  · exact fun h => h.imp fun _ _ => answers_toolMessage_iff.mpr

/-- A message that is built from calls is answered by their results. -/
theorem answered_built {calls : List ChatToolCall} (hcalls : results.map Prod.fst = calls)
    (hsome : calls ≠ []) (content reasoning : Text) :
    Answered (chatToolCallsToAssistantMessage calls content reasoning)
      (toolMessages context results) where
  role := getStr_role_built calls content reasoning
  calls := by
    rw [messageToolCalls_built]
    exact fun hnil => hsome (List.map_eq_nil_iff.mp hnil)
  answers := by
    rw [messageToolCalls_built, ← hcalls, List.map_map]
    refine answers_toolMessages_iff.mpr (List.forall₂_map_right_iff.mpr ?_)
    exact List.forall₂_same.mpr fun result _ => rfl

/-- The results of the calls that entries stand for answer the entries exactly if all of them are
calls. -/
theorem forall₂_filterMap_iff (hcalls : results.map Prod.fst = entries.filterMap toolCallFromEntry)
    :
    List.Forall₂ (fun result entry => entry.getStr "id" = some result.1.id) results entries ↔
      ∀ entry ∈ entries, (toolCallFromEntry entry).isSome = true := by
  constructor
  · intro h
    have hlength : (entries.filterMap toolCallFromEntry).length = entries.length := by
      rw [← hcalls, List.length_map]
      exact h.length_eq
    exact List.filterMap_length_eq_length.mp hlength
  · intro hparse
    induction entries generalizing results with
    | nil =>
      rw [List.filterMap_nil, List.map_eq_nil_iff] at hcalls
      rw [hcalls]
      exact .nil
    | cons entry entries ih =>
      obtain ⟨hentry, hentries⟩ := List.forall_mem_cons.mp hparse
      obtain ⟨call, hcall⟩ := Option.isSome_iff_exists.mp hentry
      rw [List.filterMap_cons_some hcall] at hcalls
      cases results with
      | nil => cases hcalls
      | cons result results =>
        rw [List.map_cons, List.cons.injEq] at hcalls
        refine .cons ?_ (ih hcalls.2 hentries)
        rw [getStr_id_of_entry hcall, hcalls.1]

theorem role_recoveryMessage (stop : Text) :
    (recoveryMessage stop).getStr "role" = some (Text.lit "user") := rfl

/-- A request that carries a turn extends the one before by it exactly if the turn is answered. -/
theorem extendsByTurn_iff {before sent assistant : Value} {messages tools closing : List Value}
    (hbefore : payloadMessages before = some messages)
    (hsent : payloadMessages sent = some (messages ++ assistant :: tools ++ closing))
    (hclosing : closing = [] ∨ ∃ stop, closing = [recoveryMessage stop])
    (hlength : tools.length ≤ (messageToolCalls assistant).length) :
    ExtendsByTurn before sent ↔ Answered assistant tools := by
  constructor
  swap
  · exact fun h => ⟨messages, assistant, tools, closing, hbefore, hsent, h, hclosing⟩
  intro h
  obtain ⟨old, other, results, last, hold, hnew, hanswered, -⟩ := h
  rw [hbefore, Option.some.injEq] at hold
  rw [hsent, Option.some.injEq, ← hold, List.append_assoc, List.append_assoc,
    List.append_cancel_left_eq, List.cons_append, List.cons_append, List.cons.injEq] at hnew
  obtain ⟨hsame, hrest⟩ := hnew
  subst hsame
  have hcount : results.length = (messageToolCalls assistant).length := hanswered.answers.length_eq
  rcases List.append_eq_append_iff.mp hrest with ⟨extra, hresults, hlast⟩ | ⟨extra, htools, hlast⟩
  · cases extra with
    | nil =>
      rw [List.append_nil] at hresults
      rwa [← hresults]
    | cons first extra =>
      -- A result beyond the tool messages would be the message of the recovery turn.
      rcases hclosing with hnone | ⟨stop, hstop⟩
      · rw [hnone] at hlast
        cases hlast
      rw [hstop, List.cons_append, List.cons.injEq] at hlast
      have hmem : first ∈ results := by
        rw [hresults]
        exact List.mem_append_right _ List.mem_cons_self
      obtain ⟨index, hindex, hget⟩ := List.getElem_of_mem hmem
      have hrole := (hanswered.answers.get hindex (hcount ▸ hindex)).1
      rw [List.get_eq_getElem, hget, ← hlast.1, role_recoveryMessage] at hrole
      exact absurd hrole (by decide)
  · have hnil : extra = [] := by
      rw [htools, List.length_append] at hlength
      exact List.length_eq_zero_iff.mp (by omega)
    rw [hnil, List.append_nil] at htools
    rwa [htools]

end

/-! ## The loop without streaming -/

theorem payloadMessages_setMessages {payload : Value} (h : payloadMessages payload = some messages)
    (later : List Value) :
    payloadMessages (setMessages payload later) = some later := by
  cases payload with
  | object fields =>
    rw [payloadMessages, setMessages, set_object, Value.get, Value.lookup_insertField_self]
    rfl
  | _ => cases h

theorem payloadMessages_removeField {payload : Value} {key : Text} (h : key ≠ "messages") :
    payloadMessages (removeField payload key) = payloadMessages payload := by
  rw [payloadMessages, get_removeField_ne (Ne.symm h), payloadMessages]

/-- The payload of a recovery turn closes with its message. -/
theorem payloadMessages_recovery {payload sent : Value} {stop : Text}
    (h : prepareToolLoopRecoveryPayload payload stop = .ok sent)
    (hmessages : payloadMessages payload = some messages) :
    payloadMessages sent = some (messages ++ [recoveryMessage stop]) := by
  simp only [prepareToolLoopRecoveryPayload, bind_ok, require_ok] at h
  obtain ⟨old, hold, hsent⟩ := h
  rw [Except.ok.injEq] at hsent
  have hold' := hold
  rw [payloadMessages_removeField (by decide), payloadMessages_removeField (by decide),
    payloadMessages_removeField (by decide), hmessages, Option.some.injEq] at hold'
  rw [← hsent, payloadMessages_setMessages hold, hold']

section
variable {context : LoopContext} {vars turned : LoopVars} {chat sent : Value}

/-- The request behind a turn: its payload, or that of a recovery turn. -/
def SentAfter (turned : LoopVars) (sent : Value) : Prop :=
  sent = turned.payload ∨ ∃ stop, prepareToolLoopRecoveryPayload turned.payload stop = .ok sent

/-- The message of the provider is answered exactly if it speaks for itself. -/
theorem answered_normalize_iff {message : Value}
    (hcalls : results.map Prod.fst = (messageToolCalls message).filterMap toolCallFromEntry)
    (hsome : results ≠ []) :
    Answered (normalizeAssistantToolMessage message) (toolMessages context results) ↔
      (∀ entry ∈ messageToolCalls message, (toolCallFromEntry entry).isSome = true) ∧
        message.getStr "role" = some (Text.lit "assistant") := by
  have hentries : messageToolCalls message ≠ [] := by
    intro hnil
    rw [hnil, List.filterMap_nil, List.map_eq_nil_iff] at hcalls
    exact hsome hcalls
  constructor
  · intro h
    have hanswers := h.answers
    have hrole := h.role
    rw [messageToolCalls_normalize, answers_toolMessages_iff, forall₂_filterMap_iff hcalls] at hanswers
    rw [getStr_role_normalize] at hrole
    exact ⟨hanswers, hrole⟩
  · intro h
    refine ⟨?_, ?_, ?_⟩
    · rw [getStr_role_normalize]
      exact h.2
    · rw [messageToolCalls_normalize]
      exact hentries
    · rw [messageToolCalls_normalize, answers_toolMessages_iff, forall₂_filterMap_iff hcalls]
      exact h.1

theorem toolMessages_length (results : List (ChatToolCall × Value)) :
    (toolMessages context results).length = results.length := List.length_map _

theorem extendsByTurn_executed_iff (hexecuted : Executed context vars turned chat)
    (hruns : turnExecutes context chat ≠ [])
    (hall : (turnPartition context chat).hasClientExecutedCalls = false →
      turnExecutes context chat = chatToolCalls chat) (hsent : SentAfter turned sent) :
    ExtendsByTurn vars.payload sent ↔ SpeaksForItself context chat := by
  obtain ⟨_, messages, storedAssistant, results, hmessages, hstored, hcalls, hpayload, -⟩ := hexecuted
  have hsome : results ≠ [] := by
    intro hnil
    rw [hnil] at hcalls
    exact hruns hcalls.symm
  -- What is sent, with the message of a recovery turn where there is one.
  have hturned : payloadMessages turned.payload = some (messages ++
      turnAssistantMessage context chat storedAssistant :: toolMessages context results) := by
    rw [hpayload, payloadMessages_setMessages hmessages, List.append_assoc, List.singleton_append]
  obtain ⟨closing, hclosing, hnew⟩ : ∃ closing : List Value,
      (closing = [] ∨ ∃ stop, closing = [recoveryMessage stop]) ∧
        payloadMessages sent = some (messages ++
          turnAssistantMessage context chat storedAssistant :: toolMessages context results ++
            closing) := by
    rcases hsent with hsame | ⟨stop, hstop⟩
    · exact ⟨[], .inl rfl, by rw [hsame, hturned, List.append_nil]⟩
    · exact ⟨[recoveryMessage stop], .inr ⟨stop, rfl⟩, payloadMessages_recovery hstop hturned⟩
  by_cases hclient : (turnPartition context chat).hasClientExecutedCalls = true
  · rw [turnAssistantMessage, if_pos hclient] at hnew
    have hanswered : Answered (assistantMessageFromChatToolSubset chat (turnExecutes context chat))
        (toolMessages context results) := answered_built hcalls hruns _ _
    refine iff_of_true ?_ (.inl hclient)
    exact (extendsByTurn_iff hmessages hnew hclosing hanswered.answers.length_eq.le).mpr hanswered
  · rw [turnAssistantMessage, if_neg hclient] at hnew
    rw [Bool.not_eq_true] at hclient
    rw [fullAssistantToolMessageFromChat] at hstored
    cases hchoice : choiceMessage chat with
    | none =>
      rw [hchoice] at hstored
      cases hstored
    | some message =>
      rw [hchoice, Except.ok.injEq] at hstored
      have hentries : toolCallEntries chat = messageToolCalls message := by
        rw [toolCallEntries, hchoice]
        rfl
      rw [hall hclient, chatToolCalls, hentries] at hcalls
      have hlength : (toolMessages context results).length ≤
          (messageToolCalls storedAssistant).length := by
        rw [← hstored, messageToolCalls_normalize, toolMessages_length, ← List.length_map Prod.fst,
          hcalls]
        exact List.length_filterMap_le _ _
      rw [extendsByTurn_iff hmessages hnew hclosing hlength, ← hstored,
        answered_normalize_iff hcalls hsome, SpeaksForItself, hclient, EntriesParse, hentries, hchoice]
      simp

/-- The requests of a run go on from one another. -/
def ChainedFrom : Value → List Exchange → Prop
  | _, [] => True
  | payload, exchange :: exchanges =>
      exchange.before = payload ∧ ChainedFrom exchange.sent exchanges

/-- What is known of the requests of a run. -/
structure RunExchanges (context : LoopContext) (payload : Value) (exchanges : List Exchange) :
    Prop where
  chained : ChainedFrom payload exchanges
  turns : ∀ exchange ∈ exchanges,
    ExtendsByTurn exchange.before exchange.sent ↔ SpeaksForItself context exchange.chat

theorem runExchanges_nil (payload : Value) : RunExchanges context payload [] :=
  ⟨trivial, fun _ hmem => nomatch hmem⟩

theorem RunExchanges.cons {exchanges : List Exchange}
    (h : RunExchanges context sent exchanges)
    (hturn : ExtendsByTurn vars.payload sent ↔ SpeaksForItself context chat) :
    RunExchanges context vars.payload (⟨vars.payload, chat, sent⟩ :: exchanges) where
  chained := ⟨rfl, h.chained⟩
  turns := List.forall_mem_cons.mpr ⟨hturn, h.turns⟩

theorem runExchanges_loop (context : LoopContext) (left iteration : ℕ) (vars : LoopVars)
    (chat : Value) : RunExchanges context vars.payload
      (completeChatWithTools.loop context left iteration vars chat).exchanges := by
  induction left generalizing iteration vars chat with
  | zero => exact runExchanges_nil _
  | succ left ih =>
    have hcase := turnCase_toolTurn context iteration vars chat
    rw [completeChatWithTools.loop]
    revert hcase
    obtain ⟨turned, ended⟩ := toolTurn context iteration vars chat
    intro hcase
    dsimp only at hcase
    cases hcase with
    | stopped stop hunknown hruns hexecuted =>
      dsimp only
      unfold recoverFinalResponse
      cases hpayload : prepareToolLoopRecoveryPayload turned.payload stop.message with
      | error message => exact runExchanges_nil _
      | ok payload =>
        have hturn := extendsByTurn_executed_iff hexecuted hruns (proxyExecuted_of_no_client hunknown)
          (.inr ⟨stop.message, hpayload⟩)
        have hexchange := RunExchanges.cons (@runExchanges_nil context payload) hturn
        cases hpost : context.postChatCompletions (iteration + 1) payload <;>
          simpa [hpost] using hexchange
    | next hall hruns hexecuted =>
      have hturn := extendsByTurn_executed_iff hexecuted hruns (fun _ => hall) (.inl rfl)
      dsimp only
      cases hpost : context.postChatCompletions (iteration + 1) turned.payload with
      | error message => exact (runExchanges_nil _).cons hturn
      | ok next => exact (ih (iteration + 1) turned next).cons hturn
    | _ => exact runExchanges_nil _

end

end CodeSeeX.ToolLoop

/-! ## The streamed loop -/

namespace CodeSeeX.ResponseStream
open Checks Tools ToolLoop StreamToolCalls

section
variable {context : StreamContext} {turn later : TurnVars}

theorem payload_showSearch (call : ChatToolCall) (result : Value) (turn : TurnVars) :
    (showSearch context call result turn).payload = turn.payload := by
  rw [showSearch]
  split_ifs <;> rfl

theorem payload_showCalls (executed : List ChatToolCall) (turn : TurnVars) :
    (showCalls context executed turn).payload = turn.payload := by
  have hfold : ∀ (items : List Value) (turn : TurnVars),
      (items.foldl (fun turn item => turn.pushWhole (proxyItemAdded item) item) turn).payload =
        turn.payload := by
    intro items
    induction items with
    | nil => exact fun _ => rfl
    | cons item items ih => exact fun turn => ih _
  exact hfold _ _

/-- A message that was pushed stands behind the others. -/
theorem pushMessage_ok {message : Value} {error : Text}
    (h : pushMessage turn message error = .ok later) :
    ∃ messages, payloadMessages turn.payload = some messages ∧
      payloadMessages later.payload = some (messages ++ [message]) := by
  rw [pushMessage] at h
  cases hmessages : payloadMessages turn.payload with
  | none =>
    rw [hmessages] at h
    cases h
  | some messages =>
    rw [hmessages, Except.ok.injEq] at h
    refine ⟨messages, rfl, ?_⟩
    rw [← h]
    exact payloadMessages_setMessages hmessages _

/-- Each call gets one result message, in order. -/
theorem takeResults_ok {snapshot : List Value} {index : ℕ} {calls : List ChatToolCall}
    {results : List (ChatToolCall × Value)} {messages : List Value}
    (h : takeResults context snapshot index turn calls = .ok (later, results))
    (hmessages : payloadMessages turn.payload = some messages) :
    results.map Prod.fst = calls ∧ payloadMessages later.payload =
      some (messages ++ toolMessages context.toLoopContext results) := by
  induction calls generalizing index turn later results messages with
  | nil =>
    rw [takeResults, Except.ok.injEq, Prod.mk.injEq] at h
    rw [← h.1, ← h.2]
    exact ⟨rfl, by rw [hmessages]; simp [toolMessages]⟩
  | cons call calls ih =>
    simp only [takeResults, bind_ok] at h
    obtain ⟨_, -, shown, hshown, ⟨turned, others⟩, hlater, heq⟩ := h
    rw [Except.ok.injEq, Prod.mk.injEq] at heq
    obtain ⟨old, hold, hnew⟩ := pushMessage_ok hshown
    rw [payload_showSearch, hmessages, Option.some.injEq] at hold
    obtain ⟨hfst, hturned⟩ := ih hlater hnew
    rw [← heq.1, ← heq.2, hturned, ← hold]
    exact ⟨by rw [List.map_cons, hfst], by simp [toolMessages]⟩

/-- A turn whose calls were run carries a message that is built from them, and their results. -/
theorem executeStreamedTurn_ok {toolCalls executed : List ChatToolCall}
    {stop : Option ToolLoopStop}
    (h : executeStreamedTurn context turn toolCalls executed = .ok (later, stop)) :
    ∃ messages results, payloadMessages turn.payload = some messages ∧
      results.map Prod.fst = executed ∧
      payloadMessages later.payload = some (messages ++
        chatToolCallsToAssistantMessage executed turn.turnText turn.turnReasoning ::
        toolMessages context.toLoopContext results) := by
  simp only [executeStreamedTurn, bind_ok] at h
  obtain ⟨shown, hshown, ⟨turned, results⟩, hresults, _, -, heq⟩ := h
  rw [Except.ok.injEq, Prod.mk.injEq] at heq
  obtain ⟨messages, hmessages, hnew⟩ := pushMessage_ok hshown
  obtain ⟨hfst, hturned⟩ := takeResults_ok hresults hnew
  rw [payload_showCalls] at hmessages
  have hpayload : later.payload = turned.payload := by rw [← heq.1]
  refine ⟨messages, results, hmessages, hfst, ?_⟩
  rw [hpayload, hturned, List.append_assoc, List.singleton_append]

/-- The request behind the results of a turn. -/
theorem afterStreamedResults_ok {partition : ToolCallPartition} {stop : Option ToolLoopStop}
    {sent : StreamVars} {code : Text} {messages : List Value}
    (h : afterStreamedResults context turn partition stop = .ok (sent, .request code))
    (hmessages : payloadMessages turn.payload = some messages) :
    ∃ closing, payloadMessages sent.payload = some (messages ++ closing) ∧
      (closing = [] ∨ ∃ stop, closing = [recoveryMessage stop]) := by
  have hrecover : ∀ (stop : ToolLoopStop) (failureCode : Text),
      recoverStreaming turn stop failureCode = .ok (sent, .request code) →
      payloadMessages sent.payload = some (messages ++ [recoveryMessage stop.message]) := by
    intro stop failureCode hrecovered
    simp only [recoverStreaming, bind_ok] at hrecovered
    obtain ⟨payload, hpayload, heq⟩ := hrecovered
    rw [Except.ok.injEq, Prod.mk.injEq] at heq
    rw [← heq.1]
    cases hprepared : prepareToolLoopRecoveryPayload turn.payload stop.message with
    | error message =>
      rw [hprepared] at hpayload
      cases hpayload
    | ok prepared =>
      rw [hprepared] at hpayload
      cases hpayload
      exact payloadMessages_recovery hprepared hmessages
  unfold afterStreamedResults at h
  cases hbudget : webSearchBudgetStop turn.seen with
  | some budget =>
    rw [hbudget] at h
    exact ⟨_, hrecover budget _ h, .inr ⟨_, rfl⟩⟩
  | none =>
    rw [hbudget] at h
    cases stop with
    | some stop =>
      dsimp only at h
      split_ifs at h
      exact ⟨_, hrecover stop _ h, .inr ⟨_, rfl⟩⟩
    | none =>
      split_ifs at h
      · simp only [bind_ok, handOverAll] at h
        obtain ⟨_, -, heq⟩ := h
        rw [Except.ok.injEq, Prod.mk.injEq] at heq
        cases heq.2
      · rw [Except.ok.injEq, Prod.mk.injEq] at h
        rw [← h.1]
        exact ⟨[], by rw [hmessages, List.append_nil], .inl rfl⟩

/-- A request behind a streamed turn extends the messages by that turn. -/
theorem extendsByTurn_streamedToolTurn {toolCalls : List ChatToolCall} {sent : StreamVars}
    {code : Text} (hcalls : toolCalls ≠ [])
    (h : streamedToolTurn context turn toolCalls = .ok (sent, .request code)) :
    ExtendsByTurn turn.payload sent.payload := by
  unfold streamedToolTurn at h
  cases hunknown : (partitionToolCalls toolCalls context.communityTools
      context.toolContext).unknown with
  | cons unknown others => simp [hunknown] at h
  | nil =>
    simp only [hunknown] at h
    split at h
    · cases h
    split_ifs at h with hclient
    · simp only [streamedClientTurn, handOverAll, bind_ok] at h
      obtain ⟨_, -, _, -, heq⟩ := h
      rw [Except.ok.injEq, Prod.mk.injEq] at heq
      cases heq.2
    · simp only [bind_ok] at h
      obtain ⟨⟨turned, stop⟩, hexecuted, hafter⟩ := h
      obtain ⟨messages, results, hmessages, hfst, hturned⟩ := executeStreamedTurn_ok hexecuted
      obtain ⟨closing, hsent, hclosing⟩ := afterStreamedResults_ok hafter hturned
      have hruns := proxyExecuted_ne_nil hcalls hunknown hclient
      exact ⟨messages, _, _, closing, hmessages, hsent, answered_built hfst hruns _ _, hclosing⟩

/-- Each request of the streamed loop extends the messages by an answered turn. -/
theorem extendsByTurn_streamIteration {iteration : ℕ} {vars sent : StreamVars}
    {response : ChatStream} {code : Text}
    (h : streamIteration context iteration vars response = .ok (sent, .request code)) :
    ExtendsByTurn vars.payload sent.payload := by
  rw [streamIteration] at h
  cases hfailure : response.failure with
  | some message =>
    rw [hfailure] at h
    cases h
  | none =>
    rw [hfailure] at h
    rw [endTurn] at h
    split_ifs at h with hcalls
    · simp only [finalTurn, bind_ok] at h
      obtain ⟨_, -, heq⟩ := h
      rw [Except.ok.injEq, Prod.mk.injEq] at heq
      cases heq.2
    · have hturn := extendsByTurn_streamedToolTurn hcalls h
      rwa [payload_closeTurn] at hturn

end

end CodeSeeX.ResponseStream

/-! ## Both loops -/

namespace CodeSeeX.ToolLoop
open Checks Tools ResponseStream

/-- The requests of the loop without streaming go on from one another, and one extends the messages
by an answered turn exactly if the turn has calls of the client or its message speaks for itself;
the requests of the streamed loop always do. -/
theorem requests_extend_by_turn_iff (context : LoopContext) (streamed : StreamContext)
    (payload chat : Value) :
    ChainedFrom payload (completeChatWithTools context payload chat).exchanges ∧
      (∀ exchange ∈ (completeChatWithTools context payload chat).exchanges,
        ExtendsByTurn exchange.before exchange.sent ↔ SpeaksForItself context exchange.chat) ∧
      ∀ iteration vars response sent code,
        streamIteration streamed iteration vars response = .ok (sent, .request code) →
          ExtendsByTurn vars.payload sent.payload := by
  have hrun := runExchanges_loop context maxToolLoopIterations 0 { payload } chat
  exact ⟨hrun.chained, hrun.turns, fun _ _ _ _ _ h => extendsByTurn_streamIteration h⟩

instance (chat : Value) : Decidable (SpeaksForItself quietLoop chat) :=
  inferInstanceAs (Decidable (_ ∨ (∀ entry ∈ toolCallEntries chat, _) ∧ _))

theorem searchRun_extends_by_turn :
    (quietRun [searchCall]).exchanges.length = 1 ∧
      ∀ exchange ∈ (quietRun [searchCall]).exchanges,
        ExtendsByTurn exchange.before exchange.sent := by
  have hspeaks : ∀ exchange ∈ (quietRun [searchCall]).exchanges,
      SpeaksForItself quietLoop exchange.chat := by decide +kernel
  refine ⟨by decide +kernel, fun exchange hexchange => ?_⟩
  exact ((requests_extend_by_turn_iff quietLoop plainStream _ _).2.1 exchange hexchange).mpr
    (hspeaks exchange hexchange)

/-- A completion with a search and an entry that is no call. -/
def brokenCompletion : Value :=
  completion [("content", .null), ("role", .string "assistant"),
    ("tool_calls", .array [chatToolCallEntry searchCall, .object [("id", .string "call_2")]])]

/-- The broken entry is sent back and gets no result. -/
theorem brokenRun_unanswered :
    ∃ exchange ∈ (completeChatWithTools quietLoop (.object [("messages", .array [])])
        brokenCompletion).exchanges, ¬ ExtendsByTurn exchange.before exchange.sent := by
  have hrun := runExchanges_loop quietLoop maxToolLoopIterations 0
    { payload := .object [("messages", .array [])] } brokenCompletion
  have hnot : ∃ exchange ∈ (completeChatWithTools quietLoop (.object [("messages", .array [])])
      brokenCompletion).exchanges, ¬ SpeaksForItself quietLoop exchange.chat := by decide +kernel
  obtain ⟨exchange, hexchange, hspeaks⟩ := hnot
  exact ⟨exchange, hexchange, fun h => hspeaks ((hrun.turns exchange hexchange).mp h)⟩

end CodeSeeX.ToolLoop
