import CodeSeeX.Checks
import CodeSeeX.Proxy.ResponseItems

/-!
# The tool loop without streaming

A completion with tool calls is answered by running the calls and asking again, until a
completion has no calls, the calls are the client's, or the loop is stopped. The upstream,
the tools, the store and the guard of client handoffs are answered from outside.
-/
namespace CodeSeeX.ToolLoop
open Checks Tools

def maxToolLoopIterations : ℕ := 8
def maxWebSearchLoopCalls : ℕ := 3

/-! ## Repeated calls -/

/-- The loop of `compact_preview` with the number of characters that are still free. -/
def compactPreview.loop : ℕ → Bool → Text → Text
  | _, _, [] => []
  | left, previousWasSpace, c :: value =>
      if Text.isWhitespace c && previousWasSpace then loop left true value
      else match left with
        | 0 => "..."
        | left + 1 =>
            (if Text.isWhitespace c then ' ' else c) :: loop left (Text.isWhitespace c) value

def compactPreview (value : Text) (maxChars : ℕ) : Text := compactPreview.loop maxChars false value

def toolSignature (call : ChatToolCall) : Text :=
  call.name ++ '\n' :: compactPreview call.arguments 2000

/-- How often each signature was seen. -/
def recordIteration (seen : BTreeMap Text ℕ) (calls : List ChatToolCall) : BTreeMap Text ℕ :=
  calls.foldl (fun seen call =>
    seen.insert (toolSignature call) ((seen.get (toolSignature call)).getD 0 + 1)) seen

def repeatedCallWarning (seen : BTreeMap Text ℕ) (call : ChatToolCall) : Option Text :=
  let repeatCount := (seen.get (toolSignature call)).getD 0
  if repeatCount < 3 then none
  else some (("CodeSeeX noticed this exact tool call has repeated " : Text) ++
    Text.ofNat repeatCount ++ " times in the same response. Reuse the existing returned " ++
    "evidence when possible instead of repeating the same call again.")

def attachToolLoopWarning (result : Value) (warning : Option Text) : Value :=
  match warning, result with
  | some warning, .object fields =>
      .object (Value.insertField "_codeseex_tool_loop_warning" (.string warning) fields)
  | _, result => result

def webSearchBudgetStop (seen : BTreeMap Text ℕ) : Option ToolLoopStop :=
  let calls := ((seen.entries.filter fun (signature, _) =>
    signature.startsWith "web_search\n").map Prod.snd).sum
  if calls < maxWebSearchLoopCalls then none
  else some {
    message := ("Tool 'web_search' reached its per-response budget of " : Text) ++
      Text.ofNat maxWebSearchLoopCalls ++ " calls. CodeSeeX stopped the loop to avoid " ++
      "burning tokens on repeated web searches."
    recoverWithFinalResponse := true }

def iterationLimitError : Text :=
  ("Tool loop exceeded " : Text) ++ Text.ofNat maxToolLoopIterations ++
    " iterations in one response. CodeSeeX stopped the loop to avoid unbounded tool " ++
    "execution and upstream token usage."

/-! ## One turn -/

/-- What the loop is given, and the answers that it gets from outside: the fresh ids of an
iteration, the result of a call, its text for the model and its summary, the outcomes of the
writes to the store, the stop of the handoff guard, and the completion for a payload. -/
structure LoopContext where
  texts : ItemTexts
  uuid : ℕ → ℕ → Text
  enabledTools : List Text
  communityTools : CommunityToolSet
  toolContext : ToolContext
  executeCodeTool : ℕ → ℕ → List Value → ChatToolCall → Value
  modelReplayToolResult : ChatToolCall → Value → Text
  summarizeToolResult : Value → Text
  appendRequestToolFact : ℕ → ℕ → Except Text Unit
  appendRequestTurnMessages : ℕ → List Value → Except Text Unit
  recordClientToolHandoffCalls : ℕ → List ChatToolCall → Except Text (Option (Text × Text))
  postChatCompletions : ℕ → Value → Except Text Value

structure ToolLoopError where
  code : Text
  message : Text

def ToolLoopError.new (message : Text) : ToolLoopError := ⟨"tool_loop_failed", message⟩

inductive ToolLoopResult where
  | finalChat (chat : Value) (responseItems : List Value)
  | clientToolCalls (chat : Value) (responseItems : List Value)

/-- The variables of the loop. -/
structure LoopVars where
  payload : Value
  seen : BTreeMap Text ℕ := BTreeMap.empty
  diagnostics : ToolLoopDiagnostics := ToolLoopDiagnostics.new
  responseItems : List Value := []

/-- `payload["messages"]`, if it is an array. -/
def payloadMessages (payload : Value) : Option (List Value) :=
  (payload.get "messages").bind Value.asArray

def setMessages (payload : Value) (messages : List Value) : Value :=
  payload.set "messages" (.array messages)

section
variable (context : LoopContext)

def turnPartition (chat : Value) : ToolCallPartition :=
  partitionToolCalls (chatToolCalls chat) context.communityTools context.toolContext

/-- The calls of a completion that CodeSeeX runs. -/
def turnExecutes (chat : Value) : List ChatToolCall :=
  proxyExecutedCallsInOrder (chatToolCalls chat) (turnPartition context chat)

/-- The calls are run one beside the other; their results are taken up in order. -/
def runCalls (iteration : ℕ) (messageSnapshot : List Value) (seen : BTreeMap Text ℕ) :
    ℕ → List ChatToolCall → Except Text (List (ChatToolCall × Value))
  | _, [] => .ok []
  | index, call :: calls => do
      let result := attachToolLoopWarning
        (context.executeCodeTool iteration index messageSnapshot call) (repeatedCallWarning seen call)
      let _ ← (context.appendRequestToolFact iteration index).mapError fun error =>
        ("failed to persist tool fact: " : Text) ++ error
      let later ← runCalls iteration messageSnapshot seen (index + 1) calls
      .ok ((call, result) :: later)

/-- The output items of the searches among some results. -/
def searchOutputs (iteration : ℕ) : ℕ → List (ChatToolCall × Value) → List Value
  | _, [] => []
  | fresh, (call, result) :: results =>
      if isWebSearchTool call.name then
        webSearchCallOutputResponseItem (context.uuid iteration fresh) call
          (context.summarizeToolResult result) :: searchOutputs iteration (fresh + 1) results
      else searchOutputs iteration (fresh + 1) results

def toolMessages (results : List (ChatToolCall × Value)) : List Value :=
  results.map fun (call, result) => toolMessage call.id (context.modelReplayToolResult call result)

/-- From the display of the calls to the persistence of their results. -/
def executeTurn (iteration : ℕ) (vars : LoopVars) (chat : Value) :
    Except Text (LoopVars × Option ToolLoopStop) := do
  let partition := turnPartition context chat
  let executed := turnExecutes context chat
  let visible := proxyVisibleResponseItems context.texts (context.uuid iteration) 0 executed
  let messages ← require (payloadMessages vars.payload) "chat payload messages were not an array"
  let storedAssistant ← fullAssistantToolMessageFromChat chat
  let assistantMessage :=
    if partition.hasClientExecutedCalls then assistantMessageFromChatToolSubset chat executed
    else storedAssistant
  let messageSnapshot := messages ++ [assistantMessage]
  let results ← runCalls context iteration messageSnapshot vars.seen 0 executed
  let (stop, diagnostics) := vars.diagnostics.recordToolResultsAndRepeatedFailure results
  let _ ← (context.appendRequestTurnMessages iteration
    (storedAssistant :: toolMessages context results)).mapError fun error =>
      ("failed to persist tool turn messages: " : Text) ++ error
  .ok ({ vars with
    payload := setMessages vars.payload (messageSnapshot ++ toolMessages context results)
    diagnostics := diagnostics
    responseItems := vars.responseItems ++ visible ++
      searchOutputs context iteration executed.length results }, stop)

/-- How a turn ends: the loop returns, it asks for a final response without tools, or it goes
on. -/
inductive TurnEnd where
  | done (result : Except ToolLoopError ToolLoopResult)
  | recover (stop : ToolLoopStop)
  | next

/-- The guard is asked about the client's calls of the turn. -/
def checkHandoff (iteration : ℕ) (partition : ToolCallPartition) : Except ToolLoopError Unit :=
  match context.recordClientToolHandoffCalls iteration (partition.native ++ partition.external) with
  | .error error =>
      .error (.new (("failed to evaluate client tool handoff guard: " : Text) ++ error))
  | .ok (some (code, message)) => .error ⟨code, message⟩
  | .ok none => .ok ()

/-- A turn whose calls are all the client's. -/
def clientTurn (iteration : ℕ) (vars : LoopVars) (chat : Value) :
    Except ToolLoopError ToolLoopResult := do
  let _ ← checkHandoff context iteration (turnPartition context chat)
  let storedAssistant ← (fullAssistantToolMessageFromChat chat).mapError ToolLoopError.new
  let _ ← (context.appendRequestTurnMessages iteration [storedAssistant]).mapError fun error =>
    ToolLoopError.new (("failed to persist client tool turn message: " : Text) ++ error)
  .ok (.clientToolCalls chat vars.responseItems)

/-- What follows the results of a turn. -/
def afterResults (iteration : ℕ) (vars : LoopVars) (chat : Value) (stop : Option ToolLoopStop) :
    TurnEnd :=
  match webSearchBudgetStop vars.seen with
  | some stop => .recover stop
  | none =>
      match stop with
      | some stop =>
          if stop.recoverWithFinalResponse then .recover stop
          else .done (.error (.new stop.message))
      | none =>
          if iteration + 1 ≥ maxToolLoopIterations then .done (.error (.new iterationLimitError))
          else if (turnPartition context chat).hasClientExecutedCalls then
            .done ((checkHandoff context iteration (turnPartition context chat)).map fun _ =>
              .clientToolCalls chat vars.responseItems)
          else .next

def toolTurn (iteration : ℕ) (vars : LoopVars) (chat : Value) : LoopVars × TurnEnd :=
  let toolCalls := chatToolCalls chat
  if toolCalls = [] then (vars, .done (.ok (.finalChat chat vars.responseItems)))
  else
    let partition := turnPartition context chat
    let vars := { vars with seen := recordIteration vars.seen toolCalls }
    match partition.unknown with
    | unknown :: _ =>
        (vars, .done (.error (.new (("tool '" : Text) ++ unknown.name ++
          "' is not available to CodeSeeX or Codex"))))
    | [] =>
        match (turnExecutes context chat).find? fun call =>
            !isCodeToolExecutable call.name context.enabledTools context.communityTools with
        | some disabled =>
            (vars, .done (.error (.new (("tool '" : Text) ++ disabled.name ++
              "' is not enabled or not executable by CodeSeeX"))))
        | none =>
            if partition.hasClientExecutedCalls && !partition.hasProxyExecutedCalls then
              (vars, .done (clientTurn context iteration vars chat))
            else
              match executeTurn context iteration vars chat with
              | .error message => (vars, .done (.error (.new message)))
              | .ok (vars, stop) => (vars, afterResults context iteration vars chat stop)

/-! ## The loop -/

def recoveryMessage (stopMessage : Text) : Value :=
  .object [("content", .string (
    ("CodeSeeX stopped the tool loop and removed tools for this recovery turn: " : Text) ++
      stopMessage ++ " Provide the final answer now using only the existing conversation " ++
      "evidence, returned tool results, and diagnostics. Do not request or encode additional " ++
      "tool calls in the response text. If the evidence is insufficient, say so briefly.")),
    ("role", .string "user")]

def prepareToolLoopRecoveryPayload (payload : Value) (stopMessage : Text) : Except Text Value := do
  let payload := removeField (removeField (removeField payload "tools") "tool_choice")
    "parallel_tool_calls"
  let messages ← require (payloadMessages payload)
    "chat payload messages were not an array during tool loop recovery"
  .ok (setMessages payload (messages ++ [recoveryMessage stopMessage]))

/-- A completion that was asked for: the payload before the turn, the completion that the turn
answers, and the payload that was sent. -/
structure Exchange where
  before : Value
  chat : Value
  sent : Value

/-- A run of the loop: the requests that it sent, the completions that it read, and its end. -/
structure LoopRun where
  exchanges : List Exchange
  chats : List Value
  result : Except ToolLoopError ToolLoopResult

/-- `recover_final_response_after_tool_loop_stop`, behind the turn of `chat`. -/
def recoverFinalResponse (iteration : ℕ) (before : Value) (vars : LoopVars) (chat : Value)
    (stop : ToolLoopStop) : LoopRun :=
  match prepareToolLoopRecoveryPayload vars.payload stop.message with
  | .error message => ⟨[], [chat], .error (.new message)⟩
  | .ok payload =>
      match context.postChatCompletions (iteration + 1) payload with
      | .error message => ⟨[⟨before, chat, payload⟩], [chat], .error (.new message)⟩
      | .ok final =>
          ⟨[⟨before, chat, payload⟩], [chat, final],
            if chatToolCalls final ≠ [] then
              .error (.new "upstream returned tool calls during no-tool loop recovery")
            else .ok (.finalChat final vars.responseItems)⟩

/-- The loop with the number of iterations that are left. -/
def completeChatWithTools.loop : ℕ → ℕ → LoopVars → Value → LoopRun
  | 0, _, _, chat => ⟨[], [chat], .error (.new iterationLimitError)⟩
  | left + 1, iteration, vars, chat =>
      match toolTurn context iteration vars chat with
      | (_, .done result) => ⟨[], [chat], result⟩
      | (turned, .recover stop) =>
          recoverFinalResponse context iteration vars.payload turned chat stop
      | (turned, .next) =>
          match context.postChatCompletions (iteration + 1) turned.payload with
          | .error message =>
              ⟨[⟨vars.payload, chat, turned.payload⟩], [chat], .error (.new message)⟩
          | .ok next =>
              let later := loop left (iteration + 1) turned next
              ⟨⟨vars.payload, chat, turned.payload⟩ :: later.exchanges, chat :: later.chats,
                later.result⟩

def completeChatWithTools (payload chat : Value) : LoopRun :=
  completeChatWithTools.loop context maxToolLoopIterations 0 { payload } chat

end

/-! ## What a turn does -/

section
variable {context : LoopContext} {iteration : ℕ} {vars turned : LoopVars} {chat : Value}

theorem runCalls_fst {messageSnapshot : List Value} {seen : BTreeMap Text ℕ} {index : ℕ}
    {calls : List ChatToolCall} {results : List (ChatToolCall × Value)}
    (h : runCalls context iteration messageSnapshot seen index calls = .ok results) :
    results.map Prod.fst = calls := by
  induction calls generalizing index results with
  | nil =>
    rw [runCalls, Except.ok.injEq] at h
    rw [← h]
    rfl
  | cons call calls ih =>
    simp only [runCalls, bind_ok] at h
    obtain ⟨_, _, later, hlater, heq⟩ := h
    rw [Except.ok.injEq] at heq
    rw [← heq, List.map_cons, ih hlater]

/-- The assistant message of a turn whose calls were run, as it is sent upstream. -/
def turnAssistantMessage (context : LoopContext) (chat storedAssistant : Value) : Value :=
  if (turnPartition context chat).hasClientExecutedCalls then
    assistantMessageFromChatToolSubset chat (turnExecutes context chat)
  else storedAssistant

/-- The calls of a turn were run: what it adds to the messages and to the output. -/
def Executed (context : LoopContext) (vars turned : LoopVars) (chat : Value) : Prop :=
  ∃ (iteration : ℕ) (messages : List Value) (storedAssistant : Value)
    (results : List (ChatToolCall × Value)),
    payloadMessages vars.payload = some messages ∧
    fullAssistantToolMessageFromChat chat = .ok storedAssistant ∧
    results.map Prod.fst = turnExecutes context chat ∧
    turned.payload = setMessages vars.payload
      (messages ++ [turnAssistantMessage context chat storedAssistant] ++
        toolMessages context results) ∧
    turned.responseItems = vars.responseItems ++
      proxyVisibleResponseItems context.texts (context.uuid iteration) 0
        (turnExecutes context chat) ++
      searchOutputs context iteration (turnExecutes context chat).length results

theorem executed_of_executeTurn {stop : Option ToolLoopStop}
    (h : executeTurn context iteration vars chat = .ok (turned, stop)) :
    Executed context vars turned chat := by
  simp only [executeTurn, bind_ok, require_ok] at h
  obtain ⟨messages, hmessages, storedAssistant, hassistant, results, hresults, _, _, heq⟩ := h
  rw [Except.ok.injEq, Prod.mk.injEq] at heq
  refine ⟨iteration, messages, storedAssistant, results, hmessages, hassistant,
    runCalls_fst hresults, ?_, ?_⟩
  · rw [← heq.1]
    rfl
  · rw [← heq.1]

/-- The ways in which a turn ends, with what was run before. -/
inductive TurnCase (context : LoopContext) (vars turned : LoopVars) (chat : Value) :
    TurnEnd → Prop
  | finished (hcalls : chatToolCalls chat = []) :
      TurnCase context vars turned chat (.done (.ok (.finalChat chat vars.responseItems)))
  | failed (error : ToolLoopError) : TurnCase context vars turned chat (.done (.error error))
  | handed (hunknown : (turnPartition context chat).unknown = [])
      (hproxy : (turnPartition context chat).hasProxyExecutedCalls = false) :
      TurnCase context vars turned chat (.done (.ok (.clientToolCalls chat vars.responseItems)))
  | mixed (hunknown : (turnPartition context chat).unknown = [])
      (hexecuted : Executed context vars turned chat) :
      TurnCase context vars turned chat (.done (.ok (.clientToolCalls chat turned.responseItems)))
  | stopped (stop : ToolLoopStop) (hunknown : (turnPartition context chat).unknown = [])
      (hruns : turnExecutes context chat ≠ [])
      (hexecuted : Executed context vars turned chat) :
      TurnCase context vars turned chat (.recover stop)
  | next (hall : turnExecutes context chat = chatToolCalls chat)
      (hruns : turnExecutes context chat ≠ []) (hexecuted : Executed context vars turned chat) :
      TurnCase context vars turned chat .next

theorem turnCase_afterResults {stop : Option ToolLoopStop}
    (hunknown : (turnPartition context chat).unknown = [])
    (hruns : turnExecutes context chat ≠ []) (hexecuted : Executed context vars turned chat) :
    TurnCase context vars turned chat (afterResults context iteration turned chat stop) := by
  unfold afterResults
  cases webSearchBudgetStop turned.seen with
  | some budget => exact .stopped budget hunknown hruns hexecuted
  | none =>
    cases stop with
    | some stop =>
      dsimp only
      split_ifs
      · exact .stopped stop hunknown hruns hexecuted
      · exact .failed _
    | none =>
      split_ifs with hlimit hclient
      · exact .failed _
      · cases checkHandoff context iteration (turnPartition context chat) with
        | error error => exact .failed error
        | ok _ => exact .mixed hunknown hexecuted
      · rw [Bool.not_eq_true] at hclient
        exact .next (proxyExecuted_of_no_client hunknown hclient) hruns hexecuted

theorem turnCase_toolTurn (context : LoopContext) (iteration : ℕ) (vars : LoopVars) (chat : Value) :
    TurnCase context vars (toolTurn context iteration vars chat).1 chat
      (toolTurn context iteration vars chat).2 := by
  rw [toolTurn]
  by_cases hcalls : chatToolCalls chat = []
  · rw [if_pos hcalls]
    exact .finished hcalls
  rw [if_neg hcalls]
  dsimp only
  cases hunknown : (turnPartition context chat).unknown with
  | cons unknown later => exact .failed _
  | nil =>
    cases (turnExecutes context chat).find? fun call =>
        !isCodeToolExecutable call.name context.enabledTools context.communityTools with
    | some disabled => exact .failed _
    | none =>
      split_ifs with hclient
      · rw [Bool.and_eq_true, Bool.not_eq_true'] at hclient
        cases hturn : clientTurn context iteration
            { vars with seen := recordIteration vars.seen (chatToolCalls chat) } chat with
        | error error => exact .failed error
        | ok result =>
          simp only [clientTurn, bind_ok] at hturn
          obtain ⟨_, -, _, -, _, -, hresult⟩ := hturn
          rw [← hresult]
          exact .handed hunknown hclient.2
      · cases hturn : executeTurn context iteration
            { vars with seen := recordIteration vars.seen (chatToolCalls chat) } chat with
        | error message => exact .failed _
        | ok result =>
          obtain ⟨turned, stop⟩ := result
          have hexecuted := executed_of_executeTurn hturn
          have hruns := proxyExecuted_ne_nil hcalls hunknown hclient
          exact @turnCase_afterResults context iteration vars turned chat stop hunknown hruns hexecuted

end

/-! ### A quiet loop -/

def completion (message : List (Text × Value)) : Value :=
  .object [("choices", .array [.object [("message", .object message)]])]

def textCompletion : Value :=
  completion [("content", .string "done"), ("role", .string "assistant")]

/-- A loop whose tools answer at once, and whose upstream answers with a text. -/
def quietLoop : LoopContext where
  texts := ⟨fun _ => none, id, fun _ => .null, some⟩
  uuid := fun iteration fresh => Text.ofNat iteration ++ '-' :: Text.ofNat fresh
  enabledTools := []
  communityTools := CommunityToolSet.empty
  toolContext := {}
  executeCodeTool := fun _ _ _ _ => .object []
  modelReplayToolResult := fun _ _ => []
  summarizeToolResult := fun _ => []
  appendRequestToolFact := fun _ _ => .ok ()
  appendRequestTurnMessages := fun _ _ => .ok ()
  recordClientToolHandoffCalls := fun _ _ => .ok none
  postChatCompletions := fun _ _ => .ok textCompletion

end CodeSeeX.ToolLoop
