import CodeSeeX.Proxy.ResponseStream

/-!
# The turns of a streamed response

What follows the deltas of a completion: the final response, the handoff of calls to the client,
or the results of the calls that CodeSeeX runs and the next completion.
-/
namespace CodeSeeX.ResponseStream
open Checks Tools ToolLoop StreamToolCalls

/-- A failed stream: what was yielded before, and the code and text of `response.failed`. -/
structure StreamFailure where
  vars : StreamVars
  code : Text
  message : Text

def orFail {α : Type} (turn : TurnVars) (code : Text) (result : Except Text α) :
    Except StreamFailure α :=
  result.mapError fun message => ⟨turn.toStreamVars, code, message⟩

/-- `detail["error"].to_string()` -/
def quotedError {α : Type} (result : Except Text α) : Except Text α :=
  result.mapError fun message => (Value.string message).print

/-- How a turn ends: the response is completed, or the payload is sent; the code is that of a
failure of the upstream. -/
inductive StreamStep where
  | completed
  | request (failureCode : Text)

section
variable (context : StreamContext)

/-! ## The final turn -/

def finalTurnMessages (turn : TurnVars) : List Value :=
  if turn.turnText.isBlank && turn.turnReasoning.isBlank then []
  else
    let message : Value :=
      .object [("content", .string turn.turnText), ("role", .string "assistant")]
    [if turn.turnReasoning.isBlank then message
      else message.set "reasoning_content" (.string turn.turnReasoning)]

/-- An item that is announced and closed in the next slot, which stays the next one. -/
def pushLast (added item : Value) (turn : TurnVars) : TurnVars :=
  { turn with
    output := turn.output ++ [item]
    events := turn.events ++
      [.itemAdded turn.outputIndex added, .itemDone turn.outputIndex item] }

/-- A turn without text gets an empty message. -/
def pushEmptyMessage (turn : TurnVars) : TurnVars :=
  if turn.turnOutputOpen then turn
  else
    let itemId := ("msg_" : Text) ++ context.uuid turn.iteration turn.fresh
    pushLast (messageAdded itemId "final_answer") (streamedMessageItem itemId "final_answer" [])
      { turn with fresh := turn.fresh + 1 }

def pushCompaction (turn : TurnVars) : TurnVars :=
  context.autoCompaction.elim turn fun item => pushLast item item turn

def complete (turn : TurnVars) : StreamVars :=
  { turn.toStreamVars with events := turn.events ++ [.completed turn.output] }

def finalTurn (turn : TurnVars) : Except StreamFailure (StreamVars × StreamStep) := do
  let messages := finalTurnMessages turn
  let _ ← orFail turn "state_turn_messages_failed" (quotedError
    (if messages = [] then .ok ()
      else context.appendRequestTurnMessages turn.iteration messages))
  .ok (complete (pushCompaction context (pushEmptyMessage context turn)), .completed)

/-! ## Handoff to the client -/

/-- A call for the client, by the way in which it is handed over. -/
inductive ClientCall where
  | native (call : ChatToolCall)
  | external (call : ChatToolCall)

namespace ClientCall

def call : ClientCall → ChatToolCall
  | native call => call
  | external call => call

/-- The kind under which the bridge is asked for the call. -/
def kind (toolContext : ToolContext) : ClientCall → VisibleToolKind
  | native _ => .nativeApplyPatch
  | external call =>
      if toolContext.isCodexToolSearchTool call.name then .codexToolSearch
      else .externalFunction

/-- The item of the call under an item id. -/
def item (context : StreamContext) (itemId : Text) : ClientCall → Value
  | native call => Native.nativeApplyPatchResponseItemFromChatCallWithId context.texts.fromStr
      call.id call.arguments itemId
  | external call =>
      context.toolContext.responseItemFromChatCallWithId context.texts call itemId

/-- The item with which a call is announced that was not announced before. -/
def added (toolContext : ToolContext) (clientCall : ClientCall) (item : Value) : Value :=
  match clientCall.kind toolContext with
  | .nativeApplyPatch => customToolCallAdded item
  | .externalFunction => functionCallAdded item
  | .codexToolSearch => inProgress item

end ClientCall

def clientCalls (partition : ToolCallPartition) : List ClientCall :=
  partition.native.map .native ++ partition.external.map .external

/-- The announced call that is closed when this one is handed over. -/
def findStarted (turn : TurnVars) (clientCall : ClientCall) : Option StartedTool :=
  turn.visibleToolBridge.findState clientCall.call (clientCall.kind context.toolContext)

/-- `native_apply_patch_client_tool_sse_events` and `external_client_tool_sse_events` -/
def handOver (turn : TurnVars) (clientCall : ClientCall) : TurnVars :=
  match findStarted context turn clientCall with
  | some started =>
      let item := clientCall.item context started.itemId
      { turn with
        output := turn.output ++ [item]
        events := turn.events ++ [.itemDone started.outputIndex item] }
  | none =>
      let itemId := itemIdStart (clientCall.kind context.toolContext) ++
        context.uuid turn.iteration turn.fresh
      let item := clientCall.item context itemId
      { turn.pushWhole (clientCall.added context.toolContext item) item with
        fresh := turn.fresh + 1 }

/-- The guard is asked about the client's calls of the turn. -/
def checkStreamedHandoff (turn : TurnVars) (partition : ToolCallPartition) :
    Except StreamFailure Unit := do
  let stop ← orFail turn "client_tool_handoff_guard_failed" (quotedError
    (context.recordClientToolHandoffCalls turn.iteration (partition.native ++ partition.external)))
  match stop with
  | some (code, message) => .error ⟨turn.toStreamVars, code, message⟩
  | none => .ok ()

def handOverAll (turn : TurnVars) (partition : ToolCallPartition) : StreamVars × StreamStep :=
  (complete ((clientCalls partition).foldl (handOver context) turn), .completed)

/-- A turn whose calls are all the client's. -/
def streamedClientTurn (turn : TurnVars) (toolCalls : List ChatToolCall)
    (partition : ToolCallPartition) : Except StreamFailure (StreamVars × StreamStep) := do
  let _ ← checkStreamedHandoff context turn partition
  let _ ← orFail turn "state_turn_messages_failed" (quotedError
    (context.appendRequestTurnMessages turn.iteration
      [chatToolCallsToAssistantMessage toolCalls turn.turnText turn.turnReasoning]))
  .ok (handOverAll context turn partition)

/-! ## Results of the calls that CodeSeeX runs -/

/-- The item with which a call that CodeSeeX runs is announced. -/
def proxyItemAdded (item : Value) : Value :=
  if item.getStr "type" = some (Text.lit "proxy_tool_call") then inProgress item else item

/-- The calls that are run are shown. -/
def showCalls (executed : List ChatToolCall) (turn : TurnVars) : TurnVars :=
  let items := proxyVisibleResponseItems context.texts (context.uuid turn.iteration) turn.fresh
    executed
  items.foldl (fun turn item => turn.pushWhole (proxyItemAdded item) item)
    { turn with fresh := turn.fresh + executed.length }

/-- The item of a search is shown with its result. -/
def showSearch (call : ChatToolCall) (result : Value) (turn : TurnVars) : TurnVars :=
  if isWebSearchTool call.name then
    let item := webSearchCallOutputResponseItem (context.uuid turn.iteration turn.fresh) call
      (context.summarizeToolResult result)
    { turn.pushWhole item item with fresh := turn.fresh + 1 }
  else turn

/-- `messages.push(message)` -/
def pushMessage (turn : TurnVars) (message : Value) (error : Text) : Except StreamFailure TurnVars :=
  match payloadMessages turn.payload with
  | some messages => .ok { turn with payload := setMessages turn.payload (messages ++ [message]) }
  | none => .error ⟨turn.toStreamVars, "tool_loop_failed", error⟩

/-- The results are taken up in order. -/
def takeResults (messageSnapshot : List Value) :
    ℕ → TurnVars → List ChatToolCall → Except StreamFailure (TurnVars × List (ChatToolCall × Value))
  | _, turn, [] => .ok (turn, [])
  | index, turn, call :: calls => do
      let result := attachToolLoopWarning
        (context.executeCodeTool turn.iteration index messageSnapshot call)
        (repeatedCallWarning turn.seen call)
      let _ ← orFail turn "state_tool_fact_failed"
        ((context.appendRequestToolFact turn.iteration index).mapError fun error =>
          ("failed to persist tool fact: " : Text) ++ error)
      let turn ← pushMessage (showSearch context call result turn)
        (toolMessage call.id (context.modelReplayToolResult call result))
        "chat payload messages were not an array after tool execution"
      let (turn, results) ← takeResults messageSnapshot (index + 1) turn calls
      .ok (turn, (call, result) :: results)

/-- From the display of the calls to the persistence of their results. -/
def executeStreamedTurn (turn : TurnVars) (toolCalls executed : List ChatToolCall) :
    Except StreamFailure (TurnVars × Option ToolLoopStop) := do
  let turn ← pushMessage (showCalls context executed turn)
    (chatToolCallsToAssistantMessage executed turn.turnText turn.turnReasoning)
    "chat payload messages were not an array"
  let messageSnapshot := (payloadMessages turn.payload).getD []
  let (turn, results) ← takeResults context messageSnapshot 0 turn executed
  let (stop, diagnostics) := turn.diagnostics.recordStreamedToolResults results
  let _ ← orFail turn "state_turn_messages_failed" (quotedError
    (context.appendRequestTurnMessages turn.iteration
      (chatToolCallsToAssistantMessage toolCalls turn.turnText turn.turnReasoning ::
        toolMessages context.toLoopContext results)))
  .ok ({ turn with diagnostics := diagnostics }, stop)

/-- The payload becomes that of a recovery turn. -/
def recoverStreaming (turn : TurnVars) (stop : ToolLoopStop) (code : Text) :
    Except StreamFailure (StreamVars × StreamStep) := do
  let payload ← orFail turn code (prepareToolLoopRecoveryPayload turn.payload stop.message)
  .ok ({ turn.toStreamVars with payload := payload }, .request code)

/-- What follows the results of a turn. -/
def afterStreamedResults (turn : TurnVars) (partition : ToolCallPartition)
    (stop : Option ToolLoopStop) : Except StreamFailure (StreamVars × StreamStep) :=
  match webSearchBudgetStop turn.seen with
  | some stop => recoverStreaming turn stop "tool_loop_web_search_budget_recovery_failed"
  | none =>
      match stop with
      | some stop =>
          if stop.recoverWithFinalResponse then
            recoverStreaming turn stop "tool_loop_repeated_failure_recovery_failed"
          else .error ⟨turn.toStreamVars, "tool_loop_repeated_failure", stop.message⟩
      | none =>
          if turn.iteration + 1 ≥ maxToolLoopIterations then
            .error ⟨turn.toStreamVars, "tool_loop_iteration_limit", iterationLimitError⟩
          else if partition.hasClientExecutedCalls then do
            let _ ← checkStreamedHandoff context turn partition
            .ok (handOverAll context turn partition)
          else .ok (turn.toStreamVars, .request "upstream_after_tool_failed")

/-! ## The stream -/

/-- A turn with calls. -/
def streamedToolTurn (turn : TurnVars) (toolCalls : List ChatToolCall) :
    Except StreamFailure (StreamVars × StreamStep) := do
  let partition := partitionToolCalls toolCalls context.communityTools context.toolContext
  let turn := { turn with seen := recordIteration turn.seen toolCalls }
  let executed := proxyExecutedCallsInOrder toolCalls partition
  match partition.unknown with
  | unknown :: _ => .error ⟨turn.toStreamVars, "tool_loop_failed", ("tool '" : Text) ++
      unknown.name ++ "' is not available to CodeSeeX or Codex"⟩
  | [] =>
      match executed.find? fun call =>
          !isCodeToolExecutable call.name context.enabledTools context.communityTools with
      | some disabled => .error ⟨turn.toStreamVars, "tool_loop_failed", ("tool '" : Text) ++
          disabled.name ++ "' is not enabled or not executable by CodeSeeX"⟩
      | none =>
          if partition.hasClientExecutedCalls && !partition.hasProxyExecutedCalls then
            streamedClientTurn context turn toolCalls partition
          else do
            let (turn, stop) ← executeStreamedTurn context turn toolCalls executed
            afterStreamedResults context turn partition stop

/-- What follows the deltas of a completion. -/
def endTurn (turn : TurnVars) : Except StreamFailure (StreamVars × StreamStep) :=
  if turnToolCalls context turn = [] then finalTurn context (closeTurn context turn)
  else streamedToolTurn context (closeTurn context turn) (turnToolCalls context turn)

/-- One iteration of the stream. -/
def streamIteration (iteration : ℕ) (vars : StreamVars) (response : ChatStream) :
    Except StreamFailure (StreamVars × StreamStep) :=
  match response.failure with
  | some message =>
      .error ⟨(response.chunks.foldl (receiveChunk context)
        (TurnVars.start context iteration vars)).toStreamVars, "upstream_stream_failed",
        (Value.string message).print⟩
  | none => endTurn context (streamTurn context iteration vars response.chunks)

/-- The events of a failed stream. -/
def StreamFailure.events (failure : StreamFailure) : List StreamEvent :=
  failure.vars.events ++ [.failed failure.code failure.message]

/-- The iterations of the stream, with the number of those that are left; a stream whose iterations
are used up goes on in none. -/
def responseStreamFromChat.loop : ℕ → ℕ → StreamVars → ChatStream → List StreamEvent
  | 0, _, vars, _ => vars.events
  | left + 1, iteration, vars, response =>
      match streamIteration context iteration vars response with
      | .error failure => failure.events
      | .ok (vars, .completed) => vars.events
      | .ok (vars, .request code) =>
          match context.streamChatCompletions (iteration + 1) vars.payload with
          | .error message => StreamFailure.events ⟨vars, code, message⟩
          | .ok next => loop left (iteration + 1) vars next

/-- The turns with tools and a recovery turn behind them. -/
def responseStreamFromChat (payload : Value) (response : ChatStream) : List StreamEvent :=
  responseStreamFromChat.loop context (maxToolLoopIterations + 1) 0 { payload } response

end

end CodeSeeX.ResponseStream
