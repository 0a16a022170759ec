import CodeSeeX.Proxy.NativeRelay
import CodeSeeX.Proxy.PendingLedger
import CodeSeeX.Proxy.ReasoningReplay
import CodeSeeX.Proxy.SearchPresentation
import CodeSeeX.Proxy.ToolLoop

/-!
# The hosted tool loop

The native transport runs the tools of CodeSeeX itself: a provider turn with hosted calls
only is answered and sent back, until a turn has no call or has calls of the client. The
rounds that the client never saw are retained for its next request. The provider, the
tools, the store and the clock are answered from outside.
-/
namespace CodeSeeX.Native
open Framing Tools ToolLoop

/-! ## Call groups -/

inductive NativeToolCallKind where
  | function
  | custom
  deriving DecidableEq

structure NativeToolCall where
  callId : Text
  name : Text
  input : Text
  kind : NativeToolCallKind

structure NativeToolCallGroup where
  providerOutput : List Value
  calls : List NativeToolCall

def nonBlankStr (item : Value) (key : Text) : Option Text :=
  (item.getStr key).filter fun value => value.trim ≠ []

/-- A custom call other than `apply_patch` stays with the provider. -/
def nativeToolCallFromOutputItem (item : Value) : Except Text (Option NativeToolCall) :=
  let kind : Option (NativeToolCallKind × Text) :=
    if itemType item = some ("function_call" : Text) then some (.function, "arguments")
    else if itemType item = some ("custom_tool_call" : Text) then some (.custom, "input")
    else none
  match kind with
  | none => .ok none
  | some (kind, inputField) =>
      match nonBlankStr item "call_id", nonBlankStr item "name" with
      | none, _ => .error "Native tool call did not contain a call identifier."
      | some _, none => .error "Native tool call did not contain a tool name."
      | some callId, some name =>
          if kind = .custom ∧ name ≠ Text.lit "apply_patch" then .ok none
          else if item.getStr "status" ≠ some ("completed" : Text) then
            .error "Native tool call was not completed in the provider response."
          else match item.getStr inputField with
            | none => .error "Native tool call did not contain its verified input field."
            | some input => .ok (some { callId, name, input, kind })

def collectNativeToolCalls (calls : List NativeToolCall) :
    List Value → Except Text (List NativeToolCall)
  | [] => .ok calls
  | item :: items =>
      match nativeToolCallFromOutputItem item with
      | .error error => .error error
      | .ok none => collectNativeToolCalls calls items
      | .ok (some call) =>
          if call.callId ∈ calls.map NativeToolCall.callId then
            .error "Native Responses returned duplicate tool call identifiers in one output group."
          else collectNativeToolCalls (calls ++ [call]) items

/-- `native_tool_call_group_from_response` on a response with the given output. -/
def nativeToolCallGroup (output : List Value) : Except Text (Option NativeToolCallGroup) :=
  match collectNativeToolCalls [] output with
  | .error error => .error error
  | .ok [] => .ok none
  | .ok calls => .ok (some { providerOutput := output, calls })

def outputType : NativeToolCallKind → Text
  | .function => "function_call_output"
  | .custom => "custom_tool_call_output"

def nativeToolOutputItem (call : NativeToolCall) (output : Text) : Value :=
  .object [("call_id", .string call.callId), ("output", .string output),
    ("type", .string (outputType call.kind))]

def outputMatches (call : NativeToolCall) (output : Value) : Bool :=
  itemType output = some (outputType call.kind) ∧ callId output = some call.callId ∧
    (output.getStr "output").isSome

def appendCompleteNativeToolGroup (authoritativeInput : List Value) (group : NativeToolCallGroup)
    (outputItems : List Value) : Except Text (List Value) :=
  if outputItems.length ≠ group.calls.length then
    .error "Native tool continuation requires one result for every call in the provider output group."
  else if (group.calls.zip outputItems).any fun entry => !outputMatches entry.1 entry.2 then
    .error "Native tool continuation output did not exactly match the provider call group."
  else .ok (authoritativeInput ++ group.providerOutput ++ outputItems)

def nativeHostableHostedToolIds : List Text := ["image_gen"]

def isExecutableToolEnabled (name : Text) (enabledIds : List Text) : Bool :=
  decide (canonicalToolId name ∈ codeseexSystemHostedToolIds) ||
    (decide (canonicalToolId name ∈ codeseexConfigurableHostedToolIds) &&
      decide (canonicalToolId name ∈ enabledIds.map canonicalToolId))

def nativeHostedCallIsLocal (enabledTools : List Text) (call : NativeToolCall) : Bool :=
  isWebSearchTool call.name ||
    (decide (canonicalToolId call.name ∈ nativeHostableHostedToolIds) &&
      isExecutableToolEnabled call.name enabledTools)

/-! ## The request -/

/-- What the upstream answers: nothing, or a status with a body that may break off. -/
inductive UpstreamAnswer where
  | unreachable (error : Text)
  | answered (status : ℕ) (isSse : Bool) (body : Except Text (List Bytes))

/-- What the client gets: an error of the proxy, the upstream's error, or a provider turn. -/
inductive ClientAnswer where
  | error (status : ℕ) (code message : Text)
  | upstreamError (status : ℕ) (body : Bytes)
  | turn (completed isSse : Bool) (body : Bytes)

/-- The client is answered with an error or with a turn that did not complete. -/
def ClientAnswer.failed : ClientAnswer → Bool
  | error _ _ _ => true
  | upstreamError _ _ => true
  | turn completed _ _ => !completed

/-- A buffered provider turn. -/
structure ProviderTurn where
  frames : List Bytes
  isSse : Bool
  outputItems : List Value
  completed : Bool

/-- A request of the hosted loop, with what it is answered from outside: the write to the store,
the provider in each iteration, the text of a tool's result, and the texts and ids of items. -/
structure HostedRequest where
  crates : NativeCrates
  texts : ItemTexts
  uuid : ℕ → Text
  shortHash : Text → Text
  jsonError : Bytes → Text
  id : Text
  input : Value
  model : Text
  tools : List Value
  enabledTools : List Text
  reasoningSummaryMode : Option ReasoningSummaryMode
  arrivedAt : Instant
  retainedAt : Instant
  checkpoint : Except Text Unit
  postResponses : ℕ → Value → UpstreamAnswer
  executeTool : List Value → Text → Text → Text

structure HostedVars where
  iteration : ℕ
  payload : Value
  authoritativeInput : List Value
  injectedItems : List NativeInjectedItems
  toolMessages : List Value
  searchCalls : ℕ
  executedSearches : List ExecutedSearch

def removeField (v : Value) (key : Text) : Value :=
  match v with
  | .object fields => .object (fields.filter fun entry => entry.1 ≠ key)
  | v => v

def nativePayload (input : Value) (model : Text) (tools : List Value) : Except Text Value :=
  if input.asObject.isNone then .error "Native Responses requests must be JSON objects."
  else if ((input.get "input").bind Value.asArray).isNone then
    .error "Native Responses requires the authoritative Codex input item array; CodeSeeX did not reconstruct hidden history."
  else
    let object := removeField (removeField input "id") "previous_response_id"
    let object := object.set "model" (.string model)
    let object :=
      if tools = [] then removeField (removeField object "tools") "tool_choice"
      else object.set "tools" (.array tools)
    .ok (if (object.get "stream").isSome then object else object.set "stream" (.bool false))

/-! ## One iteration -/

/-- The loop goes on, or the client is answered. -/
inductive HostedOutcome where
  | next (vars : HostedVars) (state : NativePendingToolGroups)
  | done (answer : ClientAnswer) (state : NativePendingToolGroups)

namespace HostedRequest

variable (request : HostedRequest)

/-- The client's own items. -/
def clientInput : List Value := arrayOf request.input "input"

def bufferNativeSse (chunks : List Bytes) : ProviderTurn :=
  let relay := (NativeResponseSseRelay.new request.id).withReasoningSummary
    request.reasoningSummaryMode
  let (frames, relay) := relay.relayChunks request.crates chunks
  let inspection := relay.inspector.inspection
  { frames := frames.map Outgoing.render
    isSse := true
    outputItems := if inspection.outputItemsIncomplete then [] else inspection.outputItems
    completed := inspection.terminal = some .completed }

def readTurn : UpstreamAnswer → Except ClientAnswer ProviderTurn
  | .unreachable error => .error (.error 502 "native_upstream_connection_failed" error)
  | .answered status isSse body =>
      if status < 200 ∨ 300 ≤ status then
        match body with
        | .ok chunks => .error (.upstreamError status chunks.flatten)
        | .error error => .error (.error 502 "native_upstream_body_failed" error)
      else match body with
        | .error error => .error (.error 502 "native_upstream_body_failed" error)
        | .ok chunks =>
            if isSse then .ok (request.bufferNativeSse chunks)
            else match (fromUtf8 chunks.flatten).bind request.crates.fromStr with
              | none =>
                  .error (.error 502 "native_upstream_json_failed" (request.jsonError chunks.flatten))
              | some native =>
                  .ok { frames := [chunks.flatten]
                        isSse := false
                        outputItems := arrayOf native "output"
                        completed := native.getStr "status" = some ("completed" : Text) }

/-- The client's copy of a provider turn. -/
def nativeProviderTurnResponse (completed isSse : Bool) (body : Bytes) : ClientAnswer :=
  if isSse then .turn completed true (normalizeApplyPatchSseBody request.crates.fromStr body)
  else match (fromUtf8 body).bind request.crates.fromStr with
    | none => .turn completed false body
    | some native =>
        let native := match native.getStr "id" with
          | some providerId => (rewriteProviderResponseIdentity native providerId request.id).1
          | none => native
        let native := (normalizeApplyPatchEventPayload request.crates.fromStr native).1
        .turn completed false (Text.bytes
          (presentReasoningSummaryInResponse native request.reasoningSummaryMode).print)

def searchBudgetReplay : Text :=
  (Value.object [("error", .string "web_search_budget_exhausted"),
    ("message", .string (("CodeSeeX stopped the loop: web_search reached its per-turn budget of " : Text) ++
      Text.ofNat maxWebSearchLoopCalls ++
      " calls. Answer with the evidence already returned instead of searching again.")),
    ("ok", .bool false), ("tool", .string "web_search")]).print

/-- Runs one hosted call and returns the text that the provider gets. -/
def executeNativeHostedCall (vars : HostedVars) (call : NativeToolCall) : Text × HostedVars :=
  let search := isWebSearchTool call.name
  if search ∧ maxWebSearchLoopCalls ≤ vars.searchCalls then (searchBudgetReplay, vars)
  else
    let vars := if search then
        { vars with
          searchCalls := vars.searchCalls + 1
          executedSearches := vars.executedSearches ++ [{ callId := call.callId, input := call.input }] }
      else vars
    let replay := request.executeTool vars.toolMessages call.name call.input
    (replay, { vars with toolMessages := vars.toolMessages ++ [
      .object [("role", .string "assistant"), ("tool_calls", .array [.object [
        ("function", .object [("arguments", .string call.input), ("name", .string call.name)]),
        ("id", .string call.callId), ("type", .string "function")]])],
      .object [("content", .string replay), ("role", .string "tool"),
        ("tool_call_id", .string call.callId)]] })

/-- The calls one after the other, with their outputs. -/
def executeNativeHostedCalls : HostedVars → List NativeToolCall → List Value × HostedVars
  | vars, [] => ([], vars)
  | vars, call :: calls =>
      let (replay, vars) := request.executeNativeHostedCall vars call
      let (outputs, vars) := executeNativeHostedCalls vars calls
      (nativeToolOutputItem call replay :: outputs, vars)

/-- The item that the client gets for a hosted call of its own turn: one for a search only. -/
def replacements (calls : List NativeToolCall) : Replacements :=
  calls.zipIdx.foldl (fun replacements entry =>
    replacements.insert entry.1.callId
      (if isWebSearchTool entry.1.name then
        some (nativeWebSearchCallItem request.texts (request.uuid entry.2) entry.1.callId
          entry.1.input)
      else none)) BTreeMap.empty

/-- `PendingNativeToolGroup::new` for this request. -/
def pendingGroup (injectedItems : List NativeInjectedItems) (group : NativeToolCallGroup) :
    PendingNativeToolGroup where
  responseId := request.id
  requestAnchor := requestAnchor request.input
  clientCallIds := group.calls.map NativeToolCall.callId
  injectedItems := injectedItems
  createdAt := request.retainedAt

/-- Hands a provider turn to the client, and retains the rounds that the client does not see. -/
def nativeHostedClientToolGroup (state : NativePendingToolGroups)
    (pending : Option NativePendingContinuation) (group : NativeToolCallGroup) (turn : ProviderTurn)
    (body : Bytes) (injectedItems : List NativeInjectedItems) : HostedOutcome :=
  let state :=
    if turn.completed then
      let state := if injectedItems = [] then state
        else state.register request.retainedAt (request.pendingGroup injectedItems group)
      match pending with
      | some continuation => state.settle continuation.pendingResponseId
      | none => state
    else state
  .done (request.nativeProviderTurnResponse turn.completed turn.isSse body) state

/-- A readable turn: the round that the request consumed is settled, then the turn decides. -/
def takeTurn (pending : Option NativePendingContinuation) (vars : HostedVars)
    (state : NativePendingToolGroups) (turn : ProviderTurn) : HostedOutcome :=
  let state := match pending with
    | some continuation => state.settle continuation.pendingResponseId
    | none => state
  match nativeToolCallGroup turn.outputItems with
  | .error error => .done (.error 502 "native_tool_protocol_invalid" error) state
  | .ok none =>
      let body := present request.texts request.uuid request.crates turn.frames turn.isSse
        turn.frames.flatten request.id vars.executedSearches
      .done (request.nativeProviderTurnResponse turn.completed turn.isSse body) state
  | .ok (some group) =>
      let hosted := group.calls.filter (nativeHostedCallIsLocal request.enabledTools)
      if hosted = [] then
        request.nativeHostedClientToolGroup state pending group turn turn.frames.flatten
          vars.injectedItems
      else if hosted.length ≠ group.calls.length then
        let executed := (request.executeNativeHostedCalls vars hosted).1
        let body := presentExecutedHostedCalls request.crates turn.isSse turn.frames
          group.providerOutput (request.replacements hosted)
        request.nativeHostedClientToolGroup state pending group turn body
          (vars.injectedItems ++ [{
            offset := request.clientInput.length, items := group.providerOutput ++ executed }])
      else if maxToolLoopIterations ≤ vars.iteration then
        .done (.error 500 "native_tool_loop_iteration_limit"
          (("Native hosted tool loop exceeded " : Text) ++ Text.ofNat maxToolLoopIterations ++
            " iterations; CodeSeeX stopped the loop to avoid unbounded execution.")) state
      else
        let (outputs, vars) := request.executeNativeHostedCalls vars group.calls
        match appendCompleteNativeToolGroup vars.authoritativeInput group outputs with
        | .error error => .done (.error 500 "native_tool_continuation_failed" error) state
        | .ok nextInput =>
            .next { vars with
              iteration := vars.iteration + 1
              payload := vars.payload.set "input" (.array nextInput)
              authoritativeInput := nextInput
              injectedItems := vars.injectedItems ++ [{
                offset := request.clientInput.length
                items := group.providerOutput ++ outputs }] } state

/-- The payload of an iteration as it goes through the upstream boundary. -/
def upstreamPayload (vars : HostedVars) : Value := (nativeUpstreamPayload vars.payload).1

def iterate (pending : Option NativePendingContinuation) (vars : HostedVars)
    (state : NativePendingToolGroups) : HostedOutcome :=
  match request.readTurn (request.postResponses vars.iteration (upstreamPayload vars)) with
  | .error answer => .done answer state
  | .ok turn => request.takeTurn pending vars state turn

/-! ## The loop -/

/-- `left` iterations may still follow; the limit ends the loop before they are used up. -/
def loop (pending : Option NativePendingContinuation) :
    ℕ → HostedVars → NativePendingToolGroups → Option (ClientAnswer × NativePendingToolGroups)
  | 0, _, _ => none
  | left + 1, vars, state =>
      match request.iterate pending vars state with
      | .done answer state => some (answer, state)
      | .next vars state => loop pending left vars state

/-- The request as the store and the pending groups have prepared it. -/
def prepare (state : NativePendingToolGroups) : Except ClientAnswer (Option ResolvedInput) :=
  match nativePayload request.input request.model request.tools with
  | .error message => .error (.error 400 "native_responses_input_invalid" message)
  | .ok payload =>
      .ok (resolveNativePendingInput request.shortHash state request.arrivedAt request.id
        request.input payload)

def startVars (resolved : ResolvedInput) : HostedVars :=
  let payload := repairProviderToolSchemas (reconcileGroupedToolNamespaces resolved.payload).1
  { iteration := 1
    payload := payload
    authoritativeInput := arrayOf payload "input"
    injectedItems := (resolved.continuation.map (·.injectedItems)).getD []
    toolMessages := request.clientInput
    searchCalls := 0
    executedSearches := [] }

/-- `native_hosted_tool_loop`: the answer to the client and the groups that are pending then. -/
def nativeHostedToolLoop (state : NativePendingToolGroups) :
    Option (ClientAnswer × NativePendingToolGroups) :=
  match request.prepare state with
  | .error answer => some (answer, state)
  | .ok none => none
  | .ok (some resolved) =>
      match request.checkpoint with
      | .error error => some (.error 500 "state_checkpoint_failed" error, resolved.state)
      | .ok () =>
          request.loop resolved.continuation maxToolLoopIterations (request.startVars resolved)
            resolved.state

end HostedRequest
end CodeSeeX.Native
