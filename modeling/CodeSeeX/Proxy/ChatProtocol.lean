import CodeSeeX.Proxy.ToolOwnership

/-!
# Tool calls in chat messages

What a chat completion says of its tool calls, and the assistant messages that stand for
a turn when it is sent upstream again: the message of the provider, or one that is built
from the calls.
-/
namespace CodeSeeX.Tools
open List Bool

variable (message : Value) (toolCalls : List ChatToolCall)

/-! ## The calls of a completion -/

def choiceMessage (chat : Value) : Option Value := chat.pointer ["choices", "0", "message"]

/-- The entries under `tool_calls` of a message. -/
def messageToolCalls (message : Value) : List Value :=
  ((message.get "tool_calls").bind Value.asArray).getD []

/-- The call that an entry stands for; an entry without id or name stands for none. -/
def toolCallFromEntry (item : Value) : Option ChatToolCall := do
  let id ← item.getStr "id"
  let function ← item.get "function"
  let name ← function.getStr "name"
  some ⟨id, name, (function.getStr "arguments").getD "\x7b\x7d"⟩

/-- The entries under `/choices/0/message/tool_calls`. -/
def toolCallEntries (chat : Value) : List Value := (choiceMessage chat).elim [] messageToolCalls

def chatToolCalls (chat : Value) : List ChatToolCall :=
  (toolCallEntries chat).filterMap toolCallFromEntry

/-! ## Assistant messages -/

/-- `object.remove(key)` -/
def removeField (value : Value) (key : Text) : Value :=
  match value with
  | .object fields => .object (fields.filter (·.1 ≠ key))
  | other => other

/-- The text under a key, empty where there is none. -/
def textField (message : Value) (key : Text) : Text := (message.getStr key).getD []

def normalizeAssistantToolMessage (message : Value) : Value :=
  let message :=
    match message.get "content" with
    | none => message.set "content" (.string [])
    | some .null => message.set "content" (.string [])
    | some _ => message
  if (textField message "reasoning_content").isBlank then
    if messageToolCalls message ≠ [] then message.set "reasoning_content" (.string [])
    else removeField message "reasoning_content"
  else message

def fullAssistantToolMessageFromChat (chat : Value) : Except Text Value :=
  match choiceMessage chat with
  | some message => .ok (normalizeAssistantToolMessage message)
  | none => .error "tool call response did not include an assistant message"

def chatToolCallEntry (call : ChatToolCall) : Value :=
  .object [
    ("function", .object [("arguments", .string call.arguments), ("name", .string call.name)]),
    ("id", .string call.id), ("type", .string "function")]

def chatToolCallsToAssistantMessage (toolCalls : List ChatToolCall)
    (content reasoningContent : Text) : Value :=
  let message : Value := .object [
    ("content", .string content), ("role", .string "assistant"),
    ("tool_calls", .array (toolCalls.map chatToolCallEntry))]
  if toolCalls ≠ [] ∨ reasoningContent.isBlank = false then
    message.set "reasoning_content" (.string reasoningContent)
  else message

def assistantMessageFromChatToolSubset (chat : Value) (toolCalls : List ChatToolCall) : Value :=
  let message := (choiceMessage chat).getD .null
  chatToolCallsToAssistantMessage toolCalls (textField message "content")
    (textField message "reasoning_content")

/-- The message of a tool result. -/
def toolMessage (callId content : Text) : Value :=
  .object [("content", .string content), ("role", .string "tool"), ("tool_call_id", .string callId)]

/-! ## Who runs the calls of a turn -/

namespace ToolCallPartition

def hasProxyExecutedCalls (partition : ToolCallPartition) : Bool :=
  !partition.code.isEmpty || !partition.hosted.isEmpty

def hasClientExecutedCalls (partition : ToolCallPartition) : Bool :=
  !partition.native.isEmpty || !partition.external.isEmpty

end ToolCallPartition

/-- The calls whose id is one of a call that CodeSeeX runs, in the order of the turn. -/
def proxyExecutedCallsInOrder (allToolCalls : List ChatToolCall) (partition : ToolCallPartition) :
    List ChatToolCall :=
  let ids := (partition.code ++ partition.hosted).map ChatToolCall.id
  allToolCalls.filter fun call => call.id ∈ ids

def isExecutableToolEnabled (name : Text) (enabledIds : List Text) : Bool :=
  decide (canonicalToolId name ∈ codeseexSystemHostedToolIds) ||
    (decide (canonicalToolId name ∈ codeseexConfigurableHostedToolIds) &&
      configurableToolEnabled (canonicalToolId name) enabledIds)

def isCodeToolExecutable (name : Text) (enabledTools : List Text)
    (communityTools : CommunityToolSet) : Bool :=
  if isWebSearchTool name then true
  else isExecutableToolEnabled name enabledTools || communityTools.isExecutableTool name

/-! ## Fields of the messages -/

theorem set_object (fields : List (Text × Value)) (key : Text) (field : Value) :
    Value.set (.object fields) key field = .object (Value.insertField key field fields) := rfl

theorem get_removeField_ne {message : Value} {key other : Text} (h : other ≠ key) :
    (removeField message key).get other = message.get other := by
  cases message with
  | object fields =>
    simp only [removeField, Value.get]
    induction fields with
    | nil => rfl
    | cons field fields ih =>
      obtain ⟨k, v⟩ := field
      by_cases hk : k = key
      · subst hk
        rw [filter_cons_of_neg (by simp), ih, lookup_cons, beq_false_of_ne h]
      · rw [filter_cons_of_pos (by simpa using hk), lookup_cons, lookup_cons, ih]
  | _ => rfl

/-- Normalization touches the texts of a message only. -/
theorem get_normalizeAssistantToolMessage {key : Text} (hcontent : key ≠ "content")
    (hreasoning : key ≠ "reasoning_content") :
    (normalizeAssistantToolMessage message).get key = message.get key := by
  have hfirst : (match message.get "content" with
      | none => message.set "content" (.string [])
      | some .null => message.set "content" (.string [])
      | some _ => message).get key = message.get key := by
    split
    · exact Value.get_set_ne hcontent _
    · exact Value.get_set_ne hcontent _
    · rfl
  rw [normalizeAssistantToolMessage]
  split_ifs
  · rw [Value.get_set_ne hreasoning, hfirst]
  · rw [get_removeField_ne hreasoning, hfirst]
  · exact hfirst

theorem messageToolCalls_normalize :
    messageToolCalls (normalizeAssistantToolMessage message) = messageToolCalls message := by
  rw [messageToolCalls, get_normalizeAssistantToolMessage message (by decide) (by decide),
    messageToolCalls]

theorem getStr_role_normalize :
    (normalizeAssistantToolMessage message).getStr "role" = message.getStr "role" := by
  rw [Value.getStr, get_normalizeAssistantToolMessage message (by decide) (by decide), Value.getStr]

section
variable (toolCalls : List ChatToolCall) (content reasoningContent : Text)

/-- The message that is built from calls. -/
theorem get_chatToolCallsToAssistantMessage {key : Text} (h : key ≠ "reasoning_content") :
    (chatToolCallsToAssistantMessage toolCalls content reasoningContent).get key =
      (Value.object [("content", .string content), ("role", .string "assistant"),
        ("tool_calls", .array (toolCalls.map chatToolCallEntry))]).get key := by
  rw [chatToolCallsToAssistantMessage]
  split_ifs
  · exact Value.get_set_ne h _
  · rfl

theorem messageToolCalls_built :
    messageToolCalls (chatToolCallsToAssistantMessage toolCalls content reasoningContent) =
      toolCalls.map chatToolCallEntry := by
  rw [messageToolCalls, get_chatToolCallsToAssistantMessage _ _ _ (by decide)]
  rfl

theorem getStr_role_built :
    (chatToolCallsToAssistantMessage toolCalls content reasoningContent).getStr "role" =
      some (Text.lit "assistant") := by
  rw [Value.getStr, get_chatToolCallsToAssistantMessage _ _ _ (by decide)]
  rfl

end

theorem getStr_id_of_entry {item : Value} {call : ChatToolCall}
    (h : toolCallFromEntry item = some call) : item.getStr "id" = some call.id := by
  simp only [toolCallFromEntry, Option.bind_eq_bind, Option.bind_eq_some_iff] at h
  obtain ⟨id, hid, function, hfunction, name, hname, hcall⟩ := h
  rw [Option.some.injEq] at hcall
  rw [hid, ← hcall]

/-! ## The parts of a turn -/

section
variable (communityTools : CommunityToolSet) (toolContext : ToolContext)

/-- Who runs a call. -/
def callOwner (call : ChatToolCall) : ToolOwner :=
  resolveToolOwner (canonicalCall call).name communityTools toolContext

/-- The calls of an owner, as the partition names them. -/
def ownedBy (toolCalls : List ChatToolCall) (owns : ToolOwner → Bool) : List ChatToolCall :=
  (toolCalls.filter fun call => owns (callOwner communityTools toolContext call)).map
    canonicalCall

def isCodeOwner (owner : ToolOwner) : Bool :=
  owner = .codeseexHosted .builtIn || owner = .codeseexHosted .community

/-- CodeSeeX runs the calls of this owner. -/
def isProxyOwner (owner : ToolOwner) : Bool :=
  isCodeOwner owner || owner = .codeseexHosted .webSearch

def isClientOwner (owner : ToolOwner) : Bool := owner = .codexNativeApplyPatch || owner = .external

end

variable {communityTools : CommunityToolSet} {toolContext : ToolContext}

theorem push_foldl (partition : ToolCallPartition) :
    toolCalls.foldl (fun partition call => partition.push (canonicalCall call)
      (resolveToolOwner (canonicalCall call).name communityTools toolContext)) partition =
      { code := partition.code ++
          ownedBy communityTools toolContext toolCalls isCodeOwner
        hosted := partition.hosted ++ ownedBy communityTools toolContext toolCalls
          fun owner => owner = .codeseexHosted .webSearch
        native := partition.native ++ ownedBy communityTools toolContext toolCalls
          fun owner => owner = .codexNativeApplyPatch
        external := partition.external ++ ownedBy communityTools toolContext toolCalls
          fun owner => owner = .external
        unknown := partition.unknown ++ ownedBy communityTools toolContext toolCalls
          fun owner => owner = .unknown } := by
  induction toolCalls generalizing partition with
  | nil => simp [ownedBy]
  | cons call toolCalls ih =>
    rw [foldl_cons, ih]
    have howner : callOwner communityTools toolContext call =
      resolveToolOwner (canonicalCall call).name communityTools toolContext := rfl
    rw [← howner]
    cases h : callOwner communityTools toolContext call with
    | codeseexHosted tool => cases tool <;> simp [ToolCallPartition.push, ownedBy, h, isCodeOwner]
    | _ => simp [ToolCallPartition.push, ownedBy, h, isCodeOwner]

theorem partition_eq :
    partitionToolCalls toolCalls communityTools toolContext =
      { code := ownedBy communityTools toolContext toolCalls isCodeOwner
        hosted := ownedBy communityTools toolContext toolCalls
          fun owner => owner = .codeseexHosted .webSearch
        native := ownedBy communityTools toolContext toolCalls
          fun owner => owner = .codexNativeApplyPatch
        external := ownedBy communityTools toolContext toolCalls
          fun owner => owner = .external
        unknown := ownedBy communityTools toolContext toolCalls
          fun owner => owner = .unknown } :=
  (push_foldl toolCalls {}).trans (by simp)

theorem ownedBy_eq_nil {toolCalls : List ChatToolCall} {owns : ToolOwner → Bool} :
    ownedBy communityTools toolContext toolCalls owns = [] ↔
      ∀ call ∈ toolCalls, owns (callOwner communityTools toolContext call) = false := by
  simp [ownedBy]

/-- The ids of the calls that CodeSeeX runs. -/
theorem mem_proxyIds {toolCalls : List ChatToolCall} {id : Text} :
    id ∈ ((partitionToolCalls toolCalls communityTools toolContext).code ++
        (partitionToolCalls toolCalls communityTools toolContext).hosted).map
          ChatToolCall.id ↔
      ∃ call ∈ toolCalls, call.id = id ∧
        isProxyOwner (callOwner communityTools toolContext call) = true := by
  rw [partition_eq toolCalls]
  simp only [ownedBy, map_append, map_map, mem_append, mem_map, mem_filter,
    Function.comp_apply, canonicalCall, isProxyOwner, or_eq_true]
  constructor
  · intro h
    rcases h with ⟨call, ⟨hmem, howner⟩, hid⟩ | ⟨call, ⟨hmem, howner⟩, hid⟩
    · exact ⟨call, hmem, hid, .inl howner⟩
    · exact ⟨call, hmem, hid, .inr howner⟩
  · intro h
    obtain ⟨call, hmem, hid, howner | howner⟩ := h
    · exact .inl ⟨call, ⟨hmem, howner⟩, hid⟩
    · exact .inr ⟨call, ⟨hmem, howner⟩, hid⟩

section
variable {toolCalls : List ChatToolCall}

theorem hasClient_iff :
    (partitionToolCalls toolCalls communityTools toolContext).hasClientExecutedCalls = true ↔
      ∃ call ∈ toolCalls, isClientOwner (callOwner communityTools toolContext call) = true := by
  rw [partition_eq, ToolCallPartition.hasClientExecutedCalls]
  simp only [or_eq_true, not_eq_true', isEmpty_eq_false_iff, ne_eq, ownedBy_eq_nil,
    isClientOwner]
  push Not
  rw [← exists_or]
  refine exists_congr fun call => ?_
  simp only [← and_or_left, ne_eq, not_eq_false, decide_eq_true_eq]

theorem hasProxy_iff :
    (partitionToolCalls toolCalls communityTools toolContext).hasProxyExecutedCalls = true ↔
      ∃ call ∈ toolCalls, isProxyOwner (callOwner communityTools toolContext call) = true := by
  rw [partition_eq, ToolCallPartition.hasProxyExecutedCalls]
  simp only [or_eq_true, not_eq_true', isEmpty_eq_false_iff, ne_eq, ownedBy_eq_nil,
    isProxyOwner]
  push Not
  rw [← exists_or]
  refine exists_congr fun call => ?_
  simp only [← and_or_left, ne_eq, not_eq_false, decide_eq_true_eq]

theorem unknown_eq_nil :
    (partitionToolCalls toolCalls communityTools toolContext).unknown = [] ↔
      ∀ call ∈ toolCalls, callOwner communityTools toolContext call ≠ .unknown := by
  rw [partition_eq]
  simp [ownedBy_eq_nil]

/-- A call that is known is one of CodeSeeX or one of the client. -/
theorem owner_cases {owner : ToolOwner} (h : owner ≠ .unknown) :
    isProxyOwner owner = !isClientOwner owner := by
  cases owner with
  | codeseexHosted tool => cases tool <;> rfl
  | unknown => exact absurd rfl h
  | _ => rfl

/-- The calls that CodeSeeX runs: those that share an id with a call of its own. -/
theorem mem_proxyExecuted {call : ChatToolCall} :
    call ∈ proxyExecutedCallsInOrder toolCalls
        (partitionToolCalls toolCalls communityTools toolContext) ↔
      call ∈ toolCalls ∧ ∃ own ∈ toolCalls, own.id = call.id ∧
        isProxyOwner (callOwner communityTools toolContext own) = true := by
  rw [proxyExecutedCallsInOrder, mem_filter, decide_eq_true_eq]
  exact and_congr_right fun _ => mem_proxyIds

/-- A turn without calls of the client is run as a whole. -/
theorem proxyExecuted_of_no_client
    (hunknown : (partitionToolCalls toolCalls communityTools toolContext).unknown = [])
    (hclient : (partitionToolCalls toolCalls communityTools
      toolContext).hasClientExecutedCalls = false) :
    proxyExecutedCallsInOrder toolCalls
      (partitionToolCalls toolCalls communityTools toolContext) = toolCalls := by
  rw [proxyExecutedCallsInOrder, filter_eq_self]
  intro call hcall
  rw [decide_eq_true_eq, mem_proxyIds]
  refine ⟨call, hcall, rfl, ?_⟩
  have howner := owner_cases (unknown_eq_nil.mp hunknown call hcall)
  by_contra hnot
  have hhas := hasClient_iff.mpr ⟨call, hcall, by simpa [howner] using hnot⟩
  rw [hclient] at hhas
  exact false_ne_true hhas

theorem proxyExecuted_eq_nil_iff : proxyExecutedCallsInOrder toolCalls
      (partitionToolCalls toolCalls communityTools toolContext) = [] ↔
    (partitionToolCalls toolCalls communityTools toolContext).hasProxyExecutedCalls =
      false := by
  rw [← not_eq_true, hasProxy_iff]
  constructor
  · intro hnil
    rintro ⟨call, hcall, howner⟩
    have hmem := (@mem_proxyExecuted communityTools toolContext toolCalls call).mpr
      ⟨hcall, call, hcall, rfl, howner⟩
    rw [hnil] at hmem
    cases hmem
  · intro hnone
    refine eq_nil_iff_forall_not_mem.mpr fun call hcall => hnone ?_
    obtain ⟨-, own, hown, -, howner⟩ := mem_proxyExecuted.mp hcall
    exact ⟨own, hown, howner⟩

/-- Calls that are not all the client's are run in part. -/
theorem proxyExecuted_ne_nil (hcalls : toolCalls ≠ [])
    (hunknown : (partitionToolCalls toolCalls communityTools toolContext).unknown = [])
    (hclient : ¬ ((partitionToolCalls toolCalls communityTools
        toolContext).hasClientExecutedCalls &&
      !(partitionToolCalls toolCalls communityTools
        toolContext).hasProxyExecutedCalls) = true) :
    proxyExecutedCallsInOrder toolCalls
      (partitionToolCalls toolCalls communityTools toolContext) ≠ [] := by
  intro hnone
  have hproxy := proxyExecuted_eq_nil_iff.mp hnone
  rw [hproxy, Bool.not_false, Bool.and_true, not_eq_true] at hclient
  exact hcalls ((proxyExecuted_of_no_client hunknown hclient).symm.trans hnone)

/-- The calls of a turn that is all the client's, in the order in which they are handed over. -/
def handedCalls (communityTools : CommunityToolSet) (toolContext : ToolContext)
    (toolCalls : List ChatToolCall) : List ChatToolCall :=
  (toolCalls.filter fun call =>
    callOwner communityTools toolContext call = .codexNativeApplyPatch) ++
  toolCalls.filter fun call => callOwner communityTools toolContext call = .external

theorem handedCalls_map :
    (handedCalls communityTools toolContext toolCalls).map canonicalCall =
      (partitionToolCalls toolCalls communityTools toolContext).native ++
        (partitionToolCalls toolCalls communityTools toolContext).external := by
  rw [partition_eq, handedCalls, map_append]
  rfl

section
variable (hunknown : (partitionToolCalls toolCalls communityTools toolContext).unknown = [])
include hunknown

/-- Calls that are all the client's are handed over, each of them once. -/
theorem handedCalls_perm (hproxy : (partitionToolCalls toolCalls communityTools
      toolContext).hasProxyExecutedCalls = false) :
    (handedCalls communityTools toolContext toolCalls).Perm toolCalls := by
  have hexternal : toolCalls.filter (fun call =>
      decide (callOwner communityTools toolContext call = .external)) =
        toolCalls.filter fun call =>
          !decide (callOwner communityTools toolContext call = .codexNativeApplyPatch) := by
    refine filter_congr fun call hcall => ?_
    have howner := owner_cases (unknown_eq_nil.mp hunknown call hcall)
    have hclient : isClientOwner (callOwner communityTools toolContext call) = true := by
      by_contra hnot
      rw [not_eq_true] at hnot
      rw [hnot, Bool.not_false] at howner
      have hhas := hasProxy_iff.mpr ⟨call, hcall, howner⟩
      rw [hproxy] at hhas
      exact Bool.false_ne_true hhas
    cases h : callOwner communityTools toolContext call <;> simp_all [isClientOwner]
  rw [handedCalls, hexternal]
  exact filter_append_perm _ toolCalls

/-- No call gets lost between the two sides. -/
theorem length_le_parts :
    let partition := partitionToolCalls toolCalls communityTools toolContext
    toolCalls.length ≤ (proxyExecutedCallsInOrder toolCalls partition).length +
      (partition.native ++ partition.external).length := by
  intro partition
  have hproxy : toolCalls.countP (fun call =>
      isProxyOwner (callOwner communityTools toolContext call)) ≤
        (proxyExecutedCallsInOrder toolCalls partition).length := by
    rw [proxyExecutedCallsInOrder, ← countP_eq_length_filter]
    refine countP_mono_left fun call hcall howner => ?_
    rw [decide_eq_true_eq]
    exact mem_proxyIds.mpr ⟨call, hcall, rfl, howner⟩
  have hparts : (partition.native ++ partition.external).length =
      toolCalls.countP (fun call =>
        decide (callOwner communityTools toolContext call = .codexNativeApplyPatch)) +
      toolCalls.countP fun call =>
        decide (callOwner communityTools toolContext call = .external) := by
    rw [show partition = _ from partition_eq toolCalls]
    simp [ownedBy, countP_eq_length_filter]
  -- Every owner is counted once.
  have hcount : ∀ calls : List ChatToolCall,
      (∀ call ∈ calls, callOwner communityTools toolContext call ≠ .unknown) →
      calls.length = calls.countP (fun call =>
          isProxyOwner (callOwner communityTools toolContext call)) +
        (calls.countP (fun call =>
          decide (callOwner communityTools toolContext call = .codexNativeApplyPatch)) +
        calls.countP fun call =>
          decide (callOwner communityTools toolContext call = .external)) := by
    intro calls hknown
    induction calls with
    | nil => rfl
    | cons call calls ih =>
      obtain ⟨hhere, hlater⟩ := forall_mem_cons.mp hknown
      have hrest := ih hlater
      rw [length_cons, countP_cons, countP_cons, countP_cons]
      cases howner : callOwner communityTools toolContext call with
      | codeseexHosted tool =>
        have hruns : isProxyOwner (.codeseexHosted tool) = true := by cases tool <;> rfl
        simp only [hruns, if_true, reduceCtorEq, decide_false, false_eq_true, if_false]
        omega
      | codexNativeApplyPatch =>
        have hruns : isProxyOwner .codexNativeApplyPatch = false := rfl
        simp only [hruns, decide_true, if_true, reduceCtorEq, decide_false, false_eq_true,
          if_false]
        omega
      | external =>
        have hruns : isProxyOwner .external = false := rfl
        simp only [hruns, decide_true, if_true, reduceCtorEq, decide_false, false_eq_true,
          if_false]
        omega
      | unknown => exact absurd howner hhere
  have htotal := hcount toolCalls (unknown_eq_nil.mp hunknown)
  omega

end

end

end CodeSeeX.Tools
