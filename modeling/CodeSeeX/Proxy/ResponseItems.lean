import CodeSeeX.Core.Redaction
import CodeSeeX.Proxy.ChatProtocol
import CodeSeeX.Proxy.PatchRepair

/-!
# Output items

The items of a response that stand for calls: those of the calls that CodeSeeX runs, and
those that are handed to the client.
-/
namespace CodeSeeX.Tools

/-- What the items take from elsewhere: the JSON parser and the text of its errors, the action
that the arguments of a search describe, and the encoding of reasoning. -/
structure ItemTexts where
  fromStr : Text → Option Value
  parseError : Text → Text
  clientAction : Text → Value
  encodeReasoning : Text → Option Text

variable (texts : ItemTexts)

def maxMalformedArgumentsChars : ℕ := 2048

/-! ## Calls that CodeSeeX runs -/

def proxyToolCallResponseItemFromChatCall (itemId : Text) (call : ChatToolCall) : Value :=
  .object [
    ("arguments", .string (Redaction.redactInlineDataUrls call.arguments)),
    ("call_id", .string call.id), ("id", .string (("ptc_" : Text) ++ itemId)),
    ("name", .string call.name), ("status", .string "completed"),
    ("type", .string "proxy_tool_call")]

def nativeWebSearchCallItem (texts : ItemTexts) (itemId callId arguments : Text) : Value :=
  .object [
    ("action", texts.clientAction arguments), ("call_id", .string callId),
    ("id", .string (("ws_" : Text) ++ itemId)), ("status", .string "completed"),
    ("type", .string "web_search_call")]

def webSearchCallOutputResponseItem (itemId : Text) (call : ChatToolCall) (output : Text) : Value :=
  .object [
    ("call_id", .string call.id), ("id", .string (("wso_" : Text) ++ itemId)),
    ("output", .string output), ("type", .string "web_search_call_output")]

/-- The item of a call that CodeSeeX runs. -/
def proxyItem (texts : ItemTexts) (itemId : Text) (call : ChatToolCall) : Value :=
  if isWebSearchTool call.name then nativeWebSearchCallItem texts itemId call.id call.arguments
  else proxyToolCallResponseItemFromChatCall itemId call

/-- The loop of `proxy_visible_response_items` with its two vectors; the calls come with the fresh
ids of their items. -/
def proxyVisibleResponseItems.loop (texts : ItemTexts) (output proxyGroup : List Value) :
    List (Text × ChatToolCall) → List Value
  | [] => output ++ proxyGroup
  | (itemId, call) :: toolCalls =>
      if isWebSearchTool call.name then
        loop texts (output ++ proxyGroup ++
          [nativeWebSearchCallItem texts itemId call.id call.arguments]) [] toolCalls
      else
        loop texts output (proxyGroup ++ [proxyToolCallResponseItemFromChatCall itemId call])
          toolCalls

/-- The fresh ids are numbered; `fresh` is the number of the first. -/
def withIds (uuid : ℕ → Text) : ℕ → List ChatToolCall → List (Text × ChatToolCall)
  | _, [] => []
  | fresh, call :: toolCalls => (uuid fresh, call) :: withIds uuid (fresh + 1) toolCalls

def proxyVisibleResponseItems (texts : ItemTexts) (uuid : ℕ → Text) (fresh : ℕ)
    (toolCalls : List ChatToolCall) : List Value :=
  proxyVisibleResponseItems.loop texts [] [] (withIds uuid fresh toolCalls)

/-! ## Calls for the client -/

def nativeApplyPatchResponseItemFromChatCall (texts : ItemTexts) (itemId : Text)
    (call : ChatToolCall) : Value :=
  Native.nativeApplyPatchResponseItemFromChatCallWithId texts.fromStr call.id call.arguments
    (("ctc_" : Text) ++ itemId)

def parseToolArguments (texts : ItemTexts) (arguments : Text) : Value :=
  (texts.fromStr arguments).getD (.object [])

def malformedToolArgumentsMetadata (texts : ItemTexts) (arguments : Text) : Option Value :=
  match texts.fromStr arguments with
  | some _ => none
  | none => some (.object [
      ("codeseex_argument_parse_error", .string (texts.parseError arguments)),
      ("codeseex_malformed_arguments", .bool true),
      ("codeseex_raw_arguments", .string (truncateChars arguments maxMalformedArgumentsChars))])

namespace ToolContext

def isCodexToolSearchTool (context : ToolContext) (name : Text) : Bool :=
  ((context.entries.get name).map ToolEntry.kind) = some .codexToolSearch

/-- `item[key] = value` for a value that may be missing. -/
def setSome (item : Value) (key : Text) (value : Option Value) : Value :=
  value.elim item (item.set key)

def responseItemFromChatCallWithId (context : ToolContext) (texts : ItemTexts)
    (call : ChatToolCall) (itemId : Text) : Value :=
  let entry := context.entries.get call.name
  if context.isCodexToolSearchTool call.name then
    setSome (.object [
      ("arguments", parseToolArguments texts call.arguments), ("call_id", .string call.id),
      ("execution", .string "client"), ("id", .string itemId), ("status", .string "completed"),
      ("type", .string "tool_search_call")])
      "metadata" (malformedToolArgumentsMetadata texts call.arguments)
  else
    let item : Value := .object [
      ("arguments", .string call.arguments), ("call_id", .string call.id), ("id", .string itemId),
      ("name", .string ((entry.map ToolEntry.responseName).getD call.name)),
      ("status", .string "completed"), ("type", .string "function_call")]
    let item := setSome item "namespace" ((entry.bind ToolEntry.namespace_).map .string)
    let renamed := entry.filter fun entry => call.name ≠ entry.responseName
    setSome item "metadata" (renamed.map fun entry => .object [
      ("codeseex_response_name", .string entry.responseName),
      ("codeseex_upstream_name", .string call.name)])

def responseItemFromChatCall (context : ToolContext) (texts : ItemTexts) (itemId : Text)
    (call : ChatToolCall) : Value :=
  context.responseItemFromChatCallWithId texts call (("fc_" : Text) ++ itemId)

end ToolContext

/-! ## Other items -/

def reasoningResponseItem (texts : ItemTexts) (itemId reasoning : Text) : Value :=
  ToolContext.setSome (.object [
    ("content", .null), ("id", .string (("rs_" : Text) ++ itemId)), ("status", .string "completed"),
    ("summary", .array []), ("type", .string "reasoning")])
    "encrypted_content" ((texts.encodeReasoning reasoning).map .string)

/-- A finished message of the assistant. -/
def messageItem (itemId phase : Text) (part : Value) : Value :=
  .object [
    ("content", .array [part]), ("id", .string (("msg_" : Text) ++ itemId)),
    ("phase", .string phase), ("role", .string "assistant"), ("status", .string "completed"),
    ("type", .string "message")]

def outputTextPart (text : Text) : Value :=
  .object [("text", .string text), ("type", .string "output_text")]

/-! ## What the items say -/

theorem get_setSome_ne {item : Value} {key other : Text} (h : other ≠ key) (value : Option Value) :
    (ToolContext.setSome item key value).get other = item.get other := by
  cases value with
  | none => rfl
  | some value => exact Value.get_set_ne h value

theorem getStr_setSome_ne {item : Value} {key other : Text} (h : other ≠ key)
    (value : Option Value) :
    (ToolContext.setSome item key value).getStr other = item.getStr other := by
  rw [Value.getStr, get_setSome_ne h]
  rfl

/-- The types of the items that stand for a call. -/
def callItemTypes : List Text :=
  ["proxy_tool_call", "web_search_call", "custom_tool_call", "function_call", "tool_search_call"]

/-- The item stands for a call. -/
def isCallItem (item : Value) : Bool := (item.getStr "type").any (· ∈ callItemTypes)

/-- The item holds the result of a search. -/
def isSearchOutput (item : Value) : Bool := item.getStr "type" = some (Text.lit "web_search_call_output")

/-- The item stands for this call and for nothing else. -/
structure StandsFor (item : Value) (call : ChatToolCall) : Prop where
  callId : item.getStr "call_id" = some call.id
  isCall : isCallItem item = true
  isOutput : isSearchOutput item = false

/-- The item stands for no call and holds no result. -/
structure Silent (item : Value) : Prop where
  isCall : isCallItem item = false
  isOutput : isSearchOutput item = false

theorem standsFor_of_type {item : Value} {call : ChatToolCall} {type : Text}
    (hid : item.getStr "call_id" = some call.id) (htype : item.getStr "type" = some type)
    (hmem : type ∈ callItemTypes) : StandsFor item call := by
  have hnot : Text.lit "web_search_call_output" ∉ callItemTypes := by decide
  refine ⟨hid, ?_, ?_⟩
  · simpa [isCallItem, htype] using hmem
  · rw [isSearchOutput, htype, decide_eq_false_iff_not, Option.some.injEq]
    rintro rfl
    exact hnot hmem

theorem standsFor_proxyItem (itemId : Text) (call : ChatToolCall) :
    StandsFor (proxyItem texts itemId call) call := by
  rw [proxyItem]
  split_ifs
  · exact @standsFor_of_type _ _ "web_search_call" rfl rfl (by decide)
  · exact @standsFor_of_type _ _ "proxy_tool_call" rfl rfl (by decide)

theorem standsFor_native (itemId : Text) (call : ChatToolCall) :
    StandsFor (nativeApplyPatchResponseItemFromChatCall texts itemId call) call :=
  @standsFor_of_type _ _ "custom_tool_call" rfl rfl (by decide)

theorem standsFor_external (context : ToolContext) (texts : ItemTexts) (itemId : Text)
    (call : ChatToolCall) :
    StandsFor (context.responseItemFromChatCall texts itemId call) call := by
  rw [ToolContext.responseItemFromChatCall, ToolContext.responseItemFromChatCallWithId]
  split_ifs
  · refine @standsFor_of_type _ _ "tool_search_call" ?_ ?_ (by decide)
    · rw [getStr_setSome_ne (by decide)]
      rfl
    · rw [getStr_setSome_ne (by decide)]
      rfl
  · refine @standsFor_of_type _ _ "function_call" ?_ ?_ (by decide)
    · rw [getStr_setSome_ne (by decide), getStr_setSome_ne (by decide)]
      rfl
    · rw [getStr_setSome_ne (by decide), getStr_setSome_ne (by decide)]
      rfl

theorem silent_of_type {item : Value} {type : Text} (htype : item.getStr "type" = some type)
    (hcall : type ∉ callItemTypes) (houtput : type ≠ "web_search_call_output") : Silent item := by
  refine ⟨?_, ?_⟩
  · simpa [isCallItem, htype] using hcall
  · simpa [isSearchOutput, htype] using houtput

theorem silent_reasoning (itemId reasoning : Text) :
    Silent (reasoningResponseItem texts itemId reasoning) := by
  refine @silent_of_type _ "reasoning" ?_ (by decide) (by decide)
  rw [reasoningResponseItem, getStr_setSome_ne (by decide)]
  rfl

theorem silent_message (itemId phase : Text) (part : Value) :
    Silent (messageItem itemId phase part) :=
  @silent_of_type _ "message" rfl (by decide) (by decide)

theorem searchOutput_item (itemId : Text) (call : ChatToolCall) (output : Text) :
    isSearchOutput (webSearchCallOutputResponseItem itemId call output) = true ∧
      isCallItem (webSearchCallOutputResponseItem itemId call output) = false ∧
      (webSearchCallOutputResponseItem itemId call output).getStr "call_id" = some call.id :=
  ⟨rfl, rfl, rfl⟩

/-- The grouping of the calls does not change their order. -/
theorem loop_eq_map (toolCalls : List (Text × ChatToolCall)) (output proxyGroup : List Value) :
    proxyVisibleResponseItems.loop texts output proxyGroup toolCalls =
      output ++ proxyGroup ++ toolCalls.map fun (itemId, call) => proxyItem texts itemId call := by
  induction toolCalls generalizing output proxyGroup with
  | nil => simp [proxyVisibleResponseItems.loop]
  | cons first toolCalls ih =>
    obtain ⟨itemId, call⟩ := first
    rw [proxyVisibleResponseItems.loop]
    by_cases hsearch : isWebSearchTool call.name = true
    · rw [if_pos hsearch, ih]
      simp [proxyItem, hsearch]
    · rw [if_neg hsearch, ih]
      simp [proxyItem, hsearch]

theorem standsFor_items {items : Text → ChatToolCall → Value}
    (h : ∀ itemId call, StandsFor (items itemId call) call) (uuid : ℕ → Text) (fresh : ℕ)
    (toolCalls : List ChatToolCall) :
    List.Forall₂ StandsFor ((withIds uuid fresh toolCalls).map fun (itemId, call) =>
      items itemId call) toolCalls := by
  induction toolCalls generalizing fresh with
  | nil => exact .nil
  | cons call toolCalls ih => exact .cons (h _ _) (ih (fresh + 1))

theorem standsFor_proxyVisible (uuid : ℕ → Text) (fresh : ℕ) (toolCalls : List ChatToolCall) :
    List.Forall₂ StandsFor (proxyVisibleResponseItems texts uuid fresh toolCalls) toolCalls := by
  rw [proxyVisibleResponseItems, loop_eq_map, List.append_nil, List.nil_append]
  exact standsFor_items (standsFor_proxyItem texts) uuid fresh toolCalls

end CodeSeeX.Tools
