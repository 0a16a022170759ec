import CodeSeeX.General.BTreeMap
import CodeSeeX.Json

/-!
# Tools of the client

The declarations of a request, normalized to chat functions under names that are unique
among them, and the budget that they have to fit in.
-/
namespace CodeSeeX.Tools
open List

def codexToolSearchNames : List Text := ["tool_search_tool", "tool_search"]
def maxExternalToolDeclarations : ℕ := 128
def maxExternalToolDescriptionChars : ℕ := 2000
def maxExternalToolSchemaChars : ℕ := 24000
def maxExternalToolsPayloadChars : ℕ := 160000
def maxToolBudgetDiagnosticNames : ℕ := 20

inductive ToolEntryKind where
  | function
  | codexToolSearch
  deriving DecidableEq

structure ToolEntry where
  responseName : Text
  namespace_ : Option Text
  kind : ToolEntryKind

structure ToolBudgetStats where
  attemptedDeclarations : ℕ := 0
  acceptedDeclarations : ℕ := 0
  budgetedDeclarations : ℕ := 0
  exemptDeclarations : ℕ := 0
  payloadChars : ℕ := 0
  truncatedDescriptions : ℕ := 0
  droppedByCount : ℕ := 0
  droppedBySchemaSize : ℕ := 0
  droppedByPayloadSize : ℕ := 0
  droppedNames : List Text := []

structure ToolContext where
  entries : BTreeMap Text ToolEntry := BTreeMap.empty
  upstreamTools : List Value := []
  requestToolItems : ℕ := 0
  sourceNames : List Text := []
  discoveredToolItems : ℕ := 0
  budget : ToolBudgetStats := {}

structure ToolDeclaration where
  responseName : Text
  description : Text
  parameters : Value
  namespace_ : Option Text
  kind : ToolEntryKind

/-! ## Names -/

/-- `name.trim_matches('_').is_empty()` -/
def onlyUnderscores (name : Text) : Bool := name.all (· = '_')

def isToolNameChar (c : Char) : Bool := c.isAlphanum || c = '_' || c = '-'

def sanitizeToolName (name : Text) : Text :=
  let sanitized := name.map fun ch => if isToolNameChar ch then ch else '_'
  let truncated := sanitized.take 64
  if onlyUnderscores truncated then "tool" else truncated

def suffixedToolName (front : Text) (suffix : ℕ) : Text :=
  let suffix := '_' :: Text.ofNat suffix
  let base := front.take (64 - suffix.length)
  let base := if onlyUnderscores base then Text.lit "tool" else base
  sanitizeToolName (base ++ suffix)

/-- The candidates with a suffix, `fuel` of them; `uuid` is the random name behind the last. -/
def uniqueToolName.search (front uuid : Text) (taken : Text → Bool) : ℕ → ℕ → Text → Text
  | 0, _, _ => suffixedToolName (("tool_" : Text) ++ uuid) 2
  | fuel + 1, suffix, candidate =>
      if taken candidate then
        search front uuid taken fuel (suffix + 1) (suffixedToolName front suffix)
      else candidate

def uniqueToolName (uuid responseName : Text) (namespace_ : Option Text)
    (entries : BTreeMap Text ToolEntry) : Text :=
  let base := sanitizeToolName responseName
  let taken := fun name => (entries.get name).isSome
  if !taken base then base
  else
    let front := ((namespace_.map fun value => sanitizeToolName (value ++ '_' :: base)).filter
      (· ≠ [])).getD base
    uniqueToolName.search front uuid taken 9999 2 front

def isConflictingVisualTool (name : Text) : Bool :=
  name.trim.toAsciiLowercase ∈ (["imagegen", "imagegenext", "image_gen", "image_generation",
    "generate_image", "image_generate", "create_image", "vision_analyze", "vision_generate"] :
      List Text)

/-! ## Declarations -/

def truncateChars (value : Text) (maxChars : ℕ) : Text :=
  if value.length ≤ maxChars then value else value.take maxChars ++ "..."

def serializedJsonChars (value : Value) : ℕ := value.print.length

def firstString (candidates : List (Option Value)) (fallback : Text) : Text :=
  ((candidates.filterMap fun value => (value.bind Value.asStr).map Text.trim).find?
    (· ≠ [])).getD fallback

def emptySchema : Value :=
  .object [("properties", .object []), ("type", .string "object")]

def normalizeSchema (schema : Value) : Value :=
  match schema with
  | .object _ =>
      if (schema.get "type").isSome then schema
      else .object [
        ("additionalProperties", (schema.get "additionalProperties").getD (.bool true)),
        ("properties", (schema.get "properties").getD (.object [])),
        ("required", (schema.get "required").getD (.array [])),
        ("type", .string "object")]
  | _ => emptySchema

def toolType (tool : Value) : Text := ((tool.getStr "type").getD []).toAsciiLowercase

/-- The first text under one of the keys that is not blank. -/
def firstTrimmed (tool : Value) (keys : List Text) : Option Text :=
  (keys.filterMap fun key => (tool.getStr key).map Text.trim).find? (· ≠ [])

def namespaceFromTool (tool : Value) : Option Text :=
  match firstTrimmed tool ["namespace", "server_namespace", "server"] with
  | some value => some value
  | none =>
      if toolType tool = Text.lit "namespace" ∨
          (toolType tool = Text.lit "mcp" ∧ (tool.get "tools").isSome) then
        firstTrimmed tool ["name", "server_label"]
      else none

def isObject (value : Value) : Bool := value.asObject.isSome

def hasCallableShape (tool parameters : Value) : Bool :=
  (tool.getStr "name").isSome ||
    ((tool.getStr "server_label").isSome &&
      ((tool.get "description").isSome || isObject parameters))

def isCallableTool (tool parameters : Value) : Bool :=
  if tool.getStr "type" = some "function" ∨ (tool.get "function").isSome then true
  else if toolType tool = Text.lit "mcp" then hasCallableShape tool parameters
  else match (tool.get "tool").filter isObject with
    | some nested => hasCallableShape nested parameters
    | none => (tool.get "name").isSome && hasCallableShape tool parameters

def normalizeSingleTool (tool : Value) (index : ℕ) (namespace_ : Option Text) :
    Option ToolDeclaration :=
  if !isObject tool then none
  else
    let function := tool.get "function"
    let nestedTool := (tool.get "tool").filter isObject
    let name := firstString [tool.get "name", function.bind (·.get "name"),
      nestedTool.bind (·.get "name"), tool.get "server_label"]
      (("tool_" : Text) ++ Text.ofNat (index + 1))
    let description := firstString [tool.get "description", function.bind (·.get "description"),
      nestedTool.bind (·.get "description"), tool.get "title"] name
    let parameters := ((tool.get "parameters") <|> (function.bind (·.get "parameters")) <|>
      (tool.get "input_schema") <|> (tool.get "inputSchema") <|>
      (nestedTool.bind (·.get "input_schema")) <|> (nestedTool.bind (·.get "inputSchema")) <|>
      (nestedTool.bind (·.get "parameters"))).getD emptySchema
    if !isCallableTool tool parameters then none
    else some {
      responseName := sanitizeToolName name
      description := description
      parameters := normalizeSchema parameters
      namespace_ := namespace_
      kind := .function }

def normalizeToolDeclarations (tool : Value) (index : ℕ) : List ToolDeclaration :=
  let namespace_ := namespaceFromTool tool
  match (tool.get "tools").bind Value.asArray with
  | some nestedTools =>
      nestedTools.zipIdx.filterMap fun (nested, nestedIndex) =>
        normalizeSingleTool nested nestedIndex namespace_
  | none =>
      if toolType tool = Text.lit "mcp" then []
      else (normalizeSingleTool tool index namespace_).toList

/-! ## The context -/

/-- A chat function declaration. -/
def functionTool (name description : Text) (parameters : Value) : Value :=
  .object [
    ("function", .object [
      ("description", .string description),
      ("name", .string name),
      ("parameters", parameters)]),
    ("type", .string "function")]

/-- `tool.pointer("/function/name").and_then(Value::as_str)` -/
def functionName (tool : Value) : Option Text := (tool.pointer ["function", "name"]).bind Value.asStr

theorem functionName_functionTool (name description : Text) (parameters : Value) :
    functionName (functionTool name description parameters) = some name := rfl

namespace ToolContext

variable (context : ToolContext)

def hasExternalTool (name : Text) : Bool := (context.entries.get name).isSome

def upstreamNames : List Text := context.entries.keys

def hasResponseTool (name : Text) : Bool :=
  context.entries.values.any (·.responseName = name) || (context.entries.get name).isSome

def responseToolNames : List Text :=
  context.entries.values.map ToolEntry.responseName ++ context.entries.keys

def rememberDroppedToolName (budget : ToolBudgetStats) (name : Text) : ToolBudgetStats :=
  if budget.droppedNames.length < maxToolBudgetDiagnosticNames then
    { budget with droppedNames := budget.droppedNames ++ [name] }
  else budget

/-- The name that a declaration gets; the random names are numbered by the tools before them. -/
def upstreamName (uuid : ℕ → Text) (context : ToolContext) (declaration : ToolDeclaration) : Text :=
  uniqueToolName (uuid context.upstreamTools.length) declaration.responseName
    declaration.namespace_ context.entries

def toolValue (uuid : ℕ → Text) (context : ToolContext) (declaration : ToolDeclaration) : Value :=
  functionTool (upstreamName uuid context declaration) declaration.description
    declaration.parameters

def pushToolValue (uuid : ℕ → Text) (context : ToolContext) (declaration : ToolDeclaration) :
    ToolContext :=
  { context with
    upstreamTools := context.upstreamTools ++ [toolValue uuid context declaration]
    sourceNames := context.sourceNames ++ [declaration.responseName]
    entries := context.entries.insert (upstreamName uuid context declaration)
      ⟨declaration.responseName, declaration.namespace_, declaration.kind⟩ }

def truncateDescription (budget : ToolBudgetStats) (declaration : ToolDeclaration) :
    ToolBudgetStats × ToolDeclaration :=
  if maxExternalToolDescriptionChars < declaration.description.length then
    ({ budget with truncatedDescriptions := budget.truncatedDescriptions + 1 },
      { declaration with
        description :=
          truncateChars declaration.description (maxExternalToolDescriptionChars - 3) })
  else (budget, declaration)

def pushExternalDeclaration (uuid : ℕ → Text) (context : ToolContext)
    (declaration : ToolDeclaration) : ToolContext :=
  let budget := { context.budget with
    attemptedDeclarations := context.budget.attemptedDeclarations + 1 }
  if maxExternalToolDeclarations ≤ budget.budgetedDeclarations then
    { context with
      budget := rememberDroppedToolName { budget with droppedByCount := budget.droppedByCount + 1 }
        declaration.responseName }
  else if maxExternalToolSchemaChars < serializedJsonChars declaration.parameters then
    { context with
      budget := rememberDroppedToolName
        { budget with droppedBySchemaSize := budget.droppedBySchemaSize + 1 }
        declaration.responseName }
  else
    let (budget, declaration) := truncateDescription budget declaration
    let toolPayloadChars := serializedJsonChars (toolValue uuid context declaration)
    if maxExternalToolsPayloadChars < budget.payloadChars + toolPayloadChars then
      { context with
        budget := rememberDroppedToolName
          { budget with droppedByPayloadSize := budget.droppedByPayloadSize + 1 }
          declaration.responseName }
    else
      { pushToolValue uuid context declaration with
        budget := { budget with
          acceptedDeclarations := budget.acceptedDeclarations + 1
          payloadChars := budget.payloadChars + toolPayloadChars
          budgetedDeclarations := budget.budgetedDeclarations + 1 } }

def fromRequestTools (uuid : ℕ → Text) (tools : Option Value) : ToolContext :=
  match tools with
  | some (.array items) =>
      (items.zipIdx.flatMap fun (tool, index) => normalizeToolDeclarations tool index).foldl
        (fun context declaration =>
          if isConflictingVisualTool declaration.responseName then context
          else pushExternalDeclaration uuid context declaration)
        { requestToolItems := items.length }
  | _ => {}

def promoteCodexToolSearchTools (context : ToolContext) : ToolContext :=
  { context with
    entries := context.entries.mapValues fun entry =>
      if entry.responseName ∈ codexToolSearchNames then { entry with kind := .codexToolSearch }
      else entry }

def responseItemCallId (item : Value) : Option Text :=
  (((item.get "call_id") <|> (item.get "tool_call_id") <|> (item.get "id")).bind
    Value.asStr).filter fun value => value.trim ≠ []

def toolSearchOutputToolDeclarations (input : Value) (validPreviousCallIds : List Text) :
    List Value :=
  match input.asArray with
  | none => []
  | some items =>
      let validCallIds := validPreviousCallIds ++
        (items.filter fun item => item.getStr "type" = some (Text.lit "tool_search_call")).filterMap
          responseItemCallId
      (items.filter fun item =>
        item.getStr "type" = some (Text.lit "tool_search_output") &&
          ((responseItemCallId item).map fun id => decide (id ∈ validCallIds)).getD false).flatMap
        fun item => ((item.get "tools").bind Value.asArray).getD []

def countDiscovered (context : ToolContext) : ToolContext :=
  { context with discoveredToolItems := context.discoveredToolItems + 1 }

def addToolSearchOutputTools (uuid : ℕ → Text) (context : ToolContext) (input : Option Value)
    (validPreviousCallIds : List Text) : ToolContext :=
  let existingRequestTools := context.responseToolNames
  match input with
  | none => context
  | some input =>
      ((toolSearchOutputToolDeclarations input validPreviousCallIds).flatMap fun tool =>
        normalizeToolDeclarations tool context.requestToolItems).foldl
        (fun context declaration =>
          if isConflictingVisualTool declaration.responseName ∨
              declaration.responseName ∈ existingRequestTools then context
          else pushExternalDeclaration uuid (countDiscovered context) declaration)
        context

def codexToolSearchDeclaration : ToolDeclaration where
  responseName := "tool_search_tool"
  description := ("Search deferred Codex native tool metadata, such as sub-agents, " : Text) ++
    "computer-use, thread, automation, or plugin runtime tools, and expose matching tools " ++
    "for the next model turn."
  parameters := .object [
    ("additionalProperties", .bool false),
    ("properties", .object [
      ("limit", .object [
        ("description", .string "Maximum number of tool matches to return."),
        ("type", .string "integer")]),
      ("query", .object [
        ("description", .string (("Search query for deferred Codex tools, such as sub-agent, " :
          Text) ++ "computer-use, thread, automation, or plugin runtime tools.")),
        ("type", .string "string")])]),
    ("required", .array [.string "query"]),
    ("type", .string "object")]
  namespace_ := none
  kind := .codexToolSearch

def ensureCodexToolSearchBridge (uuid : ℕ → Text) (context : ToolContext) : ToolContext :=
  if context.hasResponseTool "tool_search_tool" || context.hasResponseTool "tool_search" then
    context
  else pushToolValue uuid context codexToolSearchDeclaration

/-! ## Declared names -/

/-- The tools that are declared are those that the client executes. -/
structure Declares (context : ToolContext) : Prop where
  named : ∀ tool ∈ context.upstreamTools, ∃ name ∈ context.upstreamNames, functionName tool = some name
  declared : ∀ name ∈ context.upstreamNames,
    ∃ tool ∈ context.upstreamTools, functionName tool = some name

variable {uuid : ℕ → Text} {context : ToolContext}

theorem Declares.congr {other : ToolContext} (h : Declares context)
    (htools : other.upstreamTools = context.upstreamTools)
    (hnames : other.upstreamNames = context.upstreamNames) : Declares other := by
  constructor
  · rw [htools, hnames]
    exact h.named
  · rw [htools, hnames]
    exact h.declared

theorem declares_empty (items : ℕ) : Declares { requestToolItems := items } := by
  constructor
  · intro tool htool
    cases htool
  · intro name hname
    cases hname

theorem mem_upstreamNames_push {declaration : ToolDeclaration} {name : Text} :
    name ∈ (pushToolValue uuid context declaration).upstreamNames ↔
      name = upstreamName uuid context declaration ∨ name ∈ context.upstreamNames := by
  show name ∈ (context.entries.insert _ _).keys ↔ _ ∨ name ∈ context.entries.keys
  rw [BTreeMap.mem_keys, BTreeMap.mem_keys]
  by_cases hname : name = upstreamName uuid context declaration
  · subst hname
    simp
  · rw [BTreeMap.get_insert_ne _ hname]
    simp [hname]

theorem Declares.push (h : Declares context) (declaration : ToolDeclaration) :
    Declares (pushToolValue uuid context declaration) := by
  constructor
  · intro tool htool
    rcases mem_append.mp htool with hold | hnew
    · obtain ⟨name, hname, heq⟩ := h.named tool hold
      exact ⟨name, mem_upstreamNames_push.mpr (Or.inr hname), heq⟩
    · refine ⟨_, mem_upstreamNames_push.mpr (Or.inl rfl), ?_⟩
      rw [mem_singleton.mp hnew]
      exact functionName_functionTool _ _ _
  · intro name hname
    rcases mem_upstreamNames_push.mp hname with rfl | hold
    · exact ⟨_, mem_append_right _ mem_cons_self, functionName_functionTool _ _ _⟩
    · obtain ⟨tool, htool, heq⟩ := h.declared name hold
      exact ⟨tool, mem_append_left _ htool, heq⟩

theorem Declares.pushExternal (h : Declares context) (declaration : ToolDeclaration) :
    Declares (pushExternalDeclaration uuid context declaration) := by
  rw [pushExternalDeclaration]
  split
  · exact h.congr rfl rfl
  · split
    · exact h.congr rfl rfl
    · dsimp only
      split
      · exact h.congr rfl rfl
      · exact (h.push _).congr rfl rfl

theorem Declares.foldl {skip : ToolDeclaration → Prop} [DecidablePred skip]
    {prepare : ToolContext → ToolContext} (h : Declares context)
    (hprepare : ∀ c, Declares c → Declares (prepare c)) (declarations : List ToolDeclaration) :
    Declares (declarations.foldl (fun context declaration =>
      if skip declaration then context
      else pushExternalDeclaration uuid (prepare context) declaration) context) := by
  induction declarations generalizing context with
  | nil => exact h
  | cons declaration declarations ih =>
    rw [foldl_cons]
    apply ih
    split_ifs
    · exact h
    · exact (hprepare context h).pushExternal declaration

theorem declares_fromRequestTools (uuid : ℕ → Text) (tools : Option Value) :
    Declares (fromRequestTools uuid tools) := by
  unfold fromRequestTools
  split
  · exact (declares_empty _).foldl (fun _ h => h) _
  · exact declares_empty 0

theorem Declares.promote (h : Declares context) : Declares (promoteCodexToolSearchTools context) :=
  h.congr rfl (BTreeMap.keys_mapValues _ _)

theorem Declares.addToolSearchOutput (h : Declares context) (input : Option Value)
    (validPreviousCallIds : List Text) :
    Declares (addToolSearchOutputTools uuid context input validPreviousCallIds) := by
  cases input with
  | none => exact h
  | some input =>
    have hcount : ∀ c, Declares c → Declares (countDiscovered c) := by
      intro c hc
      exact hc.congr rfl rfl
    exact h.foldl hcount _

theorem Declares.ensureBridge (h : Declares context) :
    Declares (ensureCodexToolSearchBridge uuid context) := by
  rw [ensureCodexToolSearchBridge]
  split
  · exact h
  · exact h.push _

end ToolContext

end CodeSeeX.Tools
