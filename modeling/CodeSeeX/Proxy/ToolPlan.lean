import CodeSeeX.Proxy.HostedLoop
import CodeSeeX.Proxy.NamespaceReconciliation

/-!
# The tool list of a native request

What the client declares is translated or forwarded as it is, the first declaration of an
identity being published, and the tools that CodeSeeX runs itself are added. A later
declaration of an identity is left out with all that it declares.
-/
namespace CodeSeeX.Native
open FirstWins Tools List

variable {entries : List (Option Text × Value)} (texts : Text → Text × Value) {identity : Text}
  {published : List Value} {definition : Value} {name : Text} {names : List Text}
  {e : Option Text × Value} {native : Value}

/-! ## Names -/

def toolName (definition : Value) : Option Text :=
  ((functionName definition) <|> definition.getStr "name").filter fun value => !value.isBlank

def isProviderNativeGroupedType (declaredType : Text) : Bool :=
  declaredType ∈ (["namespace", "tool_search"] : List Text)

def isProviderWebSearchType (declaredType : Text) : Bool :=
  declaredType ∈ (["web_search", "web_search_2025_08_26"] : List Text)

def isProviderWebSearchDefinition (definition : Value) : Bool :=
  (definition.getStr "type").any isProviderWebSearchType

def providerNativeIdentity (definition : Value) : Option Text :=
  if definition.getStr "type" = some ("tool_search" : Text) then some "tool_search" else none

def toolIdentity (definition : Value) : Text :=
  ((definition.getStr "name") <|> (functionName definition) <|>
    providerNativeIdentity definition).getD []

/-! ## Translation -/

/-- The declaration of a plain function. -/
def nativeFunction (definition : Value) (name : Text) : Value :=
  let function := (definition.get "function").getD definition
  let description := (((function.get "description") <|>
    definition.get "description").bind Value.asStr).getD []
  let parameters := ((function.get "parameters") <|> (function.get "input_schema") <|>
    (definition.get "parameters") <|> definition.get "input_schema").getD emptyObjectSchema
  let native : Value := .object [("description", .string description), ("name", .string name),
    ("parameters", parameters), ("type", .string "function")]
  match ((function.get "strict") <|> definition.get "strict").bind Value.asBool with
  | some strict => native.set "strict" (.bool strict)
  | none => native

def nativeApplyPatch (definition : Value) : Value :=
  let description := (((definition.pointer ["function", "description"]) <|>
    definition.get "description").bind Value.asStr).getD
      "Apply one complete native apply_patch document."
  .object [("description", .string description), ("name", .string "apply_patch"),
    ("type", .string "custom")]

def nativeDefinitionFromChat (definition : Value) (name : Text) : Value :=
  let declaredType := (definition.getStr "type").getD []
  if isProviderNativeGroupedType declaredType then definition
  else if declaredType = Text.lit "custom" then definition
  else if name = Text.lit "apply_patch" then nativeApplyPatch definition
  else if isProviderWebSearchType declaredType then .object [("type", .string "web_search")]
  else if declaredType ≠ Text.lit "function" then definition
  else nativeFunction definition name

/-! ## The hosted definitions -/

/-- The definitions that are published for the enabled tools. -/
def nativeHostableHostedToolDefinitions (texts : Text → Text × Value) (enabledIds : List Text) :
    List Value :=
  (nativeHostableHostedToolIds.filter (configurableToolEnabled · enabledIds)).filterMap
    (toolDefinition texts)

def localWebSearchToolDefinition (texts : Text → Text × Value) : Value :=
  functionTool "web_search" (texts "web_search").1 (texts "web_search").2

/-! ## The plan -/

structure NativeToolPlan where
  tools : List Value
  requiresLocalExecution : Bool
  requiresHostedWebSearch : Bool

/-- The variables of the planning loops. -/
structure ToolPlanning where
  tools : List Value := []
  names : List Text := []
  requiresLocalExecution : Bool := false
  requiresHostedWebSearch : Bool := false
  sawLocalWebSearch : Bool := false
  sawProviderWebSearch : Bool := false

/-- `if names.insert(identity) { tools.push(native) }` -/
def ToolPlanning.publish (p : ToolPlanning) (identity : Text) (native : Value) : ToolPlanning :=
  if identity ∈ p.names then p
  else { p with names := identity :: p.names, tools := p.tools ++ [native] }

/-- One declaration of the client. -/
def ToolPlanning.client (nativeHostedNames : List Text) (p : ToolPlanning) (definition : Value) :
    ToolPlanning :=
  if isProviderWebSearchDefinition definition then { p with sawProviderWebSearch := true }
  else
    match (toolName definition) <|> providerNativeIdentity definition with
    | none => { p with tools := p.tools ++ [definition] }
    | some name =>
        if name ∈ nativeHostedNames then { p with requiresLocalExecution := true }
        else
          let p :=
            if name ∈ (["web_search", "web_search_preview"] : List Text) then
              { p with
                sawLocalWebSearch := true
                requiresLocalExecution := true
                requiresHostedWebSearch := true }
            else p
          let native := nativeDefinitionFromChat definition name
          p.publish (toolIdentity native) native

/-- One definition that CodeSeeX hosts. -/
def ToolPlanning.hosted (p : ToolPlanning) (definition : Value) : ToolPlanning :=
  match toolName definition with
  | none => p
  | some name =>
      let native := nativeDefinitionFromChat definition name
      { p with requiresLocalExecution := true }.publish (toolIdentity native) native

/-- Web search belongs to CodeSeeX if anything asks for it. -/
def ToolPlanning.webSearch (texts : Text → Text × Value) (p : ToolPlanning) : ToolPlanning :=
  if p.sawProviderWebSearch || p.sawLocalWebSearch then
    let p := { p with requiresLocalExecution := true, requiresHostedWebSearch := true }
    if p.sawLocalWebSearch then p
    else p.publish "web_search"
      (nativeDefinitionFromChat (localWebSearchToolDefinition texts) "web_search")
  else p

def planNativeTools (texts : Text → Text × Value)
    (chatToolDefinitions nativeHostedDefinitions : List Value) : NativeToolPlan :=
  let nativeHostedNames := nativeHostedDefinitions.filterMap toolName
  let p := chatToolDefinitions.foldl (ToolPlanning.client nativeHostedNames) {}
  let p := (nativeHostedDefinitions.foldl ToolPlanning.hosted p).webSearch texts
  ⟨p.tools, p.requiresLocalExecution, p.requiresHostedWebSearch⟩

/-! ## What is published -/

/-- The name under which a declaration stays the client's. -/
def clientName (nativeHostedNames : List Text) (definition : Value) : Option Text :=
  if isProviderWebSearchDefinition definition then none
  else ((toolName definition) <|> providerNativeIdentity definition).filter fun name =>
    name ∉ nativeHostedNames

/-- A declaration that is forwarded without a name. -/
def isUnnamed (definition : Value) : Bool :=
  !isProviderWebSearchDefinition definition &&
    ((toolName definition) <|> providerNativeIdentity definition).isNone

/-- What a declaration of the client adds to the list: with an identity if it has a name. -/
def clientEntry (nativeHostedNames : List Text) (definition : Value) :
    Option (Option Text × Value) :=
  if isUnnamed definition then some (none, definition)
  else (clientName nativeHostedNames definition).map fun name =>
    (some (toolIdentity (nativeDefinitionFromChat definition name)),
      nativeDefinitionFromChat definition name)

def hostedEntry (definition : Value) : Option (Option Text × Value) :=
  (toolName definition).map fun name =>
    (some (toolIdentity (nativeDefinitionFromChat definition name)),
      nativeDefinitionFromChat definition name)

/-- Whether the client declares a search that CodeSeeX runs under the client's declaration. -/
def declaresLocalSearch (nativeHostedNames : List Text) (definition : Value) : Bool :=
  (clientName nativeHostedNames definition).any
    (· ∈ (["web_search", "web_search_preview"] : List Text))

/-- Whether the search of CodeSeeX stands in for the provider's. -/
def addsWebSearch (chatToolDefinitions : List Value) (nativeHostedNames : List Text) : Bool :=
  chatToolDefinitions.any isProviderWebSearchDefinition &&
    !chatToolDefinitions.any (declaresLocalSearch nativeHostedNames)

def searchEntry (texts : Text → Text × Value) : Option Text × Value :=
  (some "web_search", nativeDefinitionFromChat (localWebSearchToolDefinition texts) "web_search")

/-- Everything that is to be published, in order. -/
def planEntries (texts : Text → Text × Value)
    (chatToolDefinitions nativeHostedDefinitions : List Value) : List (Option Text × Value) :=
  let nativeHostedNames := nativeHostedDefinitions.filterMap toolName
  chatToolDefinitions.filterMap (clientEntry nativeHostedNames) ++
    nativeHostedDefinitions.filterMap hostedEntry ++
      if addsWebSearch chatToolDefinitions nativeHostedNames then [searchEntry texts] else []

/-- The loop variables behind some entries. -/
structure ToolPlanning.Holds (p : ToolPlanning) (entries : List (Option Text × Value)) : Prop where
  tools_eq : p.tools = (firstBy Prod.fst entries).map Prod.snd
  names_iff : ∀ name, name ∈ p.names ↔ name ∈ entries.filterMap Prod.fst

theorem ToolPlanning.Holds.publish {p : ToolPlanning} (h : p.Holds entries) (identity : Text)
    (native : Value) :
    (p.publish identity native).Holds (entries ++ [(some identity, native)]) := by
  have hconcat := (@firstBy_repeatsBy_concat _ _ _ Prod.fst entries (some identity, native)
    identity rfl).1
  have hkeys : (entries ++ [(some identity, native)]).filterMap Prod.fst =
      entries.filterMap Prod.fst ++ [identity] := by
    rw [filterMap_append]
    rfl
  rw [ToolPlanning.publish]
  split_ifs with hmem
  · refine ⟨?_, fun name => ?_⟩
    · rw [hconcat, if_pos ((h.names_iff identity).mp hmem), h.tools_eq]
    · rw [hkeys, mem_append, mem_singleton, ← h.names_iff]
      constructor
      · exact Or.inl
      · rintro (hname | rfl)
        · exact hname
        · exact hmem
  · refine ⟨?_, fun name => ?_⟩
    · rw [hconcat, if_neg (fun hin => hmem ((h.names_iff identity).mpr hin)), map_append,
        h.tools_eq]
      rfl
    · rw [hkeys, mem_cons, mem_append, mem_singleton, ← h.names_iff, or_comm]

theorem ToolPlanning.Holds.congr {p q : ToolPlanning} (h : p.Holds entries)
    (htools : q.tools = p.tools) (hnames : q.names = p.names) :
    q.Holds entries :=
  ⟨htools.trans h.tools_eq, fun name => hnames ▸ h.names_iff name⟩

@[simp] theorem publish_sawLocalWebSearch (p : ToolPlanning) (identity : Text) (native : Value) :
    (p.publish identity native).sawLocalWebSearch = p.sawLocalWebSearch := by
  rw [ToolPlanning.publish]
  split_ifs <;> rfl

@[simp] theorem publish_sawProviderWebSearch (p : ToolPlanning) (identity : Text)
    (native : Value) :
    (p.publish identity native).sawProviderWebSearch = p.sawProviderWebSearch := by
  rw [ToolPlanning.publish]
  split_ifs <;> rfl

/-- One declaration of the client adds its entry, and is noted if it asks for web search. -/
theorem ToolPlanning.Holds.client {names : List Text} {p : ToolPlanning}
    {entries : List (Option Text × Value)} (h : p.Holds entries) (definition : Value) :
    (p.client names definition).Holds (entries ++ (clientEntry names definition).toList) ∧
      (p.client names definition).sawProviderWebSearch =
        (p.sawProviderWebSearch || isProviderWebSearchDefinition definition) ∧
      (p.client names definition).sawLocalWebSearch =
        (p.sawLocalWebSearch || declaresLocalSearch names definition) := by
  by_cases hprovider : isProviderWebSearchDefinition definition
  · have hentry : clientEntry names definition = none := by
      simp [clientEntry, isUnnamed, clientName, hprovider]
    rw [ToolPlanning.client, if_pos hprovider, hentry]
    refine ⟨?_, by simp [hprovider], by simp [declaresLocalSearch, clientName, hprovider]⟩
    rw [Option.toList_none, append_nil]
    exact h.congr rfl rfl
  rw [ToolPlanning.client, if_neg hprovider]
  cases hname : (toolName definition) <|> providerNativeIdentity definition with
  | none =>
    have hentry : clientEntry names definition = some (none, definition) := by
      simp [clientEntry, isUnnamed, hprovider, hname]
    rw [hentry]
    refine ⟨⟨?_, fun name => ?_⟩, by simp [hprovider],
      by simp [declaresLocalSearch, clientName, hprovider, hname]⟩
    · rw [Option.toList_some, firstBy_concat_unkeyed rfl, map_append, h.tools_eq]
      rfl
    · rw [Option.toList_some, filterMap_append, h.names_iff]
      simp
  | some name =>
    dsimp only
    have hunnamed : isUnnamed definition = false := by simp [isUnnamed, hname]
    split_ifs with hhosted hsearch
    · have hclient : clientName names definition = none := by
        simp [clientName, hprovider, hname, hhosted]
      have hentry : clientEntry names definition = none := by simp [clientEntry, hunnamed, hclient]
      rw [hentry]
      refine ⟨?_, by simp [hprovider], by simp [declaresLocalSearch, hclient]⟩
      rw [Option.toList_none, append_nil]
      exact h.congr rfl rfl
    all_goals
      have hclient : clientName names definition = some name := by
        simp [clientName, hprovider, hname, hhosted]
      have hentry : clientEntry names definition =
          some (some (toolIdentity (nativeDefinitionFromChat definition name)),
            nativeDefinitionFromChat definition name) := by
        simp [clientEntry, hunnamed, hclient]
      rw [hentry]
    · have hnext : ({ p with
          sawLocalWebSearch := true
          requiresLocalExecution := true
          requiresHostedWebSearch := true } : ToolPlanning).Holds entries := h.congr rfl rfl
      have hlocal : declaresLocalSearch names definition = true := by
        rw [declaresLocalSearch, hclient]
        exact decide_eq_true hsearch
      exact ⟨hnext.publish _ _, by simp [hprovider], by simp [hlocal]⟩
    · have hlocal : declaresLocalSearch names definition = false := by
        rw [declaresLocalSearch, hclient]
        exact decide_eq_false hsearch
      exact ⟨h.publish _ _, by simp [hprovider], by simp [hlocal]⟩

theorem client_run (names : List Text) (definitions : List Value) :
    (definitions.foldl (ToolPlanning.client names) {}).Holds
        (definitions.filterMap (clientEntry names)) ∧
      (definitions.foldl (ToolPlanning.client names) {}).sawProviderWebSearch =
        definitions.any isProviderWebSearchDefinition ∧
      (definitions.foldl (ToolPlanning.client names) {}).sawLocalWebSearch =
        definitions.any (declaresLocalSearch names) := by
  induction definitions using reverseRecOn with
  | nil => exact ⟨⟨rfl, fun name => by simp⟩, rfl, rfl⟩
  | append_singleton definitions definition ih =>
    obtain ⟨hholds, hprovider, hlocal⟩ := @ToolPlanning.Holds.client names _ _ ih.1 definition
    rw [foldl_append, foldl_cons, foldl_nil, any_append, any_append,
      filterMap_append]
    refine ⟨?_, ?_, ?_⟩
    · have hone : [definition].filterMap (clientEntry names) =
          (clientEntry names definition).toList := by
        cases hentry : clientEntry names definition <;> simp [hentry]
      rw [hone]
      exact hholds
    · rw [hprovider, ih.2.1]
      simp
    · rw [hlocal, ih.2.2]
      simp

theorem hosted_run {p : ToolPlanning} (h : p.Holds entries) (definitions : List Value) :
    (definitions.foldl ToolPlanning.hosted p).Holds
        (entries ++ definitions.filterMap hostedEntry) ∧
      (definitions.foldl ToolPlanning.hosted p).sawProviderWebSearch = p.sawProviderWebSearch ∧
      (definitions.foldl ToolPlanning.hosted p).sawLocalWebSearch = p.sawLocalWebSearch := by
  induction definitions generalizing p entries with
  | nil => exact ⟨by rw [filterMap_nil, append_nil]; exact h, rfl, rfl⟩
  | cons definition definitions ih =>
    rw [foldl_cons, ToolPlanning.hosted]
    cases hname : toolName definition with
    | none =>
      have hentry : hostedEntry definition = none := by simp [hostedEntry, hname]
      rw [filterMap_cons_none hentry]
      exact ih h
    | some name =>
      have hentry : hostedEntry definition =
          some (some (toolIdentity (nativeDefinitionFromChat definition name)),
            nativeDefinitionFromChat definition name) := by
        simp [hostedEntry, hname]
      rw [filterMap_cons_some hentry, append_cons]
      have hnext : ({ p with requiresLocalExecution := true } : ToolPlanning).Holds entries :=
        h.congr rfl rfl
      obtain ⟨hholds, hprovider, hlocal⟩ := ih (hnext.publish
        (toolIdentity (nativeDefinitionFromChat definition name))
        (nativeDefinitionFromChat definition name))
      rw [publish_sawProviderWebSearch] at hprovider
      rw [publish_sawLocalWebSearch] at hlocal
      exact ⟨hholds, hprovider, hlocal⟩

/-- The published tools are the first entries of their identities. -/
theorem planNativeTools_tools (chatToolDefinitions nativeHostedDefinitions : List Value) :
    (planNativeTools texts chatToolDefinitions nativeHostedDefinitions).tools =
      (firstBy Prod.fst
        (planEntries texts chatToolDefinitions nativeHostedDefinitions)).map Prod.snd := by
  obtain ⟨hclient, hprovider, hlocal⟩ :=
    client_run (nativeHostedDefinitions.filterMap toolName) chatToolDefinitions
  obtain ⟨hhosted, hprovider', hlocal'⟩ := hosted_run hclient nativeHostedDefinitions
  rw [hprovider] at hprovider'
  rw [hlocal] at hlocal'
  rw [planNativeTools, planEntries]
  generalize nativeHostedDefinitions.foldl ToolPlanning.hosted _ = p at hhosted hprovider' hlocal' ⊢
  refine ToolPlanning.Holds.tools_eq ?_
  rw [ToolPlanning.webSearch, hprovider', hlocal', addsWebSearch]
  by_cases hsearch : chatToolDefinitions.any
      (declaresLocalSearch (nativeHostedDefinitions.filterMap toolName))
  · simp only [hsearch, Bool.or_true, if_true, Bool.not_true, Bool.and_false]
    rw [if_neg Bool.false_ne_true, append_nil]
    exact hhosted.congr rfl rfl
  · have hsearch := Bool.eq_false_iff.mpr hsearch
    by_cases hprovides : chatToolDefinitions.any isProviderWebSearchDefinition
    · simp only [hsearch, hprovides, Bool.true_or, if_true, Bool.not_false, Bool.and_true]
      refine ToolPlanning.Holds.publish ?_ _ _
      exact hhosted.congr rfl rfl
    · have hprovides := Bool.eq_false_iff.mpr hprovides
      simp only [hsearch, hprovides, Bool.or_false, Bool.false_and]
      rw [if_neg Bool.false_ne_true, if_neg Bool.false_ne_true, append_nil]
      exact hhosted

/-! ## Callable tools -/

/-- A tool as the model calls it: by its kind and name, and by a nested tool if the declaration
groups some. -/
structure CallableTool where
  kind : Option Text
  name : Text
  nested : Option Text
  deriving DecidableEq

/-- What a declaration of a kind and an identity makes callable: itself, or its nested tools. -/
def callableAs (kind : Option Text) (identity : Text) (nested : List Value) : List CallableTool :=
  if identity.isBlank then []
  else if nested.isEmpty then [⟨kind, identity, none⟩]
  else nested.map fun entry => ⟨kind, identity, some (nestedToolIdentity entry)⟩

/-- What a published declaration makes callable. -/
def callableTools (tool : Value) : List CallableTool :=
  callableAs (tool.getStr "type") (toolIdentity tool) (arrayOf tool "tools")

/-- What the client declares: its own nested tools under the kind that is published. -/
def declaredTools (definition : Value) (name : Text) : List CallableTool :=
  let native := nativeDefinitionFromChat definition name
  callableAs (native.getStr "type") (toolIdentity native) (arrayOf definition "tools")

theorem name_of_mem_callableAs {kind : Option Text} {nested : List Value} {c : CallableTool}
    (h : c ∈ callableAs kind identity nested) :
    c.name = identity ∧ identity.isBlank = false := by
  rw [callableAs] at h
  split_ifs at h with hblank hempty
  · exact absurd h not_mem_nil
  · rw [mem_singleton] at h
    exact ⟨by rw [h], Bool.eq_false_iff.mpr hblank⟩
  · obtain ⟨_, _, rfl⟩ := mem_map.mp h
    exact ⟨rfl, Bool.eq_false_iff.mpr hblank⟩

/-- The identities of the tools that have one. -/
def ownIdentities (tools : List Value) : List Text :=
  (tools.map toolIdentity).filter fun identity => !identity.isBlank

/-- The declarations of the client that have a name of their own, as they are published. -/
def clientNatives (nativeHostedNames : List Text) (definitions : List Value) : List Value :=
  definitions.filterMap fun definition =>
    (clientName nativeHostedNames definition).map (nativeDefinitionFromChat definition)

/-- No tool is lost: the identities are distinct, a hosted definition is the one tool of its
name, and what the client's other declarations make callable is callable. -/
structure LosesNoTool (definitions hosted published : List Value) : Prop where
  identities_nodup : (ownIdentities published).Nodup
  hosted_once : ∀ definition ∈ hosted, ∀ name, toolName definition = some name →
    published.filter (toolIdentity · = name) = [nativeDefinitionFromChat definition name]
  kept : ∀ definition ∈ definitions, ∀ name,
    clientName (hosted.filterMap toolName) definition = some name →
      ∀ c ∈ declaredTools definition name, ∃ tool ∈ published, c ∈ callableTools tool

/-- The declarations of the client get along with one another and with the hosted ones. -/
structure Compatible (definitions hosted : List Value) : Prop where
  /-- A declaration has no tool that the first one of its identity does not make callable. -/
  covered : ∀ definition ∈ definitions, ∀ name,
    clientName (hosted.filterMap toolName) definition = some name → ∀ first,
      (clientNatives (hosted.filterMap toolName) definitions).find?
          (toolIdentity · = toolIdentity (nativeDefinitionFromChat definition name)) = some first →
        declaredTools definition name ⊆ callableTools first
  /-- None has the name of a hosted tool besides the name that it is called by. -/
  hosted_free : ∀ native ∈ clientNatives (hosted.filterMap toolName) definitions,
    toolIdentity native ∉ hosted.filterMap toolName
  /-- Those that cannot be called by a name have distinct names otherwise, -/
  unnamed_nodup : (ownIdentities (definitions.filter isUnnamed)).Nodup
  /-- and none that is published. -/
  unnamed_free : ∀ identity ∈ ownIdentities (definitions.filter isUnnamed),
    identity ∉ (clientNatives (hosted.filterMap toolName) definitions).map toolIdentity ∧
      identity ∉ hosted.filterMap toolName ∧
      (addsWebSearch definitions (hosted.filterMap toolName) → identity ≠ Text.lit "web_search")

/-! ### Identities -/

/-- The identities of a list: those that are keys and those of the elements without a key. -/
theorem identities_perm
    (h : ∀ e ∈ entries, ∀ identity, e.1 = some identity → identity = toolIdentity e.2) :
    (entries.map fun e => toolIdentity e.2).Perm (entries.filterMap Prod.fst ++
      (entries.filter fun e => e.1 = none).map fun e => toolIdentity e.2) := by
  induction entries with
  | nil => exact Perm.nil
  | cons e entries ih =>
    have ih := ih fun e' he' => h e' (mem_cons_of_mem _ he')
    cases hkey : e.1 with
    | none =>
      rw [filterMap_cons_none hkey, filter_cons_of_pos (by simp [hkey]), map_cons,
        map_cons]
      exact (ih.cons _).trans perm_middle.symm
    | some identity =>
      rw [filterMap_cons_some hkey, filter_cons_of_neg (by simp [hkey]), map_cons,
        ← h e mem_cons_self identity hkey]
      exact ih.cons _

/-- Published identities are distinct exactly if those without a key are, among one another and
from the keys. -/
theorem nodup_ownIdentities_iff
    (h : ∀ e ∈ entries, ∀ identity, e.1 = some identity → identity = toolIdentity e.2) :
    (ownIdentities ((firstBy Prod.fst entries).map Prod.snd)).Nodup ↔
      (ownIdentities ((entries.filter fun e => e.1 = none).map Prod.snd)).Nodup ∧
        ∀ identity ∈ ownIdentities ((entries.filter fun e => e.1 = none).map Prod.snd),
          identity ∉ entries.filterMap Prod.fst := by
  have hperm := identities_perm fun e he =>
    h e ((@keep_sublist _ _ _ Prod.fst [] entries).subset he)
  rw [keep_unkeyed, ← firstBy] at hperm
  have hpublished : ((firstBy Prod.fst entries).map Prod.snd).map toolIdentity =
      (firstBy Prod.fst entries).map fun e => toolIdentity e.2 := by
    rw [map_map]
    rfl
  have hunnamed : ((entries.filter fun e => e.1 = none).map Prod.snd).map toolIdentity =
      (entries.filter fun e => e.1 = none).map fun e => toolIdentity e.2 := by
    rw [map_map]
    rfl
  rw [ownIdentities, ownIdentities, hpublished, hunnamed,
    (hperm.filter fun identity => !identity.isBlank).nodup_iff, filter_append,
    nodup_append]
  constructor
  · rintro ⟨_, hnodup, hdisjoint⟩
    refine ⟨hnodup, fun identity hmem hkey => ?_⟩
    have hkept := mem_keys_firstBy.mpr hkey
    exact hdisjoint identity (mem_filter.mpr ⟨hkept, (mem_filter.mp hmem).2⟩)
      identity hmem rfl
  · rintro ⟨hnodup, hdisjoint⟩
    refine ⟨(nodup_keys_firstBy entries).filter _, hnodup, ?_⟩
    rintro identity hkey other hmem rfl
    exact hdisjoint identity hmem (mem_keys_firstBy.mp (mem_of_mem_filter hkey))

/-- Where identities are distinct, a tool is the only one of its identity. -/
theorem filter_identity_eq (h : (ownIdentities published).Nodup) {tool : Value}
    (hmem : tool ∈ published) (hown : (toolIdentity tool).isBlank = false) :
    published.filter (toolIdentity · = toolIdentity tool) = [tool] := by
  induction published with
  | nil => exact absurd hmem not_mem_nil
  | cons first rest ih =>
    by_cases hfirst : toolIdentity first = toolIdentity tool
    · have hself : (!(toolIdentity first).isBlank) = true := by rw [hfirst, hown]; rfl
      rw [ownIdentities, map_cons, filter_cons_of_pos (p := fun identity : Text =>
        !identity.isBlank) hself, nodup_cons] at h
      have hrest : ∀ other ∈ rest, toolIdentity other ≠ toolIdentity tool := by
        intro other hother heq
        refine h.1 (mem_filter.mpr ⟨?_, hself⟩)
        rw [hfirst, ← heq]
        exact mem_map_of_mem hother
      have htool : tool = first := by
        rcases mem_cons.mp hmem with heq | hin
        · exact heq
        · exact absurd rfl (hrest tool hin)
      rw [filter_cons_of_pos (by simpa using hfirst), filter_eq_nil_iff.mpr ?_, htool]
      intro other hother
      simpa using hrest other hother
    · have hne : tool ≠ first := by
        rintro rfl
        exact hfirst rfl
      rw [filter_cons_of_neg (by simpa using hfirst)]
      refine ih (h.sublist ?_) ((mem_cons.mp hmem).resolve_left hne)
      exact ((sublist_cons_self first rest).map toolIdentity).filter _

theorem eq_of_identity (h : (ownIdentities published).Nodup) {tool other : Value}
    (hmem : tool ∈ published) (hother : other ∈ published)
    (hsame : toolIdentity other = toolIdentity tool) (hown : (toolIdentity tool).isBlank = false) :
    other = tool := by
  have hin : other ∈ published.filter (toolIdentity · = toolIdentity tool) :=
    mem_filter.mpr ⟨hother, by simpa using hsame⟩
  rw [filter_identity_eq h hmem hown] at hin
  exact mem_singleton.mp hin

/-! ### The entries of a plan -/

theorem toolIdentity_nativeFunction (definition : Value) (name : Text) :
    toolIdentity (nativeFunction definition name) = name := by
  have hname : (nativeFunction definition name).getStr "name" = some name := by
    rw [nativeFunction]
    cases ((((definition.get "function").getD definition).get "strict") <|>
        definition.get "strict").bind Value.asBool with
    | none => rfl
    | some strict =>
      rfl
  rw [toolIdentity, hname]
  rfl

/-- Only what is translated to a function is one. -/
theorem toolIdentity_of_function
    (h : (nativeDefinitionFromChat definition name).getStr "type" = some (Text.lit "function")) :
    toolIdentity (nativeDefinitionFromChat definition name) = name := by
  rw [nativeDefinitionFromChat] at h ⊢
  split_ifs at h ⊢ with hgrouped hcustom hpatch hsearch hother
  · rw [h] at hgrouped
    exact absurd hgrouped (by decide)
  · rw [h] at hcustom
    exact absurd hcustom (by decide)
  · have htype : (nativeApplyPatch definition).getStr "type" = some (Text.lit "custom") := rfl
    exact absurd (htype.symm.trans h) (by decide)
  · exact absurd h (by decide)
  · rw [h] at hother
    exact absurd rfl hother
  · exact toolIdentity_nativeFunction definition name

theorem hosted_eq (enabledIds : List Text) :
    nativeHostableHostedToolDefinitions texts enabledIds =
      if configurableToolEnabled "image_gen" enabledIds then
        [functionTool "image_gen" (texts "image_gen").1 (texts "image_gen").2] else [] := by
  rw [nativeHostableHostedToolDefinitions, nativeHostableHostedToolIds]
  split_ifs with henabled
  · rw [filter_cons_of_pos (p := (configurableToolEnabled · enabledIds)) henabled]
    rfl
  · rw [filter_cons_of_neg (p := (configurableToolEnabled · enabledIds)) henabled]
    rfl

/-- Hosted definitions are functions with distinct names, and are published under them. -/
structure HostedSpec (hosted : List Value) : Prop where
  named : ∀ definition ∈ hosted, ∃ name, name.isBlank = false ∧ toolName definition = some name ∧
    nativeDefinitionFromChat definition name = nativeFunction definition name ∧
    (nativeFunction definition name).getStr "type" = some (Text.lit "function")
  nodup : (hosted.filterMap toolName).Nodup

theorem hosted_spec (enabledIds : List Text) :
    HostedSpec (nativeHostableHostedToolDefinitions texts enabledIds) := by
  rw [hosted_eq]
  split_ifs
  · refine ⟨fun definition h => ?_, nodup_singleton _⟩
    rw [mem_singleton] at h
    subst h
    exact ⟨"image_gen", by decide, rfl, rfl, rfl⟩
  · exact ⟨fun definition h => absurd h not_mem_nil, nodup_nil⟩

/-- A hosted definition adds a function under its name. -/
theorem HostedSpec.entry {hosted : List Value} (h : HostedSpec hosted) (hmem : definition ∈ hosted)
    (hname : toolName definition = some name) :
    hostedEntry definition = some (some name, nativeDefinitionFromChat definition name) ∧
      toolIdentity (nativeDefinitionFromChat definition name) = name ∧
      (nativeDefinitionFromChat definition name).getStr "type" = some (Text.lit "function") ∧
      name.isBlank = false := by
  obtain ⟨other, hblank, hother, hnative, htype⟩ := h.named definition hmem
  obtain rfl : other = name := Option.some.inj (hother.symm.trans hname)
  have hidentity : toolIdentity (nativeDefinitionFromChat definition other) = other := by
    rw [hnative, toolIdentity_nativeFunction]
  refine ⟨?_, hidentity, hnative ▸ htype, hblank⟩
  rw [hostedEntry, hname, Option.map_some, hidentity]

theorem HostedSpec.tail {first : Value} {rest : List Value} (h : HostedSpec (first :: rest)) :
    HostedSpec rest where
  named definition hmem := h.named definition (mem_cons_of_mem _ hmem)
  nodup := h.nodup.sublist ((sublist_cons_self first rest).filterMap toolName)

theorem HostedSpec.find {hosted : List Value} (h : HostedSpec hosted) {definition : Value}
    (hmem : definition ∈ hosted) {name : Text} (hname : toolName definition = some name) :
    (hosted.filterMap hostedEntry).find? (fun e => e.1 = some name) =
      some (some name, nativeDefinitionFromChat definition name) := by
  induction hosted with
  | nil => exact absurd hmem not_mem_nil
  | cons first rest ih =>
    obtain ⟨other, _, hother, _⟩ := h.named first mem_cons_self
    rw [filterMap_cons_some (h.entry mem_cons_self hother).1, find?_cons]
    rcases mem_cons.mp hmem with heq | hmem
    · subst heq
      obtain rfl : other = name := Option.some.inj (hother.symm.trans hname)
      simp
    · have hnodup := h.nodup
      rw [filterMap_cons_some hother, nodup_cons] at hnodup
      have hne : other ≠ name := by
        rintro rfl
        exact hnodup.1 (mem_filterMap.mpr ⟨definition, hmem, hname⟩)
      rw [ih h.tail hmem]
      simp [hne]

section Entries
variable (texts : Text → Text × Value) (definitions hosted : List Value)

theorem clientEntry_spec (h : clientEntry names definition = some e) :
    (isUnnamed definition = true ∧ e = (none, definition)) ∨
      ∃ name, clientName names definition = some name ∧
        e = (some (toolIdentity (nativeDefinitionFromChat definition name)),
          nativeDefinitionFromChat definition name) := by
  rw [clientEntry] at h
  split_ifs at h with hunnamed
  · exact Or.inl ⟨hunnamed, (Option.some.inj h).symm⟩
  · obtain ⟨name, hname, rfl⟩ := Option.map_eq_some_iff.mp h
    exact Or.inr ⟨name, hname, rfl⟩

/-- The key of an entry is the identity of its tool. -/
theorem key_eq_toolIdentity (h : e ∈ planEntries texts definitions hosted) (identity : Text)
    (hkey : e.1 = some identity) : identity = toolIdentity e.2 := by
  rw [planEntries, mem_append, mem_append] at h
  rcases h with (hclient | hhosted) | hsearch
  · obtain ⟨definition, _, hentry⟩ := mem_filterMap.mp hclient
    rcases clientEntry_spec hentry with ⟨_, rfl⟩ | ⟨name, _, rfl⟩
    · cases hkey
    · exact (Option.some.inj hkey).symm
  · obtain ⟨definition, _, hentry⟩ := mem_filterMap.mp hhosted
    obtain ⟨name, _, rfl⟩ := Option.map_eq_some_iff.mp hentry
    exact (Option.some.inj hkey).symm
  · split_ifs at hsearch
    · rw [mem_singleton] at hsearch
      subst hsearch
      exact (Option.some.inj hkey).symm
    · exact absurd hsearch not_mem_nil

theorem clientName_of_isUnnamed (h : isUnnamed definition = true) :
    clientName names definition = none := by
  rw [isUnnamed, Bool.and_eq_true, Option.isNone_iff_eq_none] at h
  rw [clientName, h.2]
  split_ifs <;> rfl

/-- The keys of the client's entries are the identities of its named declarations. -/
theorem client_keys (names : List Text) :
    (definitions.filterMap (clientEntry names)).filterMap Prod.fst =
      (clientNatives names definitions).map toolIdentity := by
  rw [filterMap_filterMap, clientNatives, map_filterMap]
  refine filterMap_congr fun definition _ => ?_
  rw [clientEntry]
  split_ifs with hunnamed
  · rw [clientName_of_isUnnamed hunnamed]
    rfl
  · cases clientName names definition <;> rfl

/-- The first entry of an identity is the first of the client's declarations that has it. -/
theorem client_find (names : List Text) (identity : Text) :
    (definitions.filterMap (clientEntry names)).find? (fun e => e.1 = some identity) =
      ((clientNatives names definitions).find? (toolIdentity · = identity)).map fun native =>
        (some identity, native) := by
  induction definitions with
  | nil => rfl
  | cons definition definitions ih =>
    cases hentry : clientEntry names definition with
    | none =>
      have hclient : clientName names definition = none := by
        rw [clientEntry] at hentry
        split_ifs at hentry
        exact Option.map_eq_none_iff.mp hentry
      rw [filterMap_cons_none hentry, ih, clientNatives, clientNatives,
        filterMap_cons_none (by rw [hclient]; rfl)]
    | some e =>
      rw [filterMap_cons_some hentry, find?_cons]
      rcases clientEntry_spec hentry with ⟨hunnamed, rfl⟩ | ⟨name, hclient, rfl⟩
      · rw [ih, clientNatives, clientNatives,
          filterMap_cons_none (by rw [clientName_of_isUnnamed hunnamed]; rfl)]
        rfl
      · rw [ih, clientNatives, clientNatives, filterMap_cons_some (by rw [hclient]; rfl),
          find?_cons]
        by_cases hsame : toolIdentity (nativeDefinitionFromChat definition name) = identity
        · simp [hsame]
        · simp [hsame]

theorem client_unkeyed (names : List Text) :
    ((definitions.filterMap (clientEntry names)).filter fun e => e.1 = none).map Prod.snd =
      definitions.filter isUnnamed := by
  induction definitions with
  | nil => rfl
  | cons definition definitions ih =>
    by_cases hunnamed : isUnnamed definition = true
    · have hentry : clientEntry names definition = some (none, definition) := if_pos hunnamed
      rw [filterMap_cons_some hentry, filter_cons_of_pos (by simp), map_cons, ih,
        filter_cons_of_pos hunnamed]
    · rw [filter_cons_of_neg hunnamed, ← ih]
      cases hentry : clientEntry names definition with
      | none => rw [filterMap_cons_none hentry]
      | some e =>
        rcases clientEntry_spec hentry with ⟨hmem, _⟩ | ⟨name, _, rfl⟩
        · exact absurd hmem hunnamed
        · rw [filterMap_cons_some hentry, filter_cons_of_neg (by simp)]

variable {definitions hosted} (h : HostedSpec hosted)
include h

theorem hosted_keys : (hosted.filterMap hostedEntry).filterMap Prod.fst =
    hosted.filterMap toolName := by
  rw [filterMap_filterMap]
  refine filterMap_congr fun definition hmem => ?_
  obtain ⟨name, _, hname, _⟩ := h.named definition hmem
  rw [(h.entry hmem hname).1, hname]
  rfl

omit h in
theorem mem_search_iff :
    identity ∈ (if addsWebSearch definitions names then [searchEntry texts] else []).filterMap
        Prod.fst ↔
      addsWebSearch definitions names = true ∧ identity = Text.lit "web_search" := by
  split_ifs with hadds
  · simp [hadds, searchEntry]
  · simp [hadds]

/-- The identities that are keys. -/
theorem mem_keys_iff :
    identity ∈ (planEntries texts definitions hosted).filterMap Prod.fst ↔
      identity ∈ (clientNatives (hosted.filterMap toolName) definitions).map toolIdentity ∨
        identity ∈ hosted.filterMap toolName ∨
        (addsWebSearch definitions (hosted.filterMap toolName) = true ∧
          identity = Text.lit "web_search") := by
  rw [planEntries, filterMap_append, filterMap_append, mem_append, mem_append,
    client_keys, hosted_keys h, mem_search_iff, or_assoc]

/-- The entries without a key are the declarations without a name. -/
theorem unkeyed_eq : ((planEntries texts definitions hosted).filter fun e => e.1 = none).map
    Prod.snd = definitions.filter isUnnamed := by
  have hhosted : (hosted.filterMap hostedEntry).filter (fun e => e.1 = none) = [] := by
    rw [filter_eq_nil_iff]
    intro e he
    obtain ⟨definition, hmem, hentry⟩ := mem_filterMap.mp he
    obtain ⟨name, _, hname, _⟩ := h.named definition hmem
    rw [(h.entry hmem hname).1] at hentry
    rw [← Option.some.inj hentry]
    simp
  have hsearch : (if addsWebSearch definitions (hosted.filterMap toolName) then
      [searchEntry texts] else []).filter (fun e => e.1 = none) = [] := by
    split_ifs <;> simp [searchEntry]
  rw [planEntries, filter_append, filter_append, hhosted, hsearch, append_nil,
    append_nil, client_unkeyed]

omit h in
/-- The first of the client's declarations of an identity is published. -/
theorem mem_published_client (hfind : (clientNatives (hosted.filterMap toolName) definitions).find?
      (toolIdentity · = identity) = some native) :
    native ∈ (planNativeTools texts definitions hosted).tools := by
  rw [planNativeTools_tools, mem_map]
  refine ⟨(some identity, native), (@mem_firstBy_iff _ _ _ Prod.fst _ _ _ rfl).mpr ?_, rfl⟩
  rw [planEntries, find?_append, find?_append, client_find, hfind]
  rfl

/-- A hosted definition is published if the client declares nothing of its name. -/
theorem mem_published_hosted (hmem : definition ∈ hosted) (hname : toolName definition = some name)
    (hfree : ∀ native ∈ clientNatives (hosted.filterMap toolName) definitions,
      toolIdentity native ≠ name) :
    nativeDefinitionFromChat definition name ∈
      (planNativeTools texts definitions hosted).tools := by
  rw [planNativeTools_tools, mem_map]
  refine ⟨(some name, _), (@mem_firstBy_iff _ _ _ Prod.fst _ _ _ rfl).mpr ?_, rfl⟩
  have hclient : (clientNatives (hosted.filterMap toolName) definitions).find?
      (toolIdentity · = name) = none := by
    rw [find?_eq_none]
    intro native hnative
    simpa using hfree native hnative
  rw [planEntries, find?_append, find?_append, client_find, hclient,
    h.find hmem hname]
  rfl

end Entries

/-! ### What is lost -/

section Lost
variable {texts : Text → Text × Value} {definitions hosted : List Value}

theorem exists_find {natives : List Value} (h : native ∈ natives) :
    ∃ first, natives.find? (toolIdentity · = toolIdentity native) = some first ∧
      toolIdentity first = toolIdentity native := by
  have hsome : (natives.find? (toolIdentity · = toolIdentity native)).isSome := by
    rw [find?_isSome]
    exact ⟨native, h, by simp⟩
  obtain ⟨first, hfirst⟩ := Option.isSome_iff_exists.mp hsome
  exact ⟨first, hfirst, by simpa using find?_some hfirst⟩

theorem identities_iff (h : HostedSpec hosted) :
    (ownIdentities (planNativeTools texts definitions hosted).tools).Nodup ↔
      (ownIdentities (definitions.filter isUnnamed)).Nodup ∧
        ∀ identity ∈ ownIdentities (definitions.filter isUnnamed),
          identity ∉ (clientNatives (hosted.filterMap toolName) definitions).map toolIdentity ∧
            identity ∉ hosted.filterMap toolName ∧
            (addsWebSearch definitions (hosted.filterMap toolName) →
              identity ≠ Text.lit "web_search") := by
  rw [planNativeTools_tools, nodup_ownIdentities_iff
    fun e he identity => key_eq_toolIdentity texts definitions hosted he identity,
    unkeyed_eq texts h]
  refine and_congr_right fun _ => forall₂_congr fun identity _ => ?_
  rw [mem_keys_iff texts h, not_or, not_or, not_and]

/-- A client's function is published under its name, which is no hosted one. -/
theorem client_function (hmem : native ∈ clientNatives names definitions)
    (htype : native.getStr "type" = some (Text.lit "function")) : toolIdentity native ∉ names := by
  obtain ⟨definition, _, hnative⟩ := mem_filterMap.mp hmem
  obtain ⟨name, hname, rfl⟩ := Option.map_eq_some_iff.mp hnative
  rw [toolIdentity_of_function htype]
  rw [clientName] at hname
  split_ifs at hname
  simpa using (Option.filter_eq_some_iff.mp hname).2

theorem mem_clientNatives (hmem : definition ∈ definitions)
    (hname : clientName names definition = some name) :
    nativeDefinitionFromChat definition name ∈ clientNatives names definitions := by
  refine mem_filterMap.mpr ⟨definition, hmem, ?_⟩
  rw [hname, Option.map_some]

theorem Compatible.losesNoTool (h : HostedSpec hosted)
    (hcompatible : Compatible definitions hosted) :
    LosesNoTool definitions hosted (planNativeTools texts definitions hosted).tools := by
  have hnodup := (@identities_iff texts _ _ h).mpr
    ⟨hcompatible.unnamed_nodup, hcompatible.unnamed_free⟩
  refine ⟨hnodup, fun definition hmem name hname => ?_, fun definition hmem name hname c hc => ?_⟩
  · obtain ⟨_, hidentity, _, hblank⟩ := h.entry hmem hname
    have hin : name ∈ hosted.filterMap toolName := mem_filterMap.mpr ⟨_, hmem, hname⟩
    have hpublished := mem_published_hosted texts h hmem hname fun native hnative heq =>
      hcompatible.hosted_free native hnative (heq ▸ hin)
    rw [← hidentity] at hblank
    have hfilter := filter_identity_eq hnodup hpublished hblank
    rwa [hidentity] at hfilter
  · obtain ⟨first, hfirst, _⟩ := exists_find (mem_clientNatives hmem hname)
    exact ⟨first, mem_published_client texts hfirst,
      hcompatible.covered definition hmem name hname first hfirst hc⟩

theorem LosesNoTool.compatible (h : HostedSpec hosted)
    (hnone : LosesNoTool definitions hosted (planNativeTools texts definitions hosted).tools) :
    Compatible definitions hosted := by
  obtain ⟨hunnamed, hfree⟩ := (identities_iff h).mp hnone.identities_nodup
  refine ⟨fun definition hmem name hname first hfirst c hc => ?_,
    fun native hnative hhosted => ?_, hunnamed, hfree⟩
  · obtain ⟨tool, htool, hcallable⟩ := hnone.kept definition hmem name hname c hc
    obtain ⟨hcalled, hblank⟩ := name_of_mem_callableAs hc
    have hsame : toolIdentity first = toolIdentity (nativeDefinitionFromChat definition name) := by
      simpa using find?_some hfirst
    have heq : tool = first := by
      refine eq_of_identity hnone.identities_nodup (mem_published_client texts hfirst) htool ?_ ?_
      · rw [← (name_of_mem_callableAs hcallable).1, hcalled, hsame]
      · rw [hsame, hblank]
    exact heq ▸ hcallable
  · obtain ⟨definition, hmem, hname⟩ := mem_filterMap.mp hhosted
    obtain ⟨first, hfirst, hsame⟩ := exists_find hnative
    have hin : first ∈ (planNativeTools texts definitions hosted).tools.filter
        (toolIdentity · = toolIdentity native) :=
      mem_filter.mpr ⟨mem_published_client texts hfirst, by simpa using hsame⟩
    rw [hnone.hosted_once definition hmem _ hname, mem_singleton] at hin
    -- it would be the hosted function, which has another name than the client's functions
    have htype : first.getStr "type" = some (Text.lit "function") := by
      rw [hin]
      exact (h.entry hmem hname).2.2.1
    refine client_function (mem_of_find?_eq_some hfirst) htype ?_
    rw [hsame]
    exact hhosted

end Lost

/-- Planning loses no tool exactly if the declarations get along. -/
theorem plan_losesNoTool_iff (texts : Text → Text × Value) (definitions : List Value)
    (enabledIds : List Text) :
    LosesNoTool definitions (nativeHostableHostedToolDefinitions texts enabledIds)
        (planNativeTools texts definitions
          (nativeHostableHostedToolDefinitions texts enabledIds)).tools ↔
      Compatible definitions (nativeHostableHostedToolDefinitions texts enabledIds) :=
  ⟨fun h => h.compatible (hosted_spec texts enabledIds),
    fun h => h.losesNoTool (hosted_spec texts enabledIds)⟩

/-- One namespace, declared once with each of two functions. -/
def namespaceOf (function : Text) : Value :=
  .object [("name", .string "codex_app"), ("tools", .array [.object [("name", .string function),
    ("parameters", emptyObjectSchema), ("type", .string "function")]]),
    ("type", .string "namespace")]

/-- The function of the second declaration is not published. -/
theorem secondNamespace_lost : ¬LosesNoTool [namespaceOf "fork_thread", namespaceOf "open_thread"]
    (nativeHostableHostedToolDefinitions (fun _ => ([], .null)) [])
    (planNativeTools (fun _ => ([], .null)) [namespaceOf "fork_thread", namespaceOf "open_thread"]
      (nativeHostableHostedToolDefinitions (fun _ => ([], .null)) [])).tools := by
  intro h
  have hpublished : (planNativeTools (fun _ => ([], .null))
      [namespaceOf "fork_thread", namespaceOf "open_thread"]
        (nativeHostableHostedToolDefinitions (fun _ => ([], .null)) [])).tools =
          [namespaceOf "fork_thread"] := rfl
  rw [hpublished] at h
  obtain ⟨tool, htool, hcallable⟩ := h.kept (namespaceOf "open_thread")
    (mem_cons_of_mem _ mem_cons_self) "codex_app" rfl
    ⟨some "namespace", "codex_app", some ("function\x1fopen_thread" : Text)⟩
    (by decide)
  rw [mem_singleton.mp htool] at hcallable
  exact absurd hcallable (by decide)

end CodeSeeX.Native
