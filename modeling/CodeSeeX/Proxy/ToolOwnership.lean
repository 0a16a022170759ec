import CodeSeeX.General.FirstWins
import CodeSeeX.Proxy.CommunityTools
import CodeSeeX.Proxy.LoopDiagnostics

/-!
# Who publishes a tool and who runs it

The tools of a turn are those of CodeSeeX, of the community and of the client, the first
definition of a name being published. Who runs a call is decided by another order of the
three. The two orders agree unless a name is declared on two sides.
-/
namespace CodeSeeX.Tools
open FirstWins Option Text List

variable {name : Text}

/-! ## Definitions -/

def codexNativeToolIds : List Text := ["apply_patch"]
def codeseexSystemHostedToolIds : List Text := ["web_search"]
def codeseexConfigurableHostedToolIds : List Text :=
  ["list_directory", "read_file_range", "workspace_search", "vision_analyze", "image_gen"]

def canonicalToolId (id : Text) : Text :=
  if id ∈ (["vision_generate", "imagegen", "image_generation", "generate_image",
    "image_generate", "create_image"] : List Text) then "image_gen" else id

def configurableToolEnabled (id : Text) (enabledIds : List Text) : Bool :=
  decide (id ∈ enabledIds.map canonicalToolId)

/-- The definition of a built-in tool; `texts` holds the description and the parameters that the
source states for each. -/
def toolDefinition (texts : Text → Text × Value) (id : Text) : Option Value :=
  if id ∈ codexNativeToolIds ++ codeseexSystemHostedToolIds ++ codeseexConfigurableHostedToolIds
  then some (functionTool id (texts id).1 (texts id).2)
  else none

def upstreamToolIds (enabledIds : List Text) (includeLocalWebSearch : Bool) : List Text :=
  codexNativeToolIds ++ codeseexSystemHostedToolIds.filter (fun _ => includeLocalWebSearch) ++
    codeseexConfigurableHostedToolIds.filter (configurableToolEnabled · enabledIds)

def upstreamToolDefinitionsWithLocalWebSearch (texts : Text → Text × Value)
    (enabledIds : List Text) (includeLocalWebSearch : Bool) : List Value :=
  (upstreamToolIds enabledIds includeLocalWebSearch).filterMap (toolDefinition texts)

def isKnownCodeTool (name : Text) : Bool :=
  decide (canonicalToolId name ∈ codeseexSystemHostedToolIds) ||
    decide (canonicalToolId name ∈ codeseexConfigurableHostedToolIds)

/-! ## Ownership -/

inductive HostedTool where
  | webSearch
  | builtIn
  | community
  deriving DecidableEq

inductive ToolOwner where
  | codexNativeApplyPatch
  | codeseexHosted (tool : HostedTool)
  | external
  | unknown
  deriving DecidableEq

def canonicalToolName (name : Text) : Text :=
  if name = lit "web_search_preview" then "web_search" else name

def isNativeApplyPatchTool (name : Text) : Bool := name = lit "apply_patch"

def isWebSearchTool (name : Text) : Bool := canonicalToolName name = lit "web_search"

def resolveToolOwner (name : Text) (communityTools : CommunityToolSet)
    (toolContext : ToolContext) : ToolOwner :=
  if isNativeApplyPatchTool name then .codexNativeApplyPatch
  else if isWebSearchTool name then .codeseexHosted .webSearch
  else if toolContext.hasExternalTool name then .external
  else if isKnownCodeTool name then .codeseexHosted .builtIn
  else if communityTools.isKnownTool name then .codeseexHosted .community
  else .unknown

structure ToolCallPartition where
  code : List ChatToolCall := []
  hosted : List ChatToolCall := []
  native : List ChatToolCall := []
  external : List ChatToolCall := []
  unknown : List ChatToolCall := []

def canonicalCall (call : ChatToolCall) : ChatToolCall :=
  { call with name := canonicalToolName call.name }

def ToolCallPartition.push (partition : ToolCallPartition) (call : ChatToolCall) :
    ToolOwner → ToolCallPartition
  | .codexNativeApplyPatch => { partition with native := partition.native ++ [call] }
  | .codeseexHosted .webSearch => { partition with hosted := partition.hosted ++ [call] }
  | .codeseexHosted .builtIn => { partition with code := partition.code ++ [call] }
  | .codeseexHosted .community => { partition with code := partition.code ++ [call] }
  | .external => { partition with external := partition.external ++ [call] }
  | .unknown => { partition with unknown := partition.unknown ++ [call] }

def partitionToolCalls (toolCalls : List ChatToolCall) (communityTools : CommunityToolSet)
    (toolContext : ToolContext) : ToolCallPartition :=
  toolCalls.foldl (fun partition call =>
    partition.push (canonicalCall call)
      (resolveToolOwner (canonicalCall call).name communityTools toolContext)) {}

/-! ## Publication -/

def dedupeToolDefinitions (tools : List Value) : List Value := firstBy functionName tools

/-- What decides which tools a turn has. -/
structure ToolTurn where
  suppressToolsForService : Bool
  enabledTools : List Text
  communityTools : CommunityToolSet
  toolContext : ToolContext

namespace ToolTurn

def injectCodeseexProxyTools (turn : ToolTurn) : Bool := !turn.suppressToolsForService

def tools (texts : Text → Text × Value) (turn : ToolTurn) : List Value :=
  dedupeToolDefinitions
    ((if turn.injectCodeseexProxyTools then
        upstreamToolDefinitionsWithLocalWebSearch texts turn.enabledTools true
      else []) ++
    (if turn.injectCodeseexProxyTools then turn.communityTools.definitions else []) ++
    (if !turn.suppressToolsForService then turn.toolContext.upstreamTools else []))

end ToolTurn

/-- The tools of a request; `tools` and `input` are its fields, `dirs` the tool directories. The
two decisions about the tool search of Codex are those of the request. -/
def requestTurn (uuid : ℕ → Text) (suppressToolsForService : Bool) (enabledToolIds : List Text)
    (dirs : List (Text × Option Value)) (tools input : Option Value)
    (validPreviousToolCallIds : List Text) (promoted injected : Bool) : ToolTurn :=
  let context := ToolContext.fromRequestTools uuid tools
  let context :=
    if suppressToolsForService then context
    else context.addToolSearchOutputTools uuid input validPreviousToolCallIds
  let enabledTools := if suppressToolsForService then [] else enabledToolIds
  let context :=
    if !suppressToolsForService && promoted then context.promoteCodexToolSearchTools else context
  let context := if injected then context.ensureCodexToolSearchBridge uuid else context
  ⟨suppressToolsForService, enabledTools, CommunityToolSet.load dirs enabledTools, context⟩

/-! ## Sides -/

/-- Who defines a tool, or runs a call of it. -/
inductive Side where
  | codeseex
  | community
  | client
  deriving DecidableEq

/-- The side that runs a call. A native tool is one of the client. -/
def ToolOwner.side : ToolOwner → Option Side
  | .codexNativeApplyPatch => some .client
  | .codeseexHosted .webSearch => some .codeseex
  | .codeseexHosted .builtIn => some .codeseex
  | .codeseexHosted .community => some .community
  | .external => some .client
  | .unknown => none

/-- The side of a built-in definition: a native tool is the client's, CodeSeeX only states it. -/
def builtInSide (id : Text) : Side := if id ∈ codexNativeToolIds then .client else .codeseex

namespace ToolTurn

variable (texts : Text → Text × Value)

/-- The definitions of a turn in order, each with the side that it comes from. -/
def offered (turn : ToolTurn) : List (Side × Value) :=
  if turn.suppressToolsForService then []
  else
    ((upstreamToolIds turn.enabledTools true).filterMap fun id =>
      (toolDefinition texts id).map (Prod.mk (builtInSide id))) ++
    turn.communityTools.definitions.map (Prod.mk .community) ++
    turn.toolContext.upstreamTools.map (Prod.mk .client)

/-- The definitions that are published, with their sides. -/
def published (turn : ToolTurn) : List (Side × Value) :=
  firstBy (functionName ∘ Prod.snd) (turn.offered texts)

theorem published_snd (turn : ToolTurn) : (turn.published texts).map Prod.snd = turn.tools texts := by
  have hbuilt : ∀ ids : List Text, (ids.filterMap fun id =>
      (toolDefinition texts id).map (Prod.mk (builtInSide id))).map Prod.snd =
        ids.filterMap (toolDefinition texts) := by
    intro ids
    rw [map_filterMap]
    apply filterMap_congr
    intro id _
    cases toolDefinition texts id <;> rfl
  rw [published, tools, dedupeToolDefinitions, ← firstBy_map]
  refine congrArg (firstBy functionName) ?_
  rw [offered, injectCodeseexProxyTools]
  by_cases hsuppress : turn.suppressToolsForService = true
  · simp [hsuppress]
  · simp [hsuppress, hbuilt, upstreamToolDefinitionsWithLocalWebSearch, Function.comp_def]

/-- A declaration of the client that another side publishes or runs. -/
def ClientClash (turn : ToolTurn) (name : Text) : Prop :=
  name ∈ turn.toolContext.upstreamNames ∧ name ≠ lit "apply_patch" ∧
    name ≠ lit "web_search" ∧
    (name = lit "web_search_preview" ∨ name ∈ upstreamToolIds turn.enabledTools true ∨
      turn.communityTools.isExecutableTool name = true)

/-- A community tool with the name of a tool of CodeSeeX that is not published. -/
def CommunityClash (turn : ToolTurn) (name : Text) : Prop :=
  turn.communityTools.isExecutableTool name = true ∧
    (isWebSearchTool name = true ∨ isKnownCodeTool name = true) ∧
    name ∉ upstreamToolIds turn.enabledTools true

/-- Every definition comes from the side that runs the calls of its name. -/
def Agrees (turn : ToolTurn) : Prop :=
  ∀ d ∈ turn.published texts, ∀ name, functionName d.2 = some name →
    (resolveToolOwner name turn.communityTools turn.toolContext).side = some d.1

/-- The side whose definition of a name is published. -/
def publisher (turn : ToolTurn) (name : Text) : Option Side :=
  if turn.suppressToolsForService then none
  else if name ∈ upstreamToolIds turn.enabledTools true then some (builtInSide name)
  else if turn.communityTools.isExecutableTool name then some .community
  else if name ∈ turn.toolContext.upstreamNames then some .client
  else none

theorem find_map_side (side : Side) (tools : List Value) (name : Text) :
    ((tools.map (Prod.mk side)).find? fun d => (functionName ∘ Prod.snd) d = some name).map Prod.fst =
      if ∃ tool ∈ tools, functionName tool = some name then some side else none := by
  induction tools with
  | nil => simp
  | cons tool tools ih =>
    by_cases hname : functionName tool = some name
    · simp [hname]
    · simpa [hname] using ih

theorem upstreamToolIds_known {enabledIds : List Text} {includeLocalWebSearch : Bool} {id : Text}
    (h : id ∈ upstreamToolIds enabledIds includeLocalWebSearch) :
    id ∈ codexNativeToolIds ++ codeseexSystemHostedToolIds ++ codeseexConfigurableHostedToolIds := by
  rcases mem_append.mp h with h | h
  · rcases mem_append.mp h with h | h
    · exact mem_append_left _ (mem_append_left _ h)
    · exact mem_append_left _ (mem_append_right _ (mem_filter.mp h).1)
  · exact mem_append_right _ (mem_filter.mp h).1

theorem find_builtIn_side {ids : List Text} (name : Text)
    (h : ∀ id ∈ ids, id ∈ codexNativeToolIds ++ codeseexSystemHostedToolIds ++
      codeseexConfigurableHostedToolIds) :
    ((ids.filterMap fun id => (toolDefinition texts id).map (Prod.mk (builtInSide id))).find?
      fun d => (functionName ∘ Prod.snd) d = some name).map Prod.fst =
        if name ∈ ids then some (builtInSide name) else none := by
  induction ids with
  | nil => rfl
  | cons id ids ih =>
    obtain ⟨hid, hlater⟩ := forall_mem_cons.mp h
    have hdefinition : toolDefinition texts id = some (functionTool id (texts id).1 (texts id).2) :=
      if_pos hid
    rw [filterMap_cons, hdefinition, map_some]
    rw [find?_cons, Function.comp_apply, functionName_functionTool]
    by_cases hname : id = name
    · simp [hname]
    · have hother : name ≠ id := Ne.symm hname
      simpa [hname, hother] using ih hlater

/-- The first definition of a name comes from its publisher. -/
theorem find_offered {turn : ToolTurn} (h : turn.toolContext.Declares) (name : Text) :
    ((turn.offered texts).find? fun d => (functionName ∘ Prod.snd) d = some name).map Prod.fst =
      turn.publisher name := by
  have hclient : (∃ tool ∈ turn.toolContext.upstreamTools, functionName tool = some name) ↔
      name ∈ turn.toolContext.upstreamNames := by
    constructor
    · intro ⟨tool, htool, hname⟩
      obtain ⟨other, hother, heq⟩ := h.named tool htool
      rw [hname, some_inj] at heq
      exact heq ▸ hother
    · exact h.declared name
  have hbuilt := find_builtIn_side texts name
    (fun id hid => @upstreamToolIds_known turn.enabledTools true id hid)
  have hcommunity := find_map_side .community turn.communityTools.definitions name
  have hexternal := find_map_side .client turn.toolContext.upstreamTools name
  simp only [CommunityToolSet.exists_definition_iff] at hcommunity
  simp only [hclient] at hexternal
  rw [offered, publisher]
  by_cases hsuppress : turn.suppressToolsForService = true
  · rw [if_pos hsuppress, if_pos hsuppress]
    rfl
  · rw [if_neg hsuppress, if_neg hsuppress, find?_append, find?_append, map_or,
      map_or, hbuilt, hcommunity, hexternal]
    split_ifs <;> rfl

theorem agrees_iff_publisher {turn : ToolTurn} (h : turn.toolContext.Declares) :
    turn.Agrees texts ↔ ∀ name side, turn.publisher name = some side →
      (resolveToolOwner name turn.communityTools turn.toolContext).side = some side := by
  have hfirst := @forall_firstBy_iff _ _ _ (functionName ∘ Prod.snd) (turn.offered texts)
    fun name d =>
      (resolveToolOwner name turn.communityTools turn.toolContext).side = some d.1
  refine hfirst.trans ?_
  constructor
  · intro hall name side hside
    rw [← find_offered texts h, map_eq_some_iff] at hside
    obtain ⟨d, hfind, rfl⟩ := hside
    exact hall name d hfind
  · intro hall name d hfind
    refine hall name d.1 ?_
    rw [← find_offered texts h, hfind]
    rfl

theorem mem_upstreamToolIds {enabledIds : List Text} :
    name ∈ upstreamToolIds enabledIds true ↔ name = lit "apply_patch" ∨
      name = lit "web_search" ∨
      (name ∈ codeseexConfigurableHostedToolIds ∧ configurableToolEnabled name enabledIds = true) := by
  simp [upstreamToolIds, codexNativeToolIds, codeseexSystemHostedToolIds]

theorem isKnownCodeTool_of_configurable (h : name ∈ codeseexConfigurableHostedToolIds) :
    isKnownCodeTool name = true := by
  have hall : codeseexConfigurableHostedToolIds.all isKnownCodeTool = true := by decide
  exact all_eq_true.mp hall name h

theorem builtInSide_of_ne (h : name ≠ lit "apply_patch") :
    builtInSide name = .codeseex := by
  rw [builtInSide, if_neg]
  rw [codexNativeToolIds, mem_singleton]
  exact h

theorem hasExternalTool_iff {context : ToolContext} :
    context.hasExternalTool name = true ↔ name ∈ context.upstreamNames :=
  BTreeMap.isSome_get_iff

/-- The owner of a name that neither patching nor searching claims. -/
theorem resolveToolOwner_ordinary (hpatch : name ≠ lit "apply_patch")
    (hsearch : isWebSearchTool name = false) (communityTools : CommunityToolSet)
    (context : ToolContext) : resolveToolOwner name communityTools context =
      if name ∈ context.upstreamNames then .external
      else if isKnownCodeTool name then .codeseexHosted .builtIn
      else if communityTools.isKnownTool name then .codeseexHosted .community
      else .unknown := by
  have hnative : isNativeApplyPatchTool name = false := by
    simpa [isNativeApplyPatchTool] using hpatch
  rw [resolveToolOwner, hnative, hsearch]
  simp only [Bool.false_eq_true, if_false, hasExternalTool_iff]

theorem isWebSearchTool_iff : isWebSearchTool name = true ↔
    name = lit "web_search_preview" ∨ name = lit "web_search" := by
  rw [isWebSearchTool, decide_eq_true_eq, canonicalToolName]
  by_cases hpreview : name = lit "web_search_preview"
  · simp [hpreview]
  · simp [hpreview]

theorem preview_notMem (enabledIds : List Text) :
    lit "web_search_preview" ∉ upstreamToolIds enabledIds true := by
  rw [mem_upstreamToolIds]
  simp [codeseexConfigurableHostedToolIds]

variable {turn : ToolTurn} {name : Text}

section
variable (hopen : turn.suppressToolsForService = false)
include hopen

theorem publisher_owns_patch (hname : name = lit "apply_patch") :
    (∀ side, turn.publisher name = some side →
      (resolveToolOwner name turn.communityTools turn.toolContext).side = some side) ∧
      ¬ turn.ClientClash name ∧ ¬ turn.CommunityClash name := by
  have hmem : name ∈ upstreamToolIds turn.enabledTools true := mem_upstreamToolIds.mpr (.inl hname)
  refine ⟨?_, fun h => h.2.1 hname, fun h => h.2.2 hmem⟩
  rw [publisher, hopen, if_neg Bool.false_ne_true, if_pos hmem]
  subst hname
  intro side hside
  rw [← hside]
  rfl

theorem publisher_owns_search (hsearch : isWebSearchTool name = true) :
    (∀ side, turn.publisher name = some side →
      (resolveToolOwner name turn.communityTools turn.toolContext).side = some side) ↔
      ¬ turn.ClientClash name ∧ ¬ turn.CommunityClash name := by
  have hpatch : name ≠ lit "apply_patch" := by
    intro heq
    rw [heq, isWebSearchTool_iff] at hsearch
    simp at hsearch
  have howner : (resolveToolOwner name turn.communityTools turn.toolContext).side =
      some .codeseex := by
    simp [resolveToolOwner, isNativeApplyPatchTool, hpatch, hsearch, ToolOwner.side]
  rw [publisher, hopen, if_neg Bool.false_ne_true, howner]
  rcases isWebSearchTool_iff.mp hsearch with hname | hname
  · have hmem : name ∉ upstreamToolIds turn.enabledTools true := hname ▸ preview_notMem _
    have hne : name ≠ lit "web_search" := by simp [hname]
    rw [if_neg hmem]
    by_cases hcommunity : turn.communityTools.isExecutableTool name = true
    · simp [hcommunity, CommunityClash, hsearch, hmem]
    · by_cases hclient : name ∈ turn.toolContext.upstreamNames
      · have hclash : turn.ClientClash name := ⟨hclient, hpatch, hne, .inl hname⟩
        simp [hcommunity, hclient, hclash]
      · simp [hcommunity, hclient, ClientClash, CommunityClash]
  · have hmem : name ∈ upstreamToolIds turn.enabledTools true :=
      mem_upstreamToolIds.mpr (.inr (.inl hname))
    have hclient : ¬ turn.ClientClash name := fun h => h.2.2.1 hname
    have hcommunity : ¬ turn.CommunityClash name := fun h => h.2.2 hmem
    simp [hmem, builtInSide_of_ne hpatch, hclient, hcommunity]

theorem publisher_owns_ordinary
    (hpatch : name ≠ lit "apply_patch") (hsearch : isWebSearchTool name = false) :
    (∀ side, turn.publisher name = some side →
      (resolveToolOwner name turn.communityTools turn.toolContext).side = some side) ↔
      ¬ turn.ClientClash name ∧ ¬ turn.CommunityClash name := by
  have hnames : ¬ (name = lit "web_search_preview" ∨ name = lit "web_search") := by
    rw [← isWebSearchTool_iff, hsearch]
    exact Bool.false_ne_true
  obtain ⟨hpreview, hweb⟩ := not_or.mp hnames
  have hclash : turn.ClientClash name ↔ name ∈ turn.toolContext.upstreamNames ∧
      (name ∈ upstreamToolIds turn.enabledTools true ∨
        turn.communityTools.isExecutableTool name = true) := by
    simp [ClientClash, hpatch, hweb, hpreview]
  rw [publisher, hopen, if_neg Bool.false_ne_true, resolveToolOwner_ordinary hpatch hsearch, hclash,
    CommunityClash, hsearch]
  by_cases hmem : name ∈ upstreamToolIds turn.enabledTools true
  · have hconfigurable : name ∈ codeseexConfigurableHostedToolIds := by
      have hor := mem_upstreamToolIds.mp hmem
      simp only [hpatch, hweb, false_or] at hor
      exact hor.1
    have hknown := isKnownCodeTool_of_configurable hconfigurable
    by_cases hclient : name ∈ turn.toolContext.upstreamNames
    · simp [hmem, hclient, builtInSide_of_ne hpatch, ToolOwner.side]
    · simp [hmem, hclient, hknown, builtInSide_of_ne hpatch, ToolOwner.side]
  · by_cases hclient : name ∈ turn.toolContext.upstreamNames
    · by_cases hcommunity : turn.communityTools.isExecutableTool name = true
      · simp [hmem, hclient, hcommunity, ToolOwner.side]
      · simp [hmem, hclient, hcommunity, ToolOwner.side]
    · by_cases hcommunity : turn.communityTools.isExecutableTool name = true
      · have hknown := CommunityToolSet.isKnownTool_of_isExecutableTool hcommunity
        by_cases hcode : isKnownCodeTool name = true
        · simp [hmem, hclient, hcommunity, hcode, ToolOwner.side]
        · simp [hmem, hclient, hcommunity, hcode, hknown, ToolOwner.side]
      · simp [hmem, hclient, hcommunity]

/-- What is published under a name comes from its owner unless the name clashes. -/
theorem publisher_owns_iff (name : Text) :
    (∀ side, turn.publisher name = some side →
      (resolveToolOwner name turn.communityTools turn.toolContext).side = some side) ↔
      ¬ turn.ClientClash name ∧ ¬ turn.CommunityClash name := by
  by_cases hpatch : name = lit "apply_patch"
  · obtain ⟨howns, hclash⟩ := publisher_owns_patch hopen hpatch
    exact ⟨fun _ => hclash, fun _ => howns⟩
  · by_cases hsearch : isWebSearchTool name = true
    · exact publisher_owns_search hopen hsearch
    · exact publisher_owns_ordinary hopen hpatch (Bool.eq_false_iff.mpr hsearch)

end

end ToolTurn

theorem declares_ite {p : Prop} [Decidable p] {left right : ToolContext} (hleft : left.Declares)
    (hright : right.Declares) : (if p then left else right).Declares := by
  split_ifs
  · exact hleft
  · exact hright

theorem requestTurn_declares (uuid : ℕ → Text) (suppressToolsForService : Bool)
    (enabledToolIds : List Text) (dirs : List (Text × Option Value)) (tools input : Option Value)
    (validPreviousToolCallIds : List Text) (promoted injected : Bool) :
    (requestTurn uuid suppressToolsForService enabledToolIds dirs tools input
      validPreviousToolCallIds promoted injected).toolContext.Declares := by
  have hrequest := ToolContext.declares_fromRequestTools uuid tools
  have hfound : (if suppressToolsForService then ToolContext.fromRequestTools uuid tools
      else (ToolContext.fromRequestTools uuid tools).addToolSearchOutputTools uuid input
        validPreviousToolCallIds).Declares :=
    declares_ite hrequest (hrequest.addToolSearchOutput input validPreviousToolCallIds)
  exact declares_ite (declares_ite hfound.promote hfound).ensureBridge
    (declares_ite hfound.promote hfound)

/-- Every definition that is published comes from the side that runs its calls, unless a name is
declared on two sides. -/
theorem requestTurn_agrees_iff (texts : Text → Text × Value) (uuid : ℕ → Text)
    (suppressToolsForService : Bool) (enabledToolIds : List Text)
    (dirs : List (Text × Option Value)) (tools input : Option Value)
    (validPreviousToolCallIds : List Text) (promoted injected : Bool) :
    let turn := requestTurn uuid suppressToolsForService enabledToolIds dirs tools input
      validPreviousToolCallIds promoted injected
    (turn.published texts).map Prod.snd = turn.tools texts ∧
      (turn.Agrees texts ↔ suppressToolsForService = true ∨
        ∀ name, ¬ turn.ClientClash name ∧ ¬ turn.CommunityClash name) := by
  intro turn
  have hdeclares : turn.toolContext.Declares := requestTurn_declares uuid
    suppressToolsForService enabledToolIds dirs tools input validPreviousToolCallIds promoted injected
  have hsuppress : turn.suppressToolsForService = suppressToolsForService := rfl
  refine ⟨turn.published_snd texts, ?_⟩
  rw [ToolTurn.agrees_iff_publisher texts hdeclares]
  by_cases hservice : suppressToolsForService = true
  · simp [ToolTurn.publisher, hsuppress, hservice]
  · have hopen : turn.suppressToolsForService = false := by
      exact Bool.eq_false_iff.mpr hservice
    simp only [hservice, Bool.false_eq_true, false_or]
    exact forall_congr' fun name => ToolTurn.publisher_owns_iff hopen name

/-- A client that declares a tool of the name of a built-in one. -/
def collidingTools : Value :=
  .array [functionTool "list_directory" "client-side collision" emptySchema]

def collidingTurn : ToolTurn :=
  requestTurn (fun _ => []) false ["list_directory"] [] (some collidingTools) none [] false false

theorem collidingTurn_disagrees : ¬ collidingTurn.Agrees fun id => (id, emptySchema) := by
  have hdeclares : collidingTurn.toolContext.Declares := requestTurn_declares ..
  rw [ToolTurn.agrees_iff_publisher _ hdeclares]
  intro h
  have hside := h "list_directory" .codeseex (by decide +kernel)
  have howner : resolveToolOwner "list_directory" collidingTurn.communityTools
      collidingTurn.toolContext = .external := by decide +kernel
  rw [howner] at hside
  cases hside

end CodeSeeX.Tools
