import CodeSeeX.Proxy.ChatProtocol

/-!
# The calls that the executor gets

Calls are classed under their canonical names. Those that CodeSeeX runs are then picked from the
originals by their ids, and the executor looks at the original names.
-/
namespace CodeSeeX.Tools
open List

variable {call : ChatToolCall} {name : Text}

/-- The branches of the executor. -/
inductive ExecutedTool where
  | webSearch
  | visionAnalyze
  | visionGenerate (toolName : Text)
  | listDirectory
  | readFileRange
  | workspaceSearch
  | unsupported
  deriving DecidableEq

/-- Where `execute_tool_with_client` goes with a name. -/
def executeToolWithClient (name : Text) : ExecutedTool :=
  if name = Text.lit "web_search" then .webSearch
  else if name = Text.lit "vision_analyze" then .visionAnalyze
  else if name = Text.lit "vision_generate" ∨ name = Text.lit "image_gen" then .visionGenerate name
  else if name = Text.lit "list_directory" then .listDirectory
  else if name = Text.lit "read_file_range" then .readFileRange
  else if name = Text.lit "workspace_search" then .workspaceSearch
  else .unsupported

/-- The names that the classes know and the executor does not. -/
def aliasNames : List Text :=
  ["web_search_preview", "imagegen", "image_generation", "generate_image", "image_generate",
    "create_image"]

section
variable (communityTools : CommunityToolSet) (toolContext : ToolContext)

/-- The calls that CodeSeeX is to run, under their canonical names. -/
def proxyCalls (toolCalls : List ChatToolCall) : List ChatToolCall :=
  ownedBy communityTools toolContext toolCalls isProxyOwner

/-- A turn whose calls are each run on one side. -/
structure RunsOnOneSide (toolCalls : List ChatToolCall) : Prop where
  classed : partitionToolCalls toolCalls communityTools toolContext =
    { code := ownedBy communityTools toolContext toolCalls isCodeOwner
      hosted := ownedBy communityTools toolContext toolCalls
        fun owner => owner = .codeseexHosted .webSearch
      native := ownedBy communityTools toolContext toolCalls
        fun owner => owner = .codexNativeApplyPatch
      external := ownedBy communityTools toolContext toolCalls
        fun owner => owner = .external
      unknown := ownedBy communityTools toolContext toolCalls
        fun owner => owner = .unknown }
  executed : proxyExecutedCallsInOrder toolCalls
    (partitionToolCalls toolCalls communityTools toolContext) =
      proxyCalls communityTools toolContext toolCalls
  dispatched : ∀ call ∈ proxyExecutedCallsInOrder toolCalls
      (partitionToolCalls toolCalls communityTools toolContext),
    callOwner communityTools toolContext call ≠ .codeseexHosted .community →
      executeToolWithClient call.name ≠ .unsupported
  apart : ∀ call ∈ toolCalls, isClientOwner (callOwner communityTools toolContext call) →
    call ∉ proxyExecutedCallsInOrder toolCalls
      (partitionToolCalls toolCalls communityTools toolContext)

/-- No call of CodeSeeX goes by an alias or shares its id with a call that is not its own. -/
structure PlainCalls (toolCalls : List ChatToolCall) : Prop where
  named : ∀ call ∈ toolCalls, isProxyOwner (callOwner communityTools toolContext call) →
    call.name ∉ aliasNames
  identified : ∀ call ∈ toolCalls, ∀ other ∈ toolCalls,
    isProxyOwner (callOwner communityTools toolContext call) →
      ¬ isProxyOwner (callOwner communityTools toolContext other) → call.id ≠ other.id

end

/-! ## Names -/

theorem canonicalCall_eq_iff :
    canonicalCall call = call ↔ call.name ≠ Text.lit "web_search_preview" := by
  rw [canonicalCall, canonicalToolName]
  split_ifs with h
  · refine iff_of_false (fun heq => ?_) (not_not_intro h)
    have hname : Text.lit "web_search" = call.name := congrArg ChatToolCall.name heq
    rw [h] at hname
    exact absurd hname (by decide)
  · exact iff_of_true rfl h

section
variable {communityTools : CommunityToolSet} {toolContext : ToolContext}

/-- A built-in owner knows the name or one of its aliases. -/
theorem known_of_owner (hproxy : isProxyOwner (callOwner communityTools toolContext call))
    (hbuilt : callOwner communityTools toolContext call ≠ .codeseexHosted .community)
    (hplain : call.name ≠ Text.lit "web_search_preview") :
    call.name = Text.lit "web_search" ∨ isKnownCodeTool call.name = true := by
  have hcanonical : (canonicalCall call).name = call.name := by
    rw [canonicalCall_eq_iff.mpr hplain]
  rw [callOwner, hcanonical, resolveToolOwner] at hproxy hbuilt
  by_cases hsearch : isWebSearchTool call.name = true
  · rcases ToolTurn.isWebSearchTool_iff.mp hsearch with h | h
    · exact absurd h hplain
    · exact Or.inl h
  · refine Or.inr ?_
    split_ifs at hproxy hbuilt with hpatch hexternal hknown hcommunity
    · exact absurd hproxy (by decide)
    · exact absurd hproxy (by decide)
    · exact hknown
    · exact absurd rfl hbuilt
    · exact absurd hproxy (by decide)

/-- The names that both the classes and the executor know. -/
def dispatchedNames : List Text :=
  ["web_search", "vision_analyze", "vision_generate", "image_gen", "list_directory",
    "read_file_range", "workspace_search"]

theorem mem_dispatchedNames (hknown : isKnownCodeTool name = true) (halias : name ∉ aliasNames) :
    name ∈ dispatchedNames := by
  have hall : ∀ name ∈ codeseexSystemHostedToolIds ++ codeseexConfigurableHostedToolIds,
      name ∈ dispatchedNames := by decide
  rw [isKnownCodeTool, canonicalToolId] at hknown
  split_ifs at hknown with hid
  · simp only [aliasNames, mem_cons, not_or] at halias
    simp only [mem_cons, halias, or_false] at hid
    rw [hid]
    decide
  · rw [Bool.or_eq_true, decide_eq_true_eq, decide_eq_true_eq] at hknown
    exact hall name (mem_append.mpr hknown)

theorem executeToolWithClient_of_mem (h : name ∈ dispatchedNames) :
    executeToolWithClient name ≠ .unsupported := by
  have hall : ∀ name ∈ dispatchedNames, executeToolWithClient name ≠ .unsupported := by decide
  exact hall name h

theorem executeToolWithClient_of_alias (h : name ∈ aliasNames) :
    executeToolWithClient name = .unsupported := by
  have hall : ∀ name ∈ aliasNames, executeToolWithClient name = .unsupported := by decide
  exact hall name h

/-- The executor has a branch for a call of a built-in tool exactly if it goes by no alias. -/
theorem dispatched_iff (hproxy : isProxyOwner (callOwner communityTools toolContext call))
    (hbuilt : callOwner communityTools toolContext call ≠ .codeseexHosted .community) :
    executeToolWithClient call.name ≠ .unsupported ↔ call.name ∉ aliasNames := by
  constructor
  · intro hdispatch halias
    exact hdispatch (executeToolWithClient_of_alias halias)
  · intro halias
    refine executeToolWithClient_of_mem ?_
    have hplain : call.name ≠ Text.lit "web_search_preview" := by
      intro heq
      exact halias (heq ▸ mem_cons_self)
    rcases known_of_owner hproxy hbuilt hplain with hsearch | hknown
    · rw [hsearch]
      exact mem_cons_self
    · exact mem_dispatchedNames hknown halias

/-- A community tool is not called by a name that a built-in tool has. -/
theorem alias_notMem_of_community
    (h : callOwner communityTools toolContext call = .codeseexHosted .community) :
    call.name ∉ aliasNames := by
  intro halias
  have hall : ∀ name ∈ aliasNames, isWebSearchTool (canonicalToolName name) = true ∨
      isKnownCodeTool (canonicalToolName name) = true := by decide
  rw [callOwner, resolveToolOwner] at h
  rcases hall call.name halias with hsearch | hknown
  · have hsearch' : isWebSearchTool (canonicalCall call).name = true := hsearch
    rw [if_pos hsearch'] at h
    split_ifs at h
    cases h
  · have hknown' : isKnownCodeTool (canonicalCall call).name = true := hknown
    rw [if_pos hknown'] at h
    split_ifs at h <;> cases h

/-! ## Calls -/

variable {toolCalls : List ChatToolCall}

theorem proxyExecuted_eq_filter : proxyExecutedCallsInOrder toolCalls
    (partitionToolCalls toolCalls communityTools toolContext) =
      toolCalls.filter fun call => decide (∃ own ∈ toolCalls, own.id = call.id ∧
        isProxyOwner (callOwner communityTools toolContext own) = true) := by
  refine filter_congr fun call _ => ?_
  rw [decide_eq_decide]
  exact mem_proxyIds

/-- Every call of CodeSeeX is picked, by its own id. -/
theorem filter_proxy_sublist : (toolCalls.filter fun call =>
    isProxyOwner (callOwner communityTools toolContext call)).Sublist
      (proxyExecutedCallsInOrder toolCalls
        (partitionToolCalls toolCalls communityTools toolContext)) := by
  have hfilter : (toolCalls.filter fun call =>
      isProxyOwner (callOwner communityTools toolContext call)) =
        (proxyExecutedCallsInOrder toolCalls
          (partitionToolCalls toolCalls communityTools toolContext)).filter fun call =>
            isProxyOwner (callOwner communityTools toolContext call) := by
    rw [proxyExecuted_eq_filter, filter_filter]
    refine filter_congr fun call hcall => ?_
    rw [Bool.eq_iff_iff, Bool.and_eq_true, decide_eq_true_eq]
    exact ⟨fun hproxy => ⟨hproxy, call, hcall, rfl, hproxy⟩, fun h => h.1⟩
  rw [hfilter]
  exact filter_sublist

/-- The selection gives the calls of CodeSeeX under their canonical names exactly if these are the
names that they have, and no other call has the id of one of them. -/
theorem proxyExecuted_eq_iff : proxyExecutedCallsInOrder toolCalls
      (partitionToolCalls toolCalls communityTools toolContext) =
        proxyCalls communityTools toolContext toolCalls ↔
    (∀ call ∈ toolCalls, isProxyOwner (callOwner communityTools toolContext call) →
      call.name ≠ Text.lit "web_search_preview") ∧
    ∀ call ∈ toolCalls, ∀ other ∈ toolCalls,
      isProxyOwner (callOwner communityTools toolContext call) →
        ¬ isProxyOwner (callOwner communityTools toolContext other) →
          call.id ≠ other.id := by
  constructor
  · intro heq
    have hlength : (toolCalls.filter fun call =>
        isProxyOwner (callOwner communityTools toolContext call)).length =
          (proxyExecutedCallsInOrder toolCalls
            (partitionToolCalls toolCalls communityTools toolContext)).length := by
      rw [heq, proxyCalls, ownedBy, length_map]
    have hsame := filter_proxy_sublist.eq_of_length hlength
    constructor
    · intro call hcall hproxy
      have hmap : ∀ call ∈ toolCalls.filter fun call =>
          isProxyOwner (callOwner communityTools toolContext call),
            canonicalCall call = id call := by
        refine map_inj_left.mp ?_
        rw [map_id]
        exact (hsame.trans heq).symm
      exact canonicalCall_eq_iff.mp (hmap call (mem_filter.mpr ⟨hcall, hproxy⟩))
    · intro call hcall other hother hproxy hnot hid
      have hmem : other ∈ proxyExecutedCallsInOrder toolCalls
          (partitionToolCalls toolCalls communityTools toolContext) :=
        mem_proxyExecuted.mpr ⟨hother, call, hcall, hid, hproxy⟩
      rw [← hsame] at hmem
      exact hnot (mem_filter.mp hmem).2
  · rintro ⟨hnamed, hidentified⟩
    have hpicked : proxyExecutedCallsInOrder toolCalls
        (partitionToolCalls toolCalls communityTools toolContext) =
          toolCalls.filter fun call =>
            isProxyOwner (callOwner communityTools toolContext call) := by
      rw [proxyExecuted_eq_filter]
      refine filter_congr fun call hcall => ?_
      rw [Bool.eq_iff_iff, decide_eq_true_eq]
      constructor
      · rintro ⟨own, hown, hid, hproxy⟩
        by_contra hnot
        exact hidentified own hown call hcall hproxy hnot hid
      · intro hproxy
        exact ⟨call, hcall, rfl, hproxy⟩
    rw [hpicked, proxyCalls, ownedBy]
    refine (map_id _).symm.trans (map_congr_left fun call hcall => ?_)
    obtain ⟨hmem, hproxy⟩ := mem_filter.mp hcall
    exact (canonicalCall_eq_iff.mpr (hnamed call hmem hproxy)).symm

/-- Each call of a turn is run on one side exactly if the calls of CodeSeeX go by no aliases and
share their ids with no others. -/
theorem runsOnOneSide_iff (communityTools : CommunityToolSet) (toolContext : ToolContext)
    (toolCalls : List ChatToolCall) :
    RunsOnOneSide communityTools toolContext toolCalls ↔
      PlainCalls communityTools toolContext toolCalls := by
  constructor
  · intro h
    obtain ⟨hplain, hidentified⟩ := proxyExecuted_eq_iff.mp h.executed
    refine ⟨fun call hcall hproxy => ?_, hidentified⟩
    by_cases hbuilt : callOwner communityTools toolContext call = .codeseexHosted .community
    · exact alias_notMem_of_community hbuilt
    · exact (dispatched_iff hproxy hbuilt).mp
        (h.dispatched call (mem_proxyExecuted.mpr ⟨hcall, call, hcall, rfl, hproxy⟩) hbuilt)
  · intro h
    have hplain : ∀ call ∈ toolCalls,
        isProxyOwner (callOwner communityTools toolContext call) →
          call.name ≠ Text.lit "web_search_preview" := by
      intro call hcall hproxy heq
      exact h.named call hcall hproxy (heq ▸ mem_cons_self)
    have howned : ∀ call ∈ proxyExecutedCallsInOrder toolCalls
        (partitionToolCalls toolCalls communityTools toolContext),
          call ∈ toolCalls ∧ isProxyOwner (callOwner communityTools toolContext call) := by
      intro call hcall
      obtain ⟨hmem, own, hown, hid, hproxy⟩ := mem_proxyExecuted.mp hcall
      refine ⟨hmem, ?_⟩
      by_contra hnot
      exact h.identified own hown call hmem hproxy hnot hid
    exact {
      classed := partition_eq toolCalls
      executed := proxyExecuted_eq_iff.mpr ⟨hplain, h.identified⟩
      dispatched := by
        intro call hcall hbuilt
        obtain ⟨hmem, hproxy⟩ := howned call hcall
        exact (dispatched_iff hproxy hbuilt).mpr (h.named call hmem hproxy)
      apart := by
        intro call hmem hclient hcall
        have hproxy := (howned call hcall).2
        rw [owner_cases] at hproxy
        · rw [hclient] at hproxy
          exact absurd hproxy (by decide)
        · intro hunknown
          rw [hunknown] at hclient
          exact absurd hclient (by decide) }

end

/-- A search of the web under the alias that the classes know, and a call of the client with the
id of a directory listing. -/
def aliasedCalls : List ChatToolCall :=
  [⟨"call_1", "web_search_preview", "{}"⟩, ⟨"call_2", "list_directory", "{}"⟩,
    ⟨"call_2", "apply_patch", "{}"⟩]

theorem aliasedCalls_crossed : ¬ RunsOnOneSide CommunityToolSet.empty {} aliasedCalls := by
  intro h
  refine h.apart ⟨"call_2", "apply_patch", "{}"⟩ (by decide) (by decide) ?_
  exact mem_proxyExecuted.mpr ⟨by decide, ⟨"call_2", "list_directory", "{}"⟩, by decide, rfl,
    by decide⟩

end CodeSeeX.Tools
