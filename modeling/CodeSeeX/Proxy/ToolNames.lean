import CodeSeeX.Proxy.ResponseItems

/-!
# The names of client tools

A tool of the client goes to the provider under a name of its own, and a call of that name comes
back as an item under the name and the namespace that the client knows. Names are made
acceptable, cut and numbered until they are free.
-/
namespace CodeSeeX.Tools
open List Text BTreeMap

variable (uuid responseName : Text) (tool : Value) (tools : Option Value) {context : ToolContext}

/-! ## Names that the provider accepts -/

structure IsUpstreamName (name : Text) : Prop where
  short : name.length ≤ 64
  chars : ∀ c ∈ name, isToolNameChar c = true

/-- One character that the provider accepts for another. -/
def toolNameChar (ch : Char) : Char := if isToolNameChar ch then ch else '_'

theorem isToolNameChar_toolNameChar (ch : Char) : isToolNameChar (toolNameChar ch) = true := by
  rw [toolNameChar]
  split_ifs with h
  · exact h
  · rfl

theorem map_toolNameChar {name : Text} (h : ∀ c ∈ name, isToolNameChar c = true) :
    name.map toolNameChar = name := by
  have hsame : name.map toolNameChar = name.map id :=
    map_congr_left fun c hc => if_pos (h c hc)
  rw [hsame, map_id]

theorem sanitizeToolName_eq (name : Text) :
    sanitizeToolName name =
      if onlyUnderscores ((name.map toolNameChar).take 64) then lit "tool"
      else (name.map toolNameChar).take 64 := rfl

theorem isUpstreamName_sanitizeToolName (name : Text) : IsUpstreamName (sanitizeToolName name) := by
  rw [sanitizeToolName_eq]
  split_ifs with h
  · exact ⟨by decide, all_eq_true.mp (by decide)⟩
  · refine ⟨length_take_le _ _, fun c hc => ?_⟩
    obtain ⟨ch, _, rfl⟩ := mem_map.mp (mem_of_mem_take hc)
    exact isToolNameChar_toolNameChar ch

/-- A name stays as it is if the provider accepts it and it is more than underscores. -/
theorem sanitizeToolName_eq_self_iff {name : Text} :
    sanitizeToolName name = name ↔ IsUpstreamName name ∧ onlyUnderscores name = false := by
  constructor
  · intro h
    refine ⟨h ▸ isUpstreamName_sanitizeToolName name, ?_⟩
    rw [← h, sanitizeToolName_eq]
    split_ifs with hblank
    · decide
    · exact Bool.eq_false_iff.mpr hblank
  · rintro ⟨hname, hfilled⟩
    rw [sanitizeToolName_eq, map_toolNameChar hname.chars, take_of_length_le hname.short,
      hfilled]
    rfl

/-! ## Numbered names -/

theorem length_ofNat_le {n : ℕ} (h : n < 10 ^ 5) : (ofNat n).length ≤ 5 :=
  Nat.toDigits_length 10 n 5 (by decide) h

/-- The number stands behind the last underscore. -/
theorem suffixedToolName_eq (front : Text) {n : ℕ} (h : n < 10 ^ 5) :
    ∃ base, suffixedToolName front n = base ++ '_' :: ofNat n := by
  have hlength := length_ofNat_le h
  have hdigits : ∀ c ∈ '_' :: ofNat n, isToolNameChar c = true := by
    intro c hc
    rcases mem_cons.mp hc with rfl | hc
    · rfl
    · simp [isToolNameChar, Char.isAlphanum, digit_of_mem_ofNat hc]
  obtain ⟨d, hd⟩ : ∃ d, d ∈ ofNat n :=
    exists_mem_of_ne_nil _ Nat.toDigits_ne_nil
  have hdigit : d ≠ '_' := by
    rintro rfl
    exact notMem_ofNat (by decide) n hd
  have hall : ∀ base : Text, base.length + (ofNat n).length < 64 →
      sanitizeToolName (base ++ '_' :: ofNat n) =
        base.map toolNameChar ++ '_' :: ofNat n := by
    intro base hbase
    have hshort : (base.map toolNameChar ++ '_' :: ofNat n).length ≤ 64 := by
      rw [length_append, length_map, length_cons]
      omega
    have hfilled : onlyUnderscores (base.map toolNameChar ++ '_' :: ofNat n) = false := by
      refine all_eq_false.mpr ⟨d, mem_append_right _ (mem_cons_of_mem _ hd), ?_⟩
      simpa using hdigit
    rw [sanitizeToolName_eq, map_append, map_toolNameChar hdigits,
      take_of_length_le hshort, hfilled]
    rfl
  rw [suffixedToolName]
  split_ifs
  · refine ⟨_, hall _ ?_⟩
    show 4 + _ < 64
    omega
  · refine ⟨_, hall _ ?_⟩
    rw [length_take, length_cons]
    omega

theorem suffixedToolName_injOn (front : Text) {m n : ℕ} (hm : m < 10 ^ 5) (hn : n < 10 ^ 5)
    (h : suffixedToolName front m = suffixedToolName front n) : m = n := by
  obtain ⟨base, hbase⟩ := suffixedToolName_eq front hm
  obtain ⟨other, hother⟩ := suffixedToolName_eq front hn
  have hreverse := congrArg reverse (hbase.symm.trans (h.trans hother))
  simp only [reverse_append, reverse_cons, append_assoc, singleton_append]
    at hreverse
  have hmark : ∀ k : ℕ, '_' ∉ (ofNat k).reverse := by
    intro k hmem
    exact notMem_ofNat (by decide) k (mem_reverse.mp hmem)
  exact ofNat_injective
    (reverse_injective (append_mark_inj (hmark m) (hmark n) hreverse).1)

section
variable {front uuid : Text} {taken : Text → Bool}

/-- A search that ends in a taken name has tried all of its candidates. -/
theorem search_taken {fuel suffix : ℕ} {candidate : Text}
    (h : taken (uniqueToolName.search front uuid taken fuel suffix candidate) = true) :
    ∀ k, k + 1 < fuel → taken (suffixedToolName front (suffix + k)) = true := by
  induction fuel generalizing suffix candidate with
  | zero => exact fun k hk => absurd hk (by omega)
  | succ fuel ih =>
    rw [uniqueToolName.search] at h
    split_ifs at h with hcandidate
    · intro k hk
      cases k with
      | zero =>
        cases fuel with
        | zero => omega
        | succ fuel =>
          by_contra hfree
          rw [Nat.add_zero] at hfree
          rw [uniqueToolName.search, if_neg hfree] at h
          exact hfree h
      | succ k =>
        have hrest := ih h k (by omega)
        rwa [show suffix + 1 + k = suffix + (k + 1) by omega] at hrest
    · exact absurd h hcandidate

theorem isUpstreamName_search {fuel suffix : ℕ} {candidate : Text} (h : IsUpstreamName candidate) :
    IsUpstreamName (uniqueToolName.search front uuid taken fuel suffix candidate) := by
  induction fuel generalizing suffix candidate with
  | zero =>
    rw [uniqueToolName.search, suffixedToolName]
    exact isUpstreamName_sanitizeToolName _
  | succ fuel ih =>
    rw [uniqueToolName.search]
    split_ifs
    · refine ih ?_
      exact isUpstreamName_sanitizeToolName _
    · exact h

end

theorem isUpstreamName_uniqueToolName (namespace_ : Option Text) (entries : BTreeMap Text ToolEntry)
    :
    IsUpstreamName (uniqueToolName uuid responseName namespace_ entries) := by
  rw [uniqueToolName]
  split_ifs
  · exact isUpstreamName_sanitizeToolName _
  · refine isUpstreamName_search ?_
    cases hfront : (namespace_.map fun value =>
        sanitizeToolName (value ++ '_' :: sanitizeToolName responseName)).filter (· ≠ []) with
    | none => exact isUpstreamName_sanitizeToolName _
    | some front =>
      obtain ⟨hmap, _⟩ := Option.filter_eq_some_iff.mp hfront
      obtain ⟨value, _, rfl⟩ := Option.map_eq_some_iff.mp hmap
      exact isUpstreamName_sanitizeToolName _

/-- As long as fewer names are taken than there are numbers, the name is a free one. -/
theorem uniqueToolName_fresh (namespace_ : Option Text) {entries : BTreeMap Text ToolEntry}
    (h : entries.len < 9998) :
    entries.get (uniqueToolName uuid responseName namespace_ entries) = none := by
  rw [← Option.not_isSome_iff_eq_none]
  intro htaken
  rw [uniqueToolName] at htaken
  split_ifs at htaken with hbase
  · simp [htaken] at hbase
  · have hall := @search_taken _ _ (fun name => (entries.get name).isSome) _ _ _ htaken
    generalize ((namespace_.map fun value =>
      sanitizeToolName (value ++ '_' :: sanitizeToolName responseName)).filter (· ≠ [])).getD
        (sanitizeToolName responseName) = front at hall
    have hnodup : ((range 9998).map fun k => suffixedToolName front (2 + k)).Nodup := by
      refine Nodup.map_on (fun j hj k hk heq => ?_) nodup_range
      rw [mem_range] at hj hk
      have := suffixedToolName_injOn front (by omega) (by omega) heq
      omega
    have hsubset : ((range 9998).map fun k => suffixedToolName front (2 + k)) ⊆
        entries.keys := by
      intro name hname
      obtain ⟨k, hk, rfl⟩ := mem_map.mp hname
      rw [mem_range] at hk
      exact isSome_get_iff.mp (hall k (by omega))
    have hlength := (hnodup.subperm hsubset).length_le
    rw [length_map, length_range, keys_length] at hlength
    omega

/-! ## What the client declares -/

/-- A declaration with the name and the namespace as the client writes them. -/
structure ClientTool where
  name : Text
  namespace_ : Option Text
  declaration : ToolDeclaration

variable {client : ClientTool}

/-- The first text that is not blank, as it stands. -/
def firstWritten (candidates : List (Option Value)) : Option Text :=
  (candidates.filterMap fun value => value.bind Value.asStr).find? fun text => text.trim ≠ []

/-- The name that a tool is declared under; a tool without one is called by its number. -/
def declaredName (tool : Value) (index : ℕ) : Text :=
  let nestedTool := (tool.get "tool").filter isObject
  (firstWritten [tool.get "name", (tool.get "function").bind (·.get "name"),
    nestedTool.bind (·.get "name"), tool.get "server_label"]).getD
      (("tool_" : Text) ++ ofNat (index + 1))

def declaredNamespace (tool : Value) : Option Text :=
  match firstWritten [tool.get "namespace", tool.get "server_namespace", tool.get "server"] with
  | some value => some value
  | none =>
      if toolType tool = lit "namespace" ∨
          (toolType tool = lit "mcp" ∧ (tool.get "tools").isSome) then
        firstWritten [tool.get "name", tool.get "server_label"]
      else none

def clientTool (tool : Value) (index : ℕ) (parent : Value) : Option ClientTool :=
  (normalizeSingleTool tool index (namespaceFromTool parent)).map fun declaration =>
    { name := declaredName tool index
      namespace_ := declaredNamespace parent
      declaration := declaration }

/-- The declarations of `normalizeToolDeclarations` with what the client wrote. -/
def clientTools (tool : Value) (index : ℕ) : List ClientTool :=
  match (tool.get "tools").bind Value.asArray with
  | some nestedTools =>
      nestedTools.zipIdx.filterMap fun (nested, nestedIndex) => clientTool nested nestedIndex tool
  | none =>
      if toolType tool = lit "mcp" then [] else (clientTool tool index tool).toList

/-- How a declaration comes from what the client wrote. -/
structure ClientTool.IsRead (client : ClientTool) : Prop where
  name_eq : client.declaration.responseName = sanitizeToolName client.name.trim
  namespace_eq : client.declaration.namespace_ = client.namespace_.map trim
  kind_eq : client.declaration.kind = .function

theorem declarations_clientTools (index : ℕ) :
    (clientTools tool index).map ClientTool.declaration = normalizeToolDeclarations tool index := by
  have hsingle : ∀ nested k, (clientTool nested k tool).map ClientTool.declaration =
      normalizeSingleTool nested k (namespaceFromTool tool) := by
    intro nested k
    rw [clientTool, Option.map_map]
    exact Option.map_id'
  rw [clientTools, normalizeToolDeclarations]
  cases (tool.get "tools").bind Value.asArray with
  | some nestedTools =>
    rw [map_filterMap]
    simp only [hsingle]
  | none =>
    split_ifs
    · rfl
    · rw [← Option.toList_map, hsingle]

theorem firstString_eq (candidates : List (Option Value)) {fallback : Text}
    (h : fallback.trim = fallback) :
    firstString candidates fallback = ((firstWritten candidates).getD fallback).trim := by
  have hmap : (candidates.filterMap fun value => (value.bind Value.asStr).map trim) =
      (candidates.filterMap fun value => value.bind Value.asStr).map trim := by
    rw [map_filterMap]
  rw [firstString, hmap, find?_map, firstWritten]
  cases hfound : (candidates.filterMap fun value => value.bind Value.asStr).find?
      ((fun text => decide (text ≠ [])) ∘ trim) with
  | none =>
    have hnone : (candidates.filterMap fun value => value.bind Value.asStr).find?
        (fun text => decide (text.trim ≠ [])) = none := hfound
    rw [hnone]
    exact h.symm
  | some text =>
    have hsome : (candidates.filterMap fun value => value.bind Value.asStr).find?
        (fun text => decide (text.trim ≠ [])) = some text := hfound
    rw [hsome]
    rfl

theorem firstTrimmed_eq (keys : List Text) :
    firstTrimmed tool keys = (firstWritten (keys.map tool.get)).map trim := by
  have hmap : (keys.filterMap fun key => (tool.getStr key).map trim) =
      ((keys.map tool.get).filterMap fun value => value.bind Value.asStr).map trim := by
    rw [filterMap_map, map_filterMap]
    rfl
  rw [firstTrimmed, hmap, find?_map, firstWritten]
  rfl

theorem namespaceFromTool_eq :
    namespaceFromTool tool = (declaredNamespace tool).map trim := by
  have hkeyed : firstTrimmed tool ["namespace", "server_namespace", "server"] =
      (firstWritten [tool.get "namespace", tool.get "server_namespace", tool.get "server"]).map
        trim := firstTrimmed_eq tool _
  have hnamed : firstTrimmed tool ["name", "server_label"] =
      (firstWritten [tool.get "name", tool.get "server_label"]).map trim :=
    firstTrimmed_eq tool _
  rw [namespaceFromTool, hkeyed, declaredNamespace, hnamed]
  cases firstWritten [tool.get "namespace", tool.get "server_namespace", tool.get "server"] with
  | some value => rfl
  | none =>
    split_ifs <;> rfl

theorem trim_toolNumber (n : ℕ) :
    trim (("tool_" : Text) ++ ofNat n) = ("tool_" : Text) ++ ofNat n := by
  refine (trim_of_ends (fun c hc => ?_) fun c hc => ?_).2
  · obtain rfl : 't' = c := Option.some.inj hc
    decide
  · have hne : ofNat n ≠ [] := Nat.toDigits_ne_nil
    rw [getLast?_append_of_ne_nil _ hne] at hc
    exact isWhitespace_of_isDigit (digit_of_mem_ofNat (mem_of_getLast? hc))

theorem clientTool_isRead {tool parent : Value} {index : ℕ}
    (h : clientTool tool index parent = some client) : client.IsRead := by
  rw [clientTool, Option.map_eq_some_iff] at h
  obtain ⟨declaration, hdeclaration, rfl⟩ := h
  rw [normalizeSingleTool] at hdeclaration
  dsimp only at hdeclaration
  split_ifs at hdeclaration
  obtain rfl := Option.some.inj hdeclaration
  refine ⟨?_, namespaceFromTool_eq parent, rfl⟩
  rw [firstString_eq _ (trim_toolNumber _)]
  rfl

theorem clientTools_isRead {tool : Value} {index : ℕ} :
    ∀ client ∈ clientTools tool index, client.IsRead := by
  intro client hclient
  rw [clientTools] at hclient
  split at hclient
  · obtain ⟨nested, _, hnested⟩ := mem_filterMap.mp hclient
    exact clientTool_isRead hnested
  · split_ifs at hclient
    · cases hclient
    · exact clientTool_isRead (Option.mem_toList.mp hclient)

/-! ## Runs with their client tools -/

namespace ToolContext

/-- The context of a request and of what was discovered later: the input of each turn and the
calls of the turn before it. -/
def contextAfter (uuid : ℕ → Text) (tools : Option Value)
    (discoveries : List (Option Value × List Text)) : ToolContext :=
  discoveries.foldl (fun context discovery =>
    addToolSearchOutputTools uuid context discovery.1 discovery.2) (fromRequestTools uuid tools)

/-- A context with the client tools that its upstream tools were made from. -/
structure Tracked where
  context : ToolContext
  origins : List ClientTool := []

variable (tracked : Tracked)

namespace Tracked

/-- The origin is written down if the declaration is passed on. -/
def push (uuid : ℕ → Text) (tracked : Tracked) (client : ClientTool) : Tracked :=
  let context := pushExternalDeclaration uuid tracked.context client.declaration
  { context := context
    origins :=
      if context.upstreamTools.length = tracked.context.upstreamTools.length then tracked.origins
      else tracked.origins ++ [client] }

/-- A loop over declarations that leaves some of them out. -/
def pushAll (uuid : ℕ → Text) (skip : ToolDeclaration → Bool) (prepare : ToolContext → ToolContext)
    (tracked : Tracked) (clients : List ClientTool) : Tracked :=
  clients.foldl (fun tracked client =>
    if skip client.declaration then tracked
    else push uuid { tracked with context := prepare tracked.context } client) tracked

def ofRequest (uuid : ℕ → Text) (tools : Option Value) : Tracked :=
  match tools with
  | some (.array items) =>
      pushAll uuid (fun declaration => isConflictingVisualTool declaration.responseName) id
        { context := { requestToolItems := items.length } }
        (items.zipIdx.flatMap fun (tool, index) => clientTools tool index)
  | _ => { context := {} }

def discover (uuid : ℕ → Text) (tracked : Tracked) (discovery : Option Value × List Text) :
    Tracked :=
  match discovery.1 with
  | none => tracked
  | some input =>
      pushAll uuid (fun declaration => isConflictingVisualTool declaration.responseName ||
          decide (declaration.responseName ∈ tracked.context.responseToolNames)) countDiscovered
        tracked ((toolSearchOutputToolDeclarations input discovery.2).flatMap fun tool =>
          clientTools tool tracked.context.requestToolItems)

def run (uuid : ℕ → Text) (tools : Option Value) (discoveries : List (Option Value × List Text)) :
    Tracked :=
  discoveries.foldl (discover uuid) (ofRequest uuid tools)

section
variable {uuid : ℕ → Text}

theorem pushAll_context {skip : ToolDeclaration → Bool} {prepare : ToolContext → ToolContext}
    (clients : List ClientTool) :
    (pushAll uuid skip prepare tracked clients).context =
      (clients.map ClientTool.declaration).foldl (fun context declaration =>
        if skip declaration then context
        else pushExternalDeclaration uuid (prepare context) declaration) tracked.context := by
  induction clients generalizing tracked with
  | nil => rfl
  | cons client clients ih =>
    rw [pushAll, foldl_cons, map_cons, foldl_cons]
    refine (ih _).trans ?_
    split_ifs <;> rfl

theorem ofRequest_context :
    (ofRequest uuid tools).context = fromRequestTools uuid tools := by
  cases tools with
  | none => rfl
  | some tools =>
    cases tools with
    | array items =>
      rw [ofRequest, pushAll_context, map_flatMap]
      simp only [declarations_clientTools]
      rfl
    | _ => rfl

theorem discover_context (discovery : Option Value × List Text) :
    (discover uuid tracked discovery).context =
      addToolSearchOutputTools uuid tracked.context discovery.1 discovery.2 := by
  unfold discover addToolSearchOutputTools
  cases discovery.1 with
  | none => rfl
  | some input =>
    rw [pushAll_context, map_flatMap]
    simp only [declarations_clientTools, Bool.or_eq_true, decide_eq_true_eq]

/-- The run with origins is the run of the code. -/
theorem run_context (discoveries : List (Option Value × List Text)) :
    (run uuid tools discoveries).context = contextAfter uuid tools discoveries := by
  have hfold : ∀ (discoveries : List (Option Value × List Text)) (tracked : Tracked),
      (discoveries.foldl (discover uuid) tracked).context =
        discoveries.foldl (fun context discovery =>
          addToolSearchOutputTools uuid context discovery.1 discovery.2) tracked.context := by
    intro discoveries
    induction discoveries with
    | nil => exact fun _ => rfl
    | cons discovery discoveries ih =>
      intro tracked
      rw [foldl_cons, ih, discover_context, foldl_cons]
  rw [run, hfold, ofRequest_context, contextAfter]

end

/-! ## What a run keeps -/

def entryOf (declaration : ToolDeclaration) : ToolEntry :=
  ⟨declaration.responseName, declaration.namespace_, declaration.kind⟩

/-- An upstream tool whose name leads to the declaration of a client tool. -/
def Tied (context : ToolContext) (tool : Value) (client : ClientTool) : Prop :=
  ∃ name, functionName tool = some name ∧ IsUpstreamName name ∧
    context.entries.get name = some (entryOf client.declaration)

structure Inv (tracked : Tracked) : Prop where
  tied : List.Forall₂ (Tied tracked.context) tracked.context.upstreamTools tracked.origins
  distinct : (tracked.context.upstreamTools.map functionName).Nodup
  declares : Declares tracked.context
  count : tracked.context.entries.len ≤ tracked.context.budget.budgetedDeclarations
  bound : tracked.context.budget.budgetedDeclarations ≤ maxExternalToolDeclarations
  read : ∀ client ∈ tracked.origins, client.IsRead

/-- What a declaration can do: it is dropped, or it is passed on under a new name. -/
theorem pushExternalDeclaration_cases (uuid : ℕ → Text) (context : ToolContext)
    (declaration : ToolDeclaration) :
    let next := pushExternalDeclaration uuid context declaration
    (next.entries = context.entries ∧ next.upstreamTools = context.upstreamTools ∧
        next.budget.budgetedDeclarations = context.budget.budgetedDeclarations) ∨
      context.budget.budgetedDeclarations < maxExternalToolDeclarations ∧
        ∃ passed, entryOf passed = entryOf declaration ∧
          next.entries = (pushToolValue uuid context passed).entries ∧
          next.upstreamTools = (pushToolValue uuid context passed).upstreamTools ∧
          next.budget.budgetedDeclarations = context.budget.budgetedDeclarations + 1 := by
  intro next
  have hremember : ∀ (budget : ToolBudgetStats) (name : Text),
      (rememberDroppedToolName budget name).budgetedDeclarations = budget.budgetedDeclarations := by
    intro budget name
    rw [rememberDroppedToolName]
    split_ifs <;> rfl
  have htruncate : ∀ budget : ToolBudgetStats,
      (truncateDescription budget declaration).1.budgetedDeclarations =
          budget.budgetedDeclarations ∧
        entryOf (truncateDescription budget declaration).2 = entryOf declaration := by
    intro budget
    rw [truncateDescription]
    split_ifs <;> exact ⟨rfl, rfl⟩
  simp only [next, pushExternalDeclaration]
  split_ifs with hcount hschema hpayload
  · exact .inl ⟨rfl, rfl, hremember _ _⟩
  · exact .inl ⟨rfl, rfl, hremember _ _⟩
  · exact .inl ⟨rfl, rfl, (hremember _ _).trans (htruncate _).1⟩
  · exact .inr ⟨not_le.mp hcount, _, (htruncate _).2, rfl, rfl, congrArg (· + 1) (htruncate _).1⟩

section
variable {uuid : ℕ → Text} {tracked : Tracked}

theorem Inv.congr (h : Inv tracked) (hentries : context.entries = tracked.context.entries)
    (htools : context.upstreamTools = tracked.context.upstreamTools)
    (hbudget : context.budget.budgetedDeclarations =
      tracked.context.budget.budgetedDeclarations) :
    Inv { tracked with context := context } where
  tied := by
    have hsame : Tied context = Tied tracked.context := by
      funext tool client
      rw [Tied, Tied, hentries]
    show Forall₂ (Tied context) context.upstreamTools tracked.origins
    rw [hsame, htools]
    exact h.tied
  distinct := htools ▸ h.distinct
  declares := h.declares.congr htools (congrArg BTreeMap.keys hentries)
  count := by
    show context.entries.len ≤ context.budget.budgetedDeclarations
    rw [hentries, hbudget]
    exact h.count
  bound := hbudget ▸ h.bound
  read := h.read

/-- A new name is free, so the tools before it keep theirs. -/
theorem inv_push (h : Inv tracked) (hclient : client.IsRead) :
    Inv (push uuid tracked client) := by
  obtain ⟨hentries, htools, hbudget⟩ | ⟨hroom, passed, hentry, hentries, htools, hbudget⟩ :=
    pushExternalDeclaration_cases uuid tracked.context client.declaration
  · have hkept : push uuid tracked client =
        { tracked with
          context := pushExternalDeclaration uuid tracked.context client.declaration } := by
      rw [push, if_pos (congrArg length htools)]
    rw [hkept]
    exact h.congr hentries htools hbudget
  · have hgrown : push uuid tracked client =
        { context := pushExternalDeclaration uuid tracked.context client.declaration
          origins := tracked.origins ++ [client] } := by
      rw [push, if_neg]
      rw [htools, pushToolValue, length_append, length_singleton]
      omega
    have hsmall : tracked.context.entries.len < 9998 := by
      have hcount := h.count
      rw [maxExternalToolDeclarations] at hroom
      omega
    have hfresh : tracked.context.entries.get (upstreamName uuid tracked.context passed) = none :=
      uniqueToolName_fresh _ _ _ hsmall
    have hkey : upstreamName uuid tracked.context passed ∉ tracked.context.entries.keys := by
      rw [← isSome_get_iff, hfresh]
      decide
    have hold : ∀ tool other, Tied tracked.context tool other →
        Tied (pushExternalDeclaration uuid tracked.context client.declaration) tool other := by
      rintro tool other ⟨name, hname, haccepted, hget⟩
      refine ⟨name, hname, haccepted, ?_⟩
      have hne : name ≠ upstreamName uuid tracked.context passed := by
        rintro rfl
        rw [hfresh] at hget
        exact nomatch hget
      rw [hentries, pushToolValue]
      exact (get_insert_ne _ hne).trans hget
    have hnew : Tied (pushExternalDeclaration uuid tracked.context client.declaration)
        (toolValue uuid tracked.context passed) client := by
      refine ⟨_, functionName_functionTool _ _ _, isUpstreamName_uniqueToolName _ _ _ _, ?_⟩
      rw [hentries, pushToolValue, ← hentry]
      exact get_insert_self _ _ _
    rw [hgrown]
    refine ⟨?_, ?_, (h.declares.push passed).congr htools (congrArg BTreeMap.keys hentries), ?_, ?_,
      ?_⟩
    · dsimp only
      rw [htools]
      exact rel_append (h.tied.imp hold) (.cons hnew .nil)
    · dsimp only
      rw [htools, pushToolValue]
      rw [map_append, nodup_append]
      refine ⟨h.distinct, nodup_singleton _, ?_⟩
      intro name hmem other hother heq
      obtain ⟨tool, htool, rfl⟩ := mem_map.mp hmem
      obtain ⟨key, hkeys, hname⟩ := h.declares.named tool htool
      rw [map_singleton, mem_singleton] at hother
      have hsame : some key = some (upstreamName uuid tracked.context passed) :=
        hname.symm.trans (heq.trans hother)
      exact hkey (Option.some.inj hsame ▸ hkeys)
    · dsimp only
      rw [hentries, hbudget, pushToolValue]
      have hlength := (insert_perm
        ⟨passed.responseName, passed.namespace_, passed.kind⟩ hkey).length_eq
      have hcount := h.count
      simp only [len, length_cons] at hlength hcount ⊢
      omega
    · dsimp only
      omega
    · intro other hother
      rcases mem_append.mp hother with hold | hnew
      · exact h.read other hold
      · exact mem_singleton.mp hnew ▸ hclient

theorem inv_pushAll {skip : ToolDeclaration → Bool} {prepare : ToolContext → ToolContext}
    (hprepare : ∀ context, (prepare context).entries = context.entries ∧
      (prepare context).upstreamTools = context.upstreamTools ∧
      (prepare context).budget = context.budget)
    (h : Inv tracked) {clients : List ClientTool} (hclients : ∀ client ∈ clients, client.IsRead) :
    Inv (pushAll uuid skip prepare tracked clients) := by
  induction clients generalizing tracked with
  | nil => exact h
  | cons client clients ih =>
    rw [forall_mem_cons] at hclients
    rw [pushAll, foldl_cons]
    refine ih ?_ hclients.2
    split_ifs
    · exact h
    · obtain ⟨hentries, htools, hbudget⟩ := hprepare tracked.context
      exact inv_push (h.congr hentries htools (by rw [hbudget])) hclients.1

theorem inv_ofRequest : Inv (ofRequest uuid tools) := by
  have hempty : ∀ items, Inv { context := { requestToolItems := items } } := fun items =>
    ⟨.nil, nodup_nil, declares_empty items, Nat.le_refl 0, Nat.zero_le _, nofun⟩
  unfold ofRequest
  split
  · refine inv_pushAll (fun _ => ⟨rfl, rfl, rfl⟩) (hempty _) ?_
    intro client hclient
    obtain ⟨entry, _, hentry⟩ := mem_flatMap.mp hclient
    exact clientTools_isRead client hentry
  · exact hempty 0

theorem inv_discover (h : Inv tracked) (discovery : Option Value × List Text) :
    Inv (discover uuid tracked discovery) := by
  unfold discover
  split
  · exact h
  · refine @inv_pushAll _ _ _ countDiscovered (fun _ => ⟨rfl, rfl, rfl⟩) h _ ?_
    intro client hclient
    obtain ⟨tool, _, htool⟩ := mem_flatMap.mp hclient
    exact clientTools_isRead client htool

theorem inv_run (tools : Option Value) (discoveries : List (Option Value × List Text)) :
    Inv (run uuid tools discoveries) := by
  have hfold : ∀ (discoveries : List (Option Value × List Text)) (tracked : Tracked),
      Inv tracked → Inv (discoveries.foldl (discover uuid) tracked) := by
    intro discoveries
    induction discoveries with
    | nil => exact fun _ h => h
    | cons discovery discoveries ih => exact fun _ h => ih _ (inv_discover h discovery)
  exact hfold discoveries _ (inv_ofRequest tools)

end

end Tracked

/-! ## Calls come back -/

theorem get_setSome_ne {item : Value} {key other : Text} (h : other ≠ key) (value : Option Value) :
    (setSome item key value).get other = item.get other := by
  cases value with
  | none => rfl
  | some field => exact Value.get_set_ne h field

/-- The item of a call has the name and the namespace of the declaration behind the call. -/
theorem responseItem_names {call : ChatToolCall} {entry : ToolEntry}
    (h : context.entries.get call.name = some entry) (hkind : entry.kind = .function)
    (texts : ItemTexts) (itemId : Text) :
    (context.responseItemFromChatCallWithId texts call itemId).getStr "name" =
        some entry.responseName ∧
      (context.responseItemFromChatCallWithId texts call itemId).getStr "namespace" =
        entry.namespace_ := by
  have hfunction : ¬context.isCodexToolSearchTool call.name = true := by
    rw [isCodexToolSearchTool, h, Option.map_some, hkind]
    decide
  rw [responseItemFromChatCallWithId]
  rw [if_neg hfunction, h]
  constructor
  · rw [Value.getStr, get_setSome_ne (by decide), get_setSome_ne (by decide)]
    rfl
  · rw [Value.getStr, get_setSome_ne (by decide), Option.bind_some]
    cases entry.namespace_ with
    | none => rfl
    | some value => exact congrArg (Option.bind · Value.asStr) (Value.get_set_self _ _ _)

/-- What is expected of the names: they are told apart, accepted and known, and a call of one
comes back under the name and the namespace that the client has written. -/
structure NamesRoundTrip (context : ToolContext) (origins : List ClientTool) : Prop where
  distinct : (context.upstreamTools.map functionName).Nodup
  accepted : ∀ tool ∈ context.upstreamTools, ∃ name, functionName tool = some name ∧
    IsUpstreamName name
  keys : ∀ name, name ∈ context.upstreamNames ↔
    some name ∈ context.upstreamTools.map functionName
  back : List.Forall₂ (fun tool client => ∀ texts call itemId, functionName tool = some call.name →
    (context.responseItemFromChatCallWithId texts call itemId).getStr "name" = some client.name ∧
    (context.responseItemFromChatCallWithId texts call itemId).getStr "namespace" =
      client.namespace_) context.upstreamTools origins

end ToolContext

/-- A name that the provider accepts as it stands, and a namespace without blanks at its ends. -/
structure ClientTool.IsPlain (client : ClientTool) : Prop where
  name : IsUpstreamName client.name
  filled : onlyUnderscores client.name = false
  namespace_ : ∀ value ∈ client.namespace_, value.trim = value

theorem isWhitespace_of_isToolNameChar {c : Char} (h : isToolNameChar c = true) :
    isWhitespace c = false := by
  have hrange : (48 ≤ c.toNat ∧ c.toNat ≤ 57) ∨ (65 ≤ c.toNat ∧ c.toNat ≤ 90) ∨
      (97 ≤ c.toNat ∧ c.toNat ≤ 122) ∨ c.toNat = 95 ∨ c.toNat = 45 := by
    delta isToolNameChar Char.isAlphanum Char.isAlpha Char.isUpper Char.isLower at h
    simp only [Char.isDigit, Bool.or_eq_true, Bool.and_eq_true, decide_eq_true_eq, ge_iff_le,
      UInt32.le_iff_toNat_le] at h
    obtain (((h | h) | h) | rfl) | rfl := h
    · exact .inr (.inl h)
    · exact .inr (.inr (.inl h))
    · exact .inl h
    · exact .inr (.inr (.inr (.inl rfl)))
    · exact .inr (.inr (.inr (.inr rfl)))
  simp only [isWhitespace, decide_eq_false_iff_not]
  omega

theorem isPlain_iff (h : client.IsRead) :
    client.IsPlain ↔ client.declaration.responseName = client.name ∧
      client.declaration.namespace_ = client.namespace_ := by
  have hspaces : (∀ c ∈ client.name, isToolNameChar c = true) → client.name.trim = client.name := by
    intro hchars
    have hplain : ∀ c ∈ client.name, isWhitespace c = false :=
      fun c hc => isWhitespace_of_isToolNameChar (hchars c hc)
    exact (trim_of_ends (fun c hc => hplain c (mem_of_mem_head? hc))
      fun c hc => hplain c (mem_of_getLast? hc)).2
  have hname : sanitizeToolName client.name.trim = client.name ↔
      IsUpstreamName client.name ∧ onlyUnderscores client.name = false := by
    constructor
    · intro heq
      have htrim := hspaces (heq ▸ isUpstreamName_sanitizeToolName _).chars
      rw [htrim] at heq
      exact sanitizeToolName_eq_self_iff.mp heq
    · intro hplain
      rw [hspaces hplain.1.chars]
      exact sanitizeToolName_eq_self_iff.mpr hplain
  have hnamespace : client.namespace_.map trim = client.namespace_ ↔
      ∀ value ∈ client.namespace_, value.trim = value := by
    cases client.namespace_ <;> simp
  rw [h.name_eq, h.namespace_eq, hname, hnamespace]
  exact ⟨fun h => ⟨⟨h.name, h.filled⟩, h.namespace_⟩, fun h => ⟨h.1.1, h.1.2, h.2⟩⟩

namespace ToolContext

theorem forall₂_iff_right {α β : Type} {R P : α → β → Prop} {Q : β → Prop} {xs : List α}
    {ys : List β} (h : List.Forall₂ R xs ys)
    (hiff : ∀ x, ∀ y ∈ ys, R x y → (P x y ↔ Q y)) :
    List.Forall₂ P xs ys ↔ ∀ y ∈ ys, Q y := by
  induction h with
  | nil => simp
  | cons hxy _ ih =>
    rw [forall_mem_cons, forall₂_cons, hiff _ _ mem_cons_self hxy,
      ih fun x y hy => hiff x y (mem_cons_of_mem _ hy)]

theorem exists_of_forall₂ {α β : Type} {R : α → β → Prop} {xs : List α} {ys : List β}
    (h : List.Forall₂ R xs ys) {x : α} (hx : x ∈ xs) : ∃ y ∈ ys, R x y := by
  induction h with
  | nil => cases hx
  | cons hxy _ ih =>
    rcases mem_cons.mp hx with rfl | hx
    · exact ⟨_, mem_cons_self, hxy⟩
    · obtain ⟨y, hy, hr⟩ := ih hx
      exact ⟨y, mem_cons_of_mem _ hy, hr⟩

theorem inv_roundTrip_iff {tracked : Tracked} (h : tracked.Inv) :
    NamesRoundTrip tracked.context tracked.origins ↔
      ∀ client ∈ tracked.origins, client.IsPlain := by
  have htied : ∀ tool client, Tracked.Tied tracked.context tool client → client.IsRead →
      ((∀ texts call itemId, functionName tool = some call.name →
        (tracked.context.responseItemFromChatCallWithId texts call itemId).getStr "name" =
            some client.name ∧
          (tracked.context.responseItemFromChatCallWithId texts call itemId).getStr "namespace" =
            client.namespace_) ↔ client.IsPlain) := by
    rintro tool client ⟨name, hname, -, hget⟩ hread
    have hnames : ∀ texts call itemId, functionName tool = some call.name →
        (tracked.context.responseItemFromChatCallWithId texts call itemId).getStr "name" =
            some client.declaration.responseName ∧
          (tracked.context.responseItemFromChatCallWithId texts call itemId).getStr "namespace" =
            client.declaration.namespace_ := by
      intro texts call itemId hcall
      obtain rfl : name = call.name := Option.some.inj (hname.symm.trans hcall)
      exact responseItem_names hget hread.kind_eq texts itemId
    rw [isPlain_iff hread]
    constructor
    · intro hback
      obtain ⟨hown, hspace⟩ := hnames ⟨fun _ => none, id, fun _ => .null, fun _ => none⟩
        ⟨[], name, []⟩ [] hname
      obtain ⟨hownBack, hspaceBack⟩ := hback ⟨fun _ => none, id, fun _ => .null, fun _ => none⟩
        ⟨[], name, []⟩ [] hname
      exact ⟨Option.some.inj (hown.symm.trans hownBack), hspace.symm.trans hspaceBack⟩
    · rintro ⟨hown, hspace⟩ texts call itemId hcall
      rw [← hown, ← hspace]
      exact hnames texts call itemId hcall
  have hback := @forall₂_iff_right _ _ (Tracked.Tied tracked.context) (fun tool client =>
    ∀ texts call itemId, functionName tool = some call.name →
      (tracked.context.responseItemFromChatCallWithId texts call itemId).getStr "name" =
          some client.name ∧
        (tracked.context.responseItemFromChatCallWithId texts call itemId).getStr "namespace" =
          client.namespace_) ClientTool.IsPlain _ _ h.tied
    fun tool client hclient htie => htied tool client htie (h.read client hclient)
  constructor
  · intro hnames
    exact hback.mp hnames.back
  · intro hplain
    refine ⟨h.distinct, ?_, fun name => ⟨fun hname => ?_, fun hname => ?_⟩, hback.mpr hplain⟩
    · intro tool htool
      obtain ⟨client, -, name, hname, haccepted, -⟩ := exists_of_forall₂ h.tied htool
      exact ⟨name, hname, haccepted⟩
    · obtain ⟨tool, htool, heq⟩ := h.declares.declared name hname
      exact heq ▸ mem_map_of_mem htool
    · obtain ⟨tool, htool, heq⟩ := mem_map.mp hname
      obtain ⟨key, hkey, hkeyName⟩ := h.declares.named tool htool
      exact Option.some.inj (hkeyName.symm.trans heq) ▸ hkey

/-- In every run the names that the provider sees are told apart, accepted and known, and every
tool comes back as it was declared exactly if the names of those that are passed on need no
change. -/
theorem namesRoundTrip_iff (uuid : ℕ → Text) (tools : Option Value)
    (discoveries : List (Option Value × List Text)) :
    NamesRoundTrip (contextAfter uuid tools discoveries)
        (Tracked.run uuid tools discoveries).origins ↔
      ∀ client ∈ (Tracked.run uuid tools discoveries).origins, client.IsPlain := by
  rw [← Tracked.run_context]
  exact inv_roundTrip_iff (Tracked.inv_run tools discoveries)

/-- Two functions of the client; the provider accepts no dot in a name. -/
def dottedTools : Value :=
  .array [
    .object [("name", .string "my.tool"), ("parameters", .object []), ("type", .string "function")],
    .object [("name", .string "my_tool"), ("parameters", .object []), ("type", .string "function")]]

/-- Both functions come back under the name of the second one. -/
theorem dottedTools_confused :
    (contextAfter (fun _ => []) (some dottedTools) []).upstreamTools.map functionName =
        [some (lit "my_tool"), some (lit "my_tool_2")] ∧
      ((contextAfter (fun _ => []) (some dottedTools) []).entries.values.map
        ToolEntry.responseName) = [lit "my_tool", lit "my_tool"] ∧
      ¬NamesRoundTrip (contextAfter (fun _ => []) (some dottedTools) [])
        (Tracked.run (fun _ => []) (some dottedTools) []).origins := by
  have hinv := @Tracked.inv_run (fun _ => []) (some dottedTools) []
  have hiff := inv_roundTrip_iff hinv
  rw [Tracked.run_context] at hiff
  have hdotted : lit "my.tool" ∈
      (Tracked.run (fun _ => []) (some dottedTools) []).origins.map ClientTool.name := by
    decide +kernel
  refine ⟨by decide +kernel, by decide +kernel, fun h => ?_⟩
  obtain ⟨client, hclient, hname⟩ := mem_map.mp hdotted
  have hdot := (hiff.mp h client hclient).name.chars '.' (by rw [hname]; decide)
  exact absurd hdot (by decide)

end ToolContext

end CodeSeeX.Tools
