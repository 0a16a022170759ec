import CodeSeeX.General.FirstWins
import CodeSeeX.General.Positions
import CodeSeeX.Proxy.ToolDeclarations

/-!
# Namespaces declared once

A request declares tools at its top and in its input items. Read in this order, the first
declaration of a namespace stays where it is with the nested tools of all of them, later ones
go, and everything else stays.
-/
namespace CodeSeeX.Native

open FirstWins List

variable (object : Value) {lists : List (List Value)} {name : Text} {site : GroupedToolSite}
  {tools : List Value} {entry : Value}

/-! ## The declarations of a request -/

/-- The tool list at the top of a request, or of one of its input items. -/
def toolList (object : Value) : Option ℕ → List Value
  | none => arrayOf object "tools"
  | some item => arrayOf ((arrayOf object "input").getD item .null) "tools"

/-- The lists of a request, in the order in which they are read. -/
def listIndexes (object : Value) : List (Option ℕ) :=
  none :: (range (arrayOf object "input").length).map some

def siteAt : Option ℕ → ℕ → GroupedToolSite
  | none, index => .tools index
  | some item, tool => .input item tool

def GroupedToolSite.list : GroupedToolSite → Option ℕ
  | .tools _ => none
  | .input item _ => some item

def GroupedToolSite.index : GroupedToolSite → ℕ
  | .tools index => index
  | .input _ tool => tool

@[simp] theorem siteAt_list (list : Option ℕ) (index : ℕ) : (siteAt list index).list = list := by
  cases list <;> rfl

@[simp] theorem siteAt_index (list : Option ℕ) (index : ℕ) : (siteAt list index).index = index := by
  cases list <;> rfl

@[simp] theorem siteAt_list_index (site : GroupedToolSite) :
    siteAt site.list site.index = site := by
  cases site <;> rfl

/-- The entries of one list, with their sites. -/
def placedIn (object : Value) (list : Option ℕ) : List (GroupedToolSite × Value) :=
  (toolList object list).zipIdx.map fun p => (siteAt list p.2, p.1)

/-- The entries of all lists. -/
def placed (object : Value) : List (GroupedToolSite × Value) :=
  (listIndexes object).flatMap (placedIn object)

/-- The entries with the list that each is in. -/
def declared (object : Value) : List (Option ℕ × Value) :=
  (placed object).map fun p => (p.1.list, p.2)

theorem placedIn_sites (object : Value) (list : Option ℕ) : (placedIn object list).map Prod.fst =
    (range (toolList object list).length).map (siteAt list) := by
  rw [placedIn, map_map, range_eq_range', ← zipIdx_map_snd, map_map]
  rfl

/-- The sites of one list come in ascending order. -/
theorem sites_ascending (object : Value) : ((placed object).map Prod.fst).Pairwise
    fun site other => site.list = other.list → site.index < other.index := by
  have hlists : (listIndexes object).Nodup := by
    rw [listIndexes, nodup_cons]
    exact ⟨by simp, (nodup_range).map (Option.some_injective _)⟩
  rw [placed, map_flatMap, pairwise_flatMap]
  constructor
  · intro list _
    rw [placedIn_sites, pairwise_map]
    refine pairwise_lt_range.imp fun {i j} hlt _ => ?_
    rw [siteAt_index, siteAt_index]
    exact hlt
  · refine hlists.imp fun {list other} hne site hsite site' hsite' hsame => ?_
    rw [placedIn_sites] at hsite hsite'
    obtain ⟨i, _, rfl⟩ := mem_map.mp hsite
    obtain ⟨j, _, rfl⟩ := mem_map.mp hsite'
    rw [siteAt_list, siteAt_list] at hsame
    exact absurd hsame hne

theorem nodup_sites : ((placed object).map Prod.fst).Nodup := by
  refine (sites_ascending object).imp fun {site other} hlt heq => ?_
  subst heq
  exact absurd (hlt rfl) (lt_irrefl _)

theorem zipIdx_eq_range {α : Type*} (xs : List α) (a : α) :
    xs.zipIdx = (range xs.length).map fun i => (xs.getD i a, i) := by
  refine ext_getElem? fun i => ?_
  by_cases hi : i < xs.length
  · simp [hi]
  · simp [hi]

theorem groupedNames_eq (tools : List Value) (site : ℕ → GroupedToolSite) :
    groupedNames tools site = (tools.zipIdx.map fun p => (site p.2, p.1)).filterMap fun p =>
      (groupedDeclarationName p.2).map fun name => (name, p.1) := by
  rw [groupedNames, filterMap_map]
  rfl

theorem groupedToolOccurrences_eq : groupedToolOccurrences object =
    (placed object).filterMap fun p =>
      (groupedDeclarationName p.2).map fun name => (name, p.1) := by
  rw [groupedToolOccurrences, zipIdx_eq_range _ .null, flatMap_map, placed, listIndexes,
    flatMap_cons, filterMap_append, flatMap_map, filterMap_flatMap]
  simp only [groupedNames_eq]
  rfl

/-- The entry at a site. -/
theorem groupedToolEntry_eq (object : Value) (site : GroupedToolSite) :
    groupedToolEntry object site = (toolList object site.list)[site.index]? := by
  cases site with
  | tools index => rfl
  | input item tool =>
    rw [groupedToolEntry, GroupedToolSite.list, toolList, GroupedToolSite.index, getD]
    cases (arrayOf object "input")[item]? with
    | some entry => rfl
    | none =>
      have hnone : arrayOf .null "tools" = [] := rfl
      simp [hnone]

theorem mem_placed_iff {object : Value} {site : GroupedToolSite} {entry : Value} :
    (site, entry) ∈ placed object ↔ site.list ∈ listIndexes object ∧
      (toolList object site.list)[site.index]? = some entry := by
  rw [placed, mem_flatMap]
  constructor
  · rintro ⟨list, hlist, hmem⟩
    obtain ⟨⟨e, i⟩, hp, heq⟩ := mem_map.mp hmem
    obtain ⟨rfl, rfl⟩ := Prod.mk.inj heq
    rw [siteAt_list, siteAt_index]
    exact ⟨hlist, mem_zipIdx_iff_getElem?.mp hp⟩
  · rintro ⟨hlist, hget⟩
    refine ⟨site.list, hlist, mem_map.mpr ⟨(entry, site.index), ?_, ?_⟩⟩
    · exact mem_zipIdx_iff_getElem?.mpr hget
    · rw [siteAt_list_index]

/-! ## Changes to the lists -/

theorem get_updateField_ne {v : Value} {key other : Text} (h : other ≠ key) (f : Value → Value) :
    (updateField v key f).get other = v.get other := by
  rw [updateField]
  cases v.get key with
  | none => rfl
  | some field => exact Value.get_set_ne h _

theorem get_updateField_self (v : Value) (key : Text) (f : Value → Value) :
    (updateField v key f).get key = (v.get key).map f := by
  rw [updateField]
  cases hget : v.get key with
  | none => exact hget
  | some field =>
    cases v with
    | object fields => exact Value.get_set_self fields key _
    | null => cases hget
    | bool b => cases hget
    | number n => cases hget
    | string s => cases hget
    | array items => cases hget

/-- A change to an array that is a field. -/
theorem arrayOf_updateField {f : List Value → List Value} (hf : f [] = []) (v : Value)
    (key : Text) : arrayOf (updateField v key fun field => updateItems field f) key =
      f (arrayOf v key) := by
  rw [arrayOf, arrayOf, get_updateField_self]
  cases v.get key with
  | none => exact hf.symm
  | some field =>
    cases field with
    | array items => rfl
    | null => exact hf.symm
    | bool b => exact hf.symm
    | number n => exact hf.symm
    | string s => exact hf.symm
    | object fields => exact hf.symm

theorem arrayOf_updateField_ne {v : Value} {key other : Text} (h : other ≠ key)
    (f : Value → Value) : arrayOf (updateField v key f) other = arrayOf v other := by
  rw [arrayOf, arrayOf, get_updateField_ne h]

section Update
variable {f : List Value → List Value} (object : Value)

theorem arrayOf_updateTools_input (item : ℕ) :
    arrayOf (updateTools object (some item) f) "input" = (arrayOf object "input").modify item
      fun entry => updateField entry "tools" fun tools => updateItems tools f :=
  arrayOf_updateField (by simp) object "input"

theorem inputLength_updateTools (list : Option ℕ) :
    (arrayOf (updateTools object list f) "input").length = (arrayOf object "input").length := by
  cases list with
  | none => exact congrArg length (arrayOf_updateField_ne (by decide) _)
  | some item => rw [arrayOf_updateTools_input, length_modify]

/-- One list changes, the others do not. -/
theorem toolList_updateTools (hf : f [] = []) (list other : Option ℕ) :
    toolList (updateTools object list f) other =
      if other = list then f (toolList object list) else toolList object other := by
  cases list with
  | none =>
    cases other with
    | none =>
      exact arrayOf_updateField hf object "tools"
    | some item =>
      rw [if_neg (by simp), toolList, toolList, updateTools,
        arrayOf_updateField_ne (by decide)]
  | some item =>
    cases other with
    | none =>
      exact arrayOf_updateField_ne (by decide) _
    | some other =>
      rw [toolList, arrayOf_updateTools_input, getD, getElem?_modify]
      by_cases heq : item = other
      · subst heq
        simp only [if_true]
        rw [toolList, getD]
        cases (arrayOf object "input")[item]? with
        | none => exact hf.symm
        | some entry => exact arrayOf_updateField hf entry "tools"
      · have hne : ¬some other = some item := fun hsome => heq (Option.some.inj hsome).symm
        rw [if_neg hne, toolList, getD]
        simp [heq]

/-- Two requests that differ in the tools of their lists alone. -/
structure SameOutside (object changed : Value) : Prop where
  get_eq : ∀ key : Text, key ≠ "tools" → key ≠ "input" → changed.get key = object.get key
  length_eq : (arrayOf changed "input").length = (arrayOf object "input").length
  item_eq : ∀ (i : ℕ) (key : Text), key ≠ "tools" →
    ((arrayOf changed "input")[i]?).map (·.get key) = ((arrayOf object "input")[i]?).map (·.get key)
  bare_eq : ∀ (i : ℕ) (item : Value), (arrayOf object "input")[i]? = some item →
    item.get "tools" = none → (arrayOf changed "input")[i]? = some item

omit f in
theorem SameOutside.refl : SameOutside object object :=
  ⟨fun _ _ _ => rfl, rfl, fun _ _ _ => rfl, fun _ _ hitem _ => hitem⟩

omit f in
variable {object} in
theorem SameOutside.trans {changed next : Value} (h : SameOutside object changed)
    (hnext : SameOutside changed next) : SameOutside object next where
  get_eq key htools hinput := (hnext.get_eq key htools hinput).trans (h.get_eq key htools hinput)
  length_eq := hnext.length_eq.trans h.length_eq
  item_eq i key htools := (hnext.item_eq i key htools).trans (h.item_eq i key htools)
  bare_eq i item hitem hbare := hnext.bare_eq i item (h.bare_eq i item hitem hbare) hbare

theorem sameOutside_updateTools (list : Option ℕ) :
    SameOutside object (updateTools object list f) := by
  cases list with
  | none =>
    have hinput : arrayOf (updateTools object none f) "input" = arrayOf object "input" :=
      arrayOf_updateField_ne (by decide) _
    refine ⟨fun key htools _ => get_updateField_ne htools _, congrArg length hinput,
      fun i key _ => ?_, fun i item hitem _ => ?_⟩
    · rw [hinput]
    · rw [hinput, hitem]
  | some list =>
    refine ⟨fun key _ hinput => get_updateField_ne hinput _,
      inputLength_updateTools object (some list), fun i key htools => ?_,
      fun i item hitem hbare => ?_⟩
    · rw [arrayOf_updateTools_input, getElem?_modify, Option.map_eq_map, Option.map_map]
      cases (arrayOf object "input")[i]? with
      | none => rfl
      | some entry =>
        by_cases heq : list = i
        · simp [heq, get_updateField_ne htools]
        · simp [heq]
    · have hsame : updateField item "tools" (fun tools => updateItems tools f) = item := by
        rw [updateField, hbare]
      rw [arrayOf_updateTools_input, getElem?_modify, hitem]
      by_cases heq : list = i
      · simp [heq, hsame]
      · simp [heq]

end Update

/-! ## Merged declarations -/

/-- A declaration with other nested tools. -/
def withNested (tools : List Value) (entry : Value) : Value :=
  match entry with
  | .object _ => entry.set "tools" (.array tools)
  | entry => entry

theorem setGroupedTools_eq (object : Value) (site : GroupedToolSite) (tools : List Value) :
    setGroupedTools object site tools =
      updateTools object site.list fun entries => entries.modify site.index (withNested tools) := by
  cases site <;> rfl

theorem placed_setGroupedTools (object : Value) (site : GroupedToolSite) (tools : List Value) :
    placed (setGroupedTools object site tools) = (placed object).map fun p =>
      if p.1 = site then (p.1, withNested tools p.2) else p := by
  have hlists : listIndexes (setGroupedTools object site tools) = listIndexes object := by
    rw [listIndexes, listIndexes, setGroupedTools_eq, inputLength_updateTools]
  rw [placed, placed, hlists, map_flatMap]
  refine congrArg (flatMap · (listIndexes object)) (funext fun list => ?_)
  rw [placedIn, placedIn, setGroupedTools_eq, toolList_updateTools object (by simp), map_map]
  by_cases hlist : list = site.list
  · subst hlist
    rw [if_pos rfl, Positions.modify_zipIdx, map_map]
    refine map_congr_left fun p _ => ?_
    have hsite : siteAt site.list p.2 = site ↔ p.2 = 0 + site.index := by
      rw [Nat.zero_add]
      constructor
      · intro h
        rw [← siteAt_index site.list p.2, h]
      · intro h
        rw [h, siteAt_list_index]
    simp only [Function.comp_apply, hsite]
    split_ifs <;> rfl
  · rw [if_neg hlist]
    refine map_congr_left fun p _ => ?_
    have hsite : siteAt list p.2 ≠ site := by
      rintro rfl
      exact hlist (siteAt_list list p.2).symm
    simp [hsite]

/-- The merged declarations are written one after the other. -/
def setAll (object : Value) (sets : List (GroupedToolSite × List Value)) : Value :=
  sets.foldl (fun object set => setGroupedTools object set.1 set.2) object

/-- An entry behind these writes. -/
def setEntry (sets : List (GroupedToolSite × List Value)) (site : GroupedToolSite)
    (entry : Value) : Value :=
  sets.foldl (fun entry set => if site = set.1 then withNested set.2 entry else entry) entry

theorem placed_setAll (sets : List (GroupedToolSite × List Value)) :
    placed (setAll object sets) = (placed object).map fun p => (p.1, setEntry sets p.1 p.2) := by
  induction sets generalizing object with
  | nil => simp [setAll, setEntry]
  | cons set sets ih =>
    have hnext : setAll object (set :: sets) =
        setAll (setGroupedTools object set.1 set.2) sets := rfl
    rw [hnext, ih, placed_setGroupedTools, map_map]
    refine map_congr_left fun p _ => ?_
    simp only [Function.comp_apply, setEntry, foldl_cons]
    split_ifs <;> rfl

theorem sameOutside_setAll (object : Value) (sets : List (GroupedToolSite × List Value)) :
    SameOutside object (setAll object sets) := by
  induction sets generalizing object with
  | nil => exact SameOutside.refl object
  | cons set sets ih =>
    have hset : SameOutside object (setGroupedTools object set.1 set.2) := by
      rw [setGroupedTools_eq]
      exact sameOutside_updateTools object set.1.list
    exact hset.trans (ih _)

section
variable {sets : List (GroupedToolSite × List Value)} {site : GroupedToolSite}

theorem setEntry_of_notMem
    (h : site ∉ sets.map Prod.fst) (entry : Value) : setEntry sets site entry = entry := by
  induction sets generalizing entry with
  | nil => rfl
  | cons set sets ih =>
    rw [map_cons, mem_cons, not_or] at h
    rw [setEntry, foldl_cons, if_neg h.1]
    exact ih h.2 entry

theorem setEntry_of_mem
    {tools : List Value} (hnodup : (sets.map Prod.fst).Nodup) (h : (site, tools) ∈ sets)
    (entry : Value) : setEntry sets site entry = withNested tools entry := by
  induction sets generalizing entry with
  | nil => exact absurd h not_mem_nil
  | cons set sets ih =>
    rw [map_cons, nodup_cons] at hnodup
    rw [setEntry, foldl_cons]
    rcases mem_cons.mp h with heq | hmem
    · subst heq
      rw [if_pos rfl]
      exact setEntry_of_notMem hnodup.1 _
    · have hne : site ≠ set.1 := by
        intro heq
        have hfirst : site ∈ sets.map Prod.fst := mem_map.mpr ⟨_, hmem, rfl⟩
        exact hnodup.1 (heq ▸ hfirst)
      rw [if_neg hne]
      exact ih hnodup.2 hmem entry

end

/-! ## Removed declarations -/

/-- The positions of sites in one list. -/
def positionsIn (sites : List GroupedToolSite) (list : Option ℕ) : List ℕ :=
  (sites.filter (·.list = list)).map GroupedToolSite.index

section
variable (object : Value) (sites : List GroupedToolSite)

theorem removeGroupedEntries_concat
    (site : GroupedToolSite) : removeGroupedEntries object (sites ++ [site]) =
      removeGroupedEntries (updateTools object site.list fun entries =>
        entries.eraseIdx site.index) sites := by
  rw [removeGroupedEntries, reverse_append, reverse_singleton, singleton_append,
    foldl_cons, removeGroupedEntries]
  cases site <;> rfl

/-- What one list keeps when entries are removed from all of them. -/
theorem toolList_removeGroupedEntries
    (list : Option ℕ) : toolList (removeGroupedEntries object sites) list =
      (positionsIn sites list).reverse.foldl eraseIdx (toolList object list) := by
  induction sites using reverseRecOn generalizing object with
  | nil => rfl
  | append_singleton sites site ih =>
    rw [removeGroupedEntries_concat, ih, toolList_updateTools object (by simp), positionsIn,
      positionsIn, filter_append, map_append]
    by_cases hlist : list = site.list
    · subst hlist
      simp
    · have hne : ¬site.list = list := fun h => hlist h.symm
      simp [hlist, hne]

theorem sameOutside_removeGroupedEntries :
    SameOutside object (removeGroupedEntries object sites) := by
  induction sites using reverseRecOn generalizing object with
  | nil => exact SameOutside.refl object
  | append_singleton sites site ih =>
    rw [removeGroupedEntries_concat]
    exact (sameOutside_updateTools object site.list).trans (ih _)

end

section
variable {object : Value} {sites : List GroupedToolSite}
  (h : sites.Sublist ((placed object).map Prod.fst))
include h

theorem positionsIn_ascending (list : Option ℕ) :
    (positionsIn sites list).Pairwise (· < ·) := by
  rw [positionsIn, pairwise_map]
  have hsites := ((sites_ascending object).sublist h).sublist
    (filter_sublist (p := (·.list = list)))
  refine hsites.imp_of_mem fun {site other} hsite hother hlt => hlt ?_
  have hfirst := of_mem_filter hsite
  have hsecond := of_mem_filter hother
  simp only [decide_eq_true_eq] at hfirst hsecond
  rw [hfirst, hsecond]

/-- The entries that are left, each in its list. -/
theorem declared_removeGroupedEntries :
    declared (removeGroupedEntries object sites) =
      ((placed object).filter (·.1 ∉ sites)).map fun p => (p.1.list, p.2) := by
  have hlists : listIndexes (removeGroupedEntries object sites) = listIndexes object := by
    rw [listIndexes, listIndexes, (sameOutside_removeGroupedEntries object sites).length_eq]
  rw [declared, placed, placed, hlists, map_flatMap, filter_flatMap, map_flatMap]
  refine congrArg (flatMap · (listIndexes object)) (funext fun list => ?_)
  have hsite : ∀ index, siteAt list index ∈ sites ↔ index ∈ positionsIn sites list := by
    intro index
    rw [positionsIn, mem_map]
    constructor
    · intro hmem
      exact ⟨siteAt list index, mem_filter.mpr ⟨hmem, by simp⟩, siteAt_index list index⟩
    · rintro ⟨site, hmem, rfl⟩
      obtain ⟨hmem, hlist⟩ := mem_filter.mp hmem
      simp only [decide_eq_true_eq] at hlist
      rw [← hlist, siteAt_list_index]
      exact hmem
  have hview : ∀ entries : List (Value × ℕ), (entries.map fun p => (siteAt list p.2, p.1)).map
      (fun p => (p.1.list, p.2)) = (entries.map Prod.fst).map fun entry => (list, entry) := by
    intro entries
    rw [map_map, map_map]
    refine map_congr_left fun p _ => ?_
    simp
  have hkept : ((placedIn object list).filter (·.1 ∉ sites)) =
      ((toolList object list).zipIdx.filter fun p => p.2 ∉ positionsIn sites list).map
        fun p => (siteAt list p.2, p.1) := by
    rw [placedIn, filter_map]
    refine congrArg _ (filter_congr fun p _ => ?_)
    simp [hsite]
  rw [hkept, hview, placedIn, hview, zipIdx_map_fst, toolList_removeGroupedEntries,
    Positions.foldl_eraseIdx (positionsIn_ascending h list)]

end

/-! ## The merge -/

/-- The tools of the first list, and those of the others that it does not have. -/
def mergeAll : List (List Value) → List Value
  | [] => []
  | tools :: later => later.foldl mergeNestedTools tools

/-- The nested tools of the occurrences of a name. -/
def nestedLists (object : Value) (occurrences : List (Text × GroupedToolSite)) (name : Text) :
    List (List Value) :=
  (occurrences.filter (·.1 = name)).map fun o => nestedToolsOf object o.2

theorem nestedLists_concat (occurrences : List (Text × GroupedToolSite))
    (o : Text × GroupedToolSite) (name : Text) : nestedLists object (occurrences ++ [o]) name =
      nestedLists object occurrences name ++
        if o.1 = name then [nestedToolsOf object o.2] else [] := by
  rw [nestedLists, filter_append, map_append, nestedLists]
  by_cases h : o.1 = name <;> simp [h]

theorem mergeAll_concat (h : lists ≠ []) (tools : List Value) :
    mergeAll (lists ++ [tools]) = mergeNestedTools (mergeAll lists) tools := by
  cases lists with
  | nil => exact absurd rfl h
  | cons first later => rw [cons_append, mergeAll, foldl_append, mergeAll]; rfl

/-- What the loop has collected behind some occurrences. -/
structure Collected (object : Value) (occurrences : List (Text × GroupedToolSite))
    (m : NamespaceMerge) : Prop where
  first_eq : m.first = (firstBy (fun o => some o.1) occurrences).map fun o =>
    (o.1, o.2, mergeAll (nestedLists object occurrences o.1))
  repeated_eq : m.repeated = (repeatsBy (fun o => some o.1) occurrences).map Prod.snd
  names_iff : ∀ name, name ∈ m.mergedNames ↔
    name ∈ (repeatsBy (fun o => some o.1) occurrences).map Prod.fst

theorem filterMap_name (occurrences : List (Text × GroupedToolSite)) :
    occurrences.filterMap (fun o => some o.1) = occurrences.map Prod.fst :=
  congrFun (filterMap_eq_map (f := Prod.fst)) occurrences

theorem Collected.step {object : Value} {occurrences : List (Text × GroupedToolSite)}
    {m : NamespaceMerge} (h : Collected object occurrences m) (o : Text × GroupedToolSite) :
    Collected object (occurrences ++ [o]) (m.step object o) := by
  obtain ⟨name, site⟩ := o
  obtain ⟨hfirst, hrepeated⟩ := @firstBy_repeatsBy_concat _ _ _
    (fun o : Text × GroupedToolSite => some o.1) occurrences (name, site) name rfl
  rw [filterMap_name] at hfirst hrepeated
  have hnames : name ∈ m.first.map Prod.fst ↔ name ∈ occurrences.map Prod.fst := by
    rw [h.first_eq, map_map, ← filterMap_name occurrences, ← mem_keys_firstBy,
      filterMap_name]
    rfl
  have hother : ∀ other, other ≠ name → nestedLists object (occurrences ++ [(name, site)]) other =
      nestedLists object occurrences other := by
    intro other hne
    rw [nestedLists_concat, if_neg (Ne.symm hne), append_nil]
  have hself : nestedLists object (occurrences ++ [(name, site)]) name =
      nestedLists object occurrences name ++ [nestedToolsOf object site] := by
    rw [nestedLists_concat, if_pos rfl]
  by_cases hknown : name ∈ occurrences.map Prod.fst
  · rw [if_pos hknown] at hfirst hrepeated
    have hlists : nestedLists object occurrences name ≠ [] := by
      obtain ⟨o, ho, hname⟩ := mem_map.mp hknown
      intro hnil
      rw [nestedLists, map_eq_nil_iff, filter_eq_nil_iff] at hnil
      exact hnil o ho (by simpa using hname)
    rw [NamespaceMerge.step, if_pos (hnames.mpr hknown)]
    refine ⟨?_, ?_, fun other => ?_⟩
    · rw [hfirst, h.first_eq, map_map]
      refine map_congr_left fun o _ => ?_
      simp only [Function.comp_apply]
      by_cases hname : o.1 = name
      · rw [if_pos hname, hname, hself, mergeAll_concat hlists]
      · rw [if_neg hname, hother o.1 hname]
    · rw [hrepeated, h.repeated_eq, map_append]
      rfl
    · rw [hrepeated, map_append, mem_append, ← h.names_iff other]
      split_ifs with hmerged
      · constructor
        · exact .inl
        · rintro (hmem | hmem)
          · exact hmem
          · rw [mem_singleton.mp hmem]
            exact hmerged
      · rw [mem_append]
        rfl
  · rw [if_neg hknown] at hfirst hrepeated
    have hnil : nestedLists object occurrences name = [] := by
      rw [nestedLists, map_eq_nil_iff, filter_eq_nil_iff]
      intro o ho hname
      refine hknown (mem_map.mpr ⟨o, ho, ?_⟩)
      simpa using hname
    rw [NamespaceMerge.step, if_neg (fun hmem => hknown (hnames.mp hmem))]
    refine ⟨?_, ?_, fun other => ?_⟩
    · rw [hfirst, map_append, map_singleton, hself, hnil, h.first_eq]
      refine congrArg (· ++ _) (map_congr_left fun o ho => ?_)
      have hne : o.1 ≠ name := by
        rintro rfl
        exact hknown (mem_map_of_mem ((keep_sublist [] occurrences).subset ho))
      rw [hother o.1 hne]
    · rw [hrepeated, h.repeated_eq]
    · rw [hrepeated]
      exact h.names_iff other

theorem collected (occurrences : List (Text × GroupedToolSite)) :
    Collected object occurrences (occurrences.foldl (NamespaceMerge.step object) {}) := by
  induction occurrences using reverseRecOn with
  | nil => exact ⟨rfl, rfl, fun name => by simp [repeatsBy, leftOut]⟩
  | append_singleton occurrences o ih =>
    rw [foldl_append, foldl_cons, foldl_nil]
    exact ih.step o

/-! ### Identities -/

def identities (tools : List Value) : List Text := tools.map nestedToolIdentity

theorem mem_identities_merge {canonical additional : List Value} {identity : Text} :
    identity ∈ identities (mergeNestedTools canonical additional) ↔
      identity ∈ identities canonical ∨ identity ∈ identities additional := by
  induction additional generalizing canonical with
  | nil => simp [mergeNestedTools, identities]
  | cons entry additional ih =>
    rw [mergeNestedTools, foldl_cons, ← mergeNestedTools, ih]
    simp only [identities, map_cons, mem_cons]
    split_ifs with hmem
    · constructor
      · exact Or.imp_right .inr
      · rintro (h | rfl | h)
        · exact .inl h
        · exact .inl hmem
        · exact .inr h
    · simp only [map_append, map_singleton, mem_append, mem_singleton]
      exact or_assoc

theorem mem_identities_mergeAll {identity : Text} :
    identity ∈ identities (mergeAll lists) ↔ ∃ tools ∈ lists, identity ∈ identities tools := by
  induction lists using reverseRecOn with
  | nil => simp [mergeAll, identities]
  | append_singleton lists tools ih =>
    by_cases hnil : lists = []
    · subst hnil
      simp [mergeAll]
    · rw [mergeAll_concat hnil, mem_identities_merge, ih]
      simp [or_and_right, exists_or]

/-! ### The request behind the merge -/

section Request
variable (payload : Value)

/-- What the loop over the occurrences ends with. -/
def mergeOf : NamespaceMerge :=
  (groupedToolOccurrences payload).foldl (NamespaceMerge.step payload) {}

/-- The writes at the first sites. -/
def setsOf : List (GroupedToolSite × List Value) :=
  ((mergeOf payload).first.filter fun entry => entry.1 ∈ (mergeOf payload).mergedNames).map
    Prod.snd

/-- The nested tools of all declarations of a name. -/
def nestedOf (name : Text) : List (List Value) :=
  nestedLists payload (groupedToolOccurrences payload) name

/-- A first declaration, with the nested tools of all if there are more. -/
def mergedEntry (entry : Value) : Value :=
  match groupedDeclarationName entry with
  | none => entry
  | some name =>
      if 2 ≤ (nestedOf payload name).length then withNested (mergeAll (nestedOf payload name)) entry
      else entry

theorem mergeOf_collected :
    Collected payload (groupedToolOccurrences payload) (mergeOf payload) := collected ..

theorem mem_mergedNames_iff :
    name ∈ (mergeOf payload).mergedNames ↔ 2 ≤ (nestedOf payload name).length := by
  have hlength : (nestedOf payload name).length = ((groupedToolOccurrences payload).filter
      fun o => some o.1 = some name).length := by
    rw [nestedOf, nestedLists, length_map]
    simp
  rw [(mergeOf_collected payload).names_iff, ← filterMap_name, repeatsBy, mem_keys_leftOut,
    count_keys, hlength]
  simp

/-- The early returns change nothing that the rewriting would not leave alone. -/
theorem reconcile_eq : reconcileGroupedToolNamespaces payload =
    (removeGroupedEntries (setAll payload (setsOf payload)) (mergeOf payload).repeated,
      (mergeOf payload).mergedNames) := by
  have hnone : (groupedToolOccurrences payload).length < 2 ∨ (mergeOf payload).mergedNames = [] →
      (mergeOf payload).mergedNames = [] := by
    rintro (hlength | hnames)
    · rw [eq_nil_iff_forall_not_mem]
      intro name hname
      rw [mem_mergedNames_iff, nestedOf, nestedLists, length_map] at hname
      have hle := length_filter_le (fun o : Text × GroupedToolSite => decide (o.1 = name))
        (groupedToolOccurrences payload)
      omega
    · exact hnames
  have hunfold : reconcileGroupedToolNamespaces payload =
      if (groupedToolOccurrences payload).length < 2 ∨ (mergeOf payload).mergedNames = [] then
        (payload, [])
      else (removeGroupedEntries (((mergeOf payload).first.filter fun entry =>
        entry.1 ∈ (mergeOf payload).mergedNames).foldl
          (fun object entry => setGroupedTools object entry.2.1 entry.2.2) payload)
            (mergeOf payload).repeated, (mergeOf payload).mergedNames) := rfl
  rw [hunfold]
  split_ifs with hearly
  · have hnames := hnone hearly
    have hrepeated : (mergeOf payload).repeated = [] := by
      rw [(mergeOf_collected payload).repeated_eq, map_eq_nil_iff,
        eq_nil_iff_forall_not_mem]
      intro o ho
      have hname := ((mergeOf_collected payload).names_iff o.1).mpr (mem_map_of_mem ho)
      rw [hnames] at hname
      exact absurd hname not_mem_nil
    have hsets : setsOf payload = [] := by
      rw [setsOf, hnames]
      simp
    rw [hsets, hrepeated, hnames]
    rfl
  · rw [setAll, setsOf, foldl_map]

/-- The sites that go are those of the declarations whose names stand further in front. -/
theorem repeated_eq : (mergeOf payload).repeated =
    (repeatsBy (fun p => groupedDeclarationName p.2) (placed payload)).map Prod.fst := by
  rw [(mergeOf_collected payload).repeated_eq, groupedToolOccurrences_eq]
  exact leftOut_filterMap Prod.fst [] (placed payload)

theorem first_eq : (mergeOf payload).first =
    ((firstBy (fun p => groupedDeclarationName p.2) (placed payload)).filterMap fun p =>
      (groupedDeclarationName p.2).map fun name => (name, p.1)).map fun o =>
        (o.1, o.2, mergeAll (nestedOf payload o.1)) := by
  have hkept := @keep_filterMap _ _ _ (fun p : GroupedToolSite × Value =>
    groupedDeclarationName p.2) _ Prod.fst [] (placed payload)
  rw [← groupedToolOccurrences_eq] at hkept
  rw [(mergeOf_collected payload).first_eq, firstBy, firstBy, hkept]
  rfl

/-- Every repeated name is written at its first declaration. -/
theorem mem_setsOf_iff :
    (site, tools) ∈ setsOf payload ↔ ∃ entry name,
      (site, entry) ∈ firstBy (fun p => groupedDeclarationName p.2) (placed payload) ∧
        groupedDeclarationName entry = some name ∧ 2 ≤ (nestedOf payload name).length ∧
          mergeAll (nestedOf payload name) = tools := by
  rw [setsOf, mem_map]
  constructor
  · rintro ⟨set, hset, heq⟩
    obtain ⟨hfirst, hname⟩ := mem_filter.mp hset
    rw [first_eq, mem_map] at hfirst
    obtain ⟨o, ho, rfl⟩ := hfirst
    obtain ⟨p, hp, hkey⟩ := mem_filterMap.mp ho
    obtain ⟨name, hentry, rfl⟩ := Option.map_eq_some_iff.mp hkey
    obtain ⟨rfl, rfl⟩ := Prod.mk.inj heq
    rw [decide_eq_true_eq, mem_mergedNames_iff] at hname
    exact ⟨p.2, name, hp, hentry, hname, rfl⟩
  · rintro ⟨entry, name, hp, hentry, hname, rfl⟩
    refine ⟨(name, site, mergeAll (nestedOf payload name)), mem_filter.mpr ⟨?_, ?_⟩, rfl⟩
    · rw [first_eq, mem_map]
      refine ⟨(name, site), mem_filterMap.mpr ⟨_, hp, ?_⟩, rfl⟩
      rw [hentry]
      rfl
    · rw [decide_eq_true_eq, mem_mergedNames_iff]
      exact hname

theorem nodup_setsOf : ((setsOf payload).map Prod.fst).Nodup := by
  have hoccurrences : ((groupedToolOccurrences payload).map Prod.snd).Sublist
      ((placed payload).map Prod.fst) := by
    rw [groupedToolOccurrences_eq]
    induction placed payload with
    | nil => exact Sublist.slnil
    | cons p rest ih =>
      cases hname : groupedDeclarationName p.2 with
      | none =>
        rw [filterMap_cons_none (by rw [hname]; rfl)]
        exact ih.cons p.1
      | some name =>
        rw [filterMap_cons_some (b := (name, p.1)) (by rw [hname]; rfl)]
        exact ih.cons_cons p.1
  have hfirst : ((mergeOf payload).first.map Prod.snd).map Prod.fst =
      (firstBy (fun o => some o.1) (groupedToolOccurrences payload)).map Prod.snd := by
    rw [(mergeOf_collected payload).first_eq, map_map, map_map]
    rfl
  have hset : ((setsOf payload).map Prod.fst).Sublist
      (((mergeOf payload).first.map Prod.snd).map Prod.fst) :=
    (filter_sublist.map Prod.snd).map Prod.fst
  rw [hfirst] at hset
  have hkept := (@keep_sublist _ _ _ (fun o : Text × GroupedToolSite => some o.1) []
    (groupedToolOccurrences payload)).map Prod.snd
  exact (nodup_sites payload).sublist (hset.trans (hkept.trans hoccurrences))

theorem setEntry_setsOf
    (h : (site, entry) ∈ firstBy (fun p => groupedDeclarationName p.2) (placed payload)) :
    setEntry (setsOf payload) site entry = mergedEntry payload entry := by
  have hunique : ∀ other,
      (site, other) ∈ firstBy (fun p => groupedDeclarationName p.2) (placed payload) →
        other = entry := by
    intro other hother
    have hother := mem_placed_iff.mp ((keep_sublist [] (placed payload)).subset hother)
    have hentry := mem_placed_iff.mp ((keep_sublist [] (placed payload)).subset h)
    exact Option.some.inj (hother.2.symm.trans hentry.2)
  have hout : (∀ name, groupedDeclarationName entry = some name →
      ¬2 ≤ (nestedOf payload name).length) → setEntry (setsOf payload) site entry = entry := by
    intro hnot
    refine setEntry_of_notMem (fun hmem => ?_) entry
    obtain ⟨⟨site', tools⟩, hset, rfl⟩ := mem_map.mp hmem
    obtain ⟨other, name, hother, hname, hmore, _⟩ := (mem_setsOf_iff payload).mp hset
    rw [hunique other hother] at hname
    exact hnot name hname hmore
  rw [mergedEntry]
  cases hname : groupedDeclarationName entry with
  | none => exact hout (by simp [hname])
  | some name =>
    dsimp only
    split_ifs with hmore
    · refine setEntry_of_mem (nodup_setsOf payload) ((mem_setsOf_iff payload).mpr ?_) entry
      exact ⟨entry, name, h, hname, hmore, rfl⟩
    · refine hout fun other hother => ?_
      rw [hname, Option.some_inj] at hother
      exact hother ▸ hmore

/-- What is declared behind the reconciliation. -/
theorem declared_reconcile : declared (reconcileGroupedToolNamespaces payload).1 =
    (firstBy (fun p => groupedDeclarationName p.2) (declared payload)).map fun p =>
      (p.1, mergedEntry payload p.2) := by
  have hsites : (placed (setAll payload (setsOf payload))).map Prod.fst =
      (placed payload).map Prod.fst := by
    rw [placed_setAll, map_map]
    rfl
  have hrepeated : (mergeOf payload).repeated.Sublist
      ((placed (setAll payload (setsOf payload))).map Prod.fst) := by
    rw [hsites, repeated_eq]
    exact (leftOut_sublist [] (placed payload)).map Prod.fst
  have hkept : (placed payload).filter (·.1 ∉ (mergeOf payload).repeated) =
      firstBy (fun p => groupedDeclarationName p.2) (placed payload) := by
    rw [repeated_eq]
    exact (keep_eq_filter (nodup_sites payload)).symm
  rw [reconcile_eq, declared_removeGroupedEntries hrepeated, placed_setAll, filter_map,
    map_map, declared, firstBy_map, map_map]
  have hfilter : (placed payload).filter ((fun p : GroupedToolSite × Value =>
      decide (p.1 ∉ (mergeOf payload).repeated)) ∘
        fun p => (p.1, setEntry (setsOf payload) p.1 p.2)) =
          firstBy (fun p => groupedDeclarationName p.2) (placed payload) := hkept
  rw [hfilter]
  refine map_congr_left fun p hp => ?_
  simp only [Function.comp_apply, setEntry_setsOf payload hp]

/-! ### Names and nested tools -/

theorem nestedOf_eq (name : Text) : nestedOf payload name =
    ((declared payload).filter (groupedDeclarationName ·.2 = some name)).map
      (arrayOf ·.2 "tools") := by
  have hentry : ∀ p ∈ placed payload, nestedToolsOf payload p.1 = arrayOf p.2 "tools" := by
    intro p hp
    rw [nestedToolsOf, groupedToolEntry_eq, (mem_placed_iff.mp hp).2]
    rfl
  rw [nestedOf, nestedLists, groupedToolOccurrences_eq, declared, filter_map, map_map]
  generalize placed payload = entries at hentry
  induction entries with
  | nil => rfl
  | cons p rest ih =>
    have hp := hentry p mem_cons_self
    have ih := ih fun q hq => hentry q (mem_cons_of_mem _ hq)
    cases hname : groupedDeclarationName p.2 with
    | none =>
      rw [filterMap_cons_none (by rw [hname]; rfl), ih,
        filter_cons_of_neg (by simp [hname])]
    | some other =>
      rw [filterMap_cons_some (b := (other, p.1)) (by rw [hname]; rfl)]
      by_cases heq : other = name
      · subst heq
        rw [filter_cons_of_pos (by simp), filter_cons_of_pos (by simp [hname]),
          map_cons, map_cons, ih, hp]
        rfl
      · rw [filter_cons_of_neg (by simpa using heq),
          filter_cons_of_neg (by simpa [hname] using heq), ih]

theorem get_withNested_ne {key : Text} (h : key ≠ "tools") (tools : List Value) (entry : Value) :
    (withNested tools entry).get key = entry.get key := by
  cases entry with
  | object fields => exact Value.get_set_ne h _
  | null => rfl
  | bool b => rfl
  | number n => rfl
  | string s => rfl
  | array items => rfl

theorem arrayOf_withNested (h : groupedDeclarationName entry = some name) :
    arrayOf (withNested tools entry) "tools" = tools := by
  cases entry with
  | object fields =>
    rw [withNested, arrayOf, Value.get_set_self]
    rfl
  | null => exact absurd h (by simp [groupedDeclarationName, arrayOf, Value.get])
  | bool b => exact absurd h (by simp [groupedDeclarationName, arrayOf, Value.get])
  | number n => exact absurd h (by simp [groupedDeclarationName, arrayOf, Value.get])
  | string s => exact absurd h (by simp [groupedDeclarationName, arrayOf, Value.get])
  | array items => exact absurd h (by simp [groupedDeclarationName, arrayOf, Value.get])

theorem arrayOf_ne_nil (h : groupedDeclarationName entry = some name) :
    arrayOf entry "tools" ≠ [] := by
  rw [groupedDeclarationName] at h
  split_ifs at h with hempty
  exact hempty

theorem mergeAll_ne_nil (hnil : lists ≠ []) (h : ∀ tools ∈ lists, tools ≠ []) :
    mergeAll lists ≠ [] := by
  obtain ⟨tools, htools⟩ := exists_mem_of_ne_nil lists hnil
  obtain ⟨entry, hentry⟩ := exists_mem_of_ne_nil tools (h tools htools)
  have hmem := mem_identities_mergeAll.mpr ⟨tools, htools, mem_map_of_mem hentry⟩
  intro hmerged
  rw [hmerged] at hmem
  exact absurd hmem not_mem_nil

/-- A merged declaration has the name it had, and is grouped as before. -/
theorem groupedDeclarationName_mergedEntry (entry : Value) :
    groupedDeclarationName (mergedEntry payload entry) = groupedDeclarationName entry := by
  rw [mergedEntry]
  cases hname : groupedDeclarationName entry with
  | none => exact hname
  | some name =>
    dsimp only
    split_ifs with hmore
    · have hmerged : mergeAll (nestedOf payload name) ≠ [] := by
        refine mergeAll_ne_nil (ne_nil_of_length_pos (by omega)) fun tools htools => ?_
        rw [nestedOf_eq] at htools
        obtain ⟨p, hp, rfl⟩ := mem_map.mp htools
        exact arrayOf_ne_nil (by simpa using of_mem_filter hp)
      rw [groupedDeclarationName, arrayOf_withNested hname, if_neg hmerged,
        get_withNested_ne (by decide)]
      rw [groupedDeclarationName, if_neg (arrayOf_ne_nil hname)] at hname
      exact hname
    · exact hname

/-- The names of the grouped declarations of a request, in order. -/
def groupedNamesOf (object : Value) : List Text :=
  (declared object).filterMap (groupedDeclarationName ·.2)

/-- The nested tools that a request declares under a name, by their identities. -/
def nestedIdentities (object : Value) (name : Text) : Set Text :=
  {identity | ∃ p ∈ declared object,
    groupedDeclarationName p.2 = some name ∧ identity ∈ identities (arrayOf p.2 "tools")}

theorem mem_mergedEntry_iff {list : Option ℕ} {name identity : Text}
    (hentry : (list, entry) ∈ firstBy (fun p => groupedDeclarationName p.2) (declared payload))
    (hname : groupedDeclarationName entry = some name) :
    identity ∈ identities (arrayOf (mergedEntry payload entry) "tools") ↔
      identity ∈ nestedIdentities payload name := by
  have hlists : (∃ tools ∈ nestedOf payload name, identity ∈ identities tools) ↔
      identity ∈ nestedIdentities payload name := by
    rw [nestedOf_eq]
    simp [nestedIdentities, and_assoc]
  have hself : arrayOf entry "tools" ∈ nestedOf payload name := by
    rw [nestedOf_eq]
    refine mem_map.mpr ⟨(list, entry), mem_filter.mpr ⟨?_, by simpa using hname⟩, rfl⟩
    exact (keep_sublist [] (declared payload)).subset hentry
  rw [mergedEntry, hname]
  dsimp only
  split_ifs with hmore
  · rw [arrayOf_withNested hname, mem_identities_mergeAll, hlists]
  · rw [← hlists]
    constructor
    · exact fun hmem => ⟨_, hself, hmem⟩
    · rintro ⟨tools, htools, hmem⟩
      have hsingle : nestedOf payload name = [arrayOf entry "tools"] := by
        cases hlist : nestedOf payload name with
        | nil => simp [hlist] at hself
        | cons first rest =>
          rw [hlist, length_cons] at hmore
          have hrest : rest = [] := eq_nil_of_length_eq_zero (by omega)
          rw [hlist, hrest, mem_singleton] at hself
          rw [hrest, hself]
      rw [hsingle, mem_singleton] at htools
      exact htools ▸ hmem

theorem groupedNamesOf_reconcile : groupedNamesOf (reconcileGroupedToolNamespaces payload).1 =
    (firstBy (fun p => groupedDeclarationName p.2) (declared payload)).filterMap
      (groupedDeclarationName ·.2) := by
  rw [groupedNamesOf, declared_reconcile, filterMap_map]
  refine filterMap_congr fun p _ => ?_
  exact groupedDeclarationName_mergedEntry payload p.2

theorem nodup_groupedNamesOf_reconcile :
    (groupedNamesOf (reconcileGroupedToolNamespaces payload).1).Nodup := by
  rw [groupedNamesOf_reconcile]
  exact nodup_keys_firstBy (declared payload)

theorem nestedIdentities_reconcile (name : Text) :
    nestedIdentities (reconcileGroupedToolNamespaces payload).1 name =
      nestedIdentities payload name := by
  ext identity
  rw [nestedIdentities, Set.mem_ofPred_eq, declared_reconcile]
  constructor
  · rintro ⟨p, hp, hname, hmem⟩
    obtain ⟨⟨list, entry⟩, hentry, rfl⟩ := mem_map.mp hp
    rw [groupedDeclarationName_mergedEntry] at hname
    exact (mem_mergedEntry_iff payload hentry hname).mp hmem
  · intro hmem
    obtain ⟨p, hp, hname, _⟩ := id hmem
    have hkey : name ∈ (declared payload).filterMap (groupedDeclarationName ·.2) :=
      mem_filterMap.mpr ⟨p, hp, hname⟩
    obtain ⟨⟨list, entry⟩, hentry, hname⟩ := mem_filterMap.mp (mem_keys_firstBy.mpr hkey)
    refine ⟨_, mem_map_of_mem hentry, ?_, ?_⟩
    · rw [groupedDeclarationName_mergedEntry]
      exact hname
    · exact (mem_mergedEntry_iff payload hentry hname).mpr hmem

/-- Where no name repeats nothing is done. -/
theorem reconcile_of_nodup (h : (groupedNamesOf payload).Nodup) :
    reconcileGroupedToolNamespaces payload = (payload, []) := by
  have hnames : (mergeOf payload).mergedNames = [] := by
    rw [eq_nil_iff_forall_not_mem]
    intro name hname
    rw [mem_mergedNames_iff, nestedOf_eq, length_map, ← count_keys] at hname
    exact nodup_keys_iff.mp h name (mem_keys_leftOut.mpr (.inr hname))
  exact if_pos (.inr hnames)

theorem mergedEntry_of_single
    (h : ∀ name, groupedDeclarationName entry = some name → (nestedOf payload name).length < 2) :
    mergedEntry payload entry = entry := by
  rw [mergedEntry]
  cases hname : groupedDeclarationName entry with
  | none => rfl
  | some name => exact if_neg (not_le.mpr (h name hname))

theorem get_mergedEntry_ne {key : Text} (h : key ≠ "tools") (entry : Value) :
    (mergedEntry payload entry).get key = entry.get key := by
  rw [mergedEntry]
  cases groupedDeclarationName entry with
  | none => rfl
  | some name =>
    dsimp only
    split_ifs
    · exact get_withNested_ne h _ entry
    · rfl

end Request

/-- A request behind the reconciliation: of the declarations of a name the first one stays in
its place, with the nested tools of all of them, and the rest is as before. -/
structure Reconciled (payload after : Value) : Prop where
  names_nodup : (groupedNamesOf after).Nodup
  nested_eq : ∀ name, nestedIdentities after name = nestedIdentities payload name
  entries_eq : ∃ merged : Value → Value,
    declared after = (firstBy (fun p => groupedDeclarationName p.2) (declared payload)).map
        (fun p => (p.1, merged p.2)) ∧
      (∀ entry, (∀ name, groupedDeclarationName entry = some name →
        (declared payload).countP (groupedDeclarationName ·.2 = some name) < 2) →
          merged entry = entry) ∧
      ∀ (entry : Value) (key : Text), key ≠ "tools" → (merged entry).get key = entry.get key
  sameOutside : SameOutside payload after

/-- Every request is reconciled; without a repeated name it is left alone, and so is a request
that is reconciled already. -/
theorem namespaces_reconciled (payload : Value) :
    Reconciled payload (reconcileGroupedToolNamespaces payload).1 ∧
      ((groupedNamesOf payload).Nodup → reconcileGroupedToolNamespaces payload = (payload, [])) ∧
      reconcileGroupedToolNamespaces (reconcileGroupedToolNamespaces payload).1 =
        ((reconcileGroupedToolNamespaces payload).1, []) := by
  refine ⟨⟨nodup_groupedNamesOf_reconcile payload, nestedIdentities_reconcile payload,
    ⟨mergedEntry payload, declared_reconcile payload, fun entry h => ?_,
      fun entry key hkey => get_mergedEntry_ne payload hkey entry⟩, ?_⟩,
    reconcile_of_nodup payload, reconcile_of_nodup _ (nodup_groupedNamesOf_reconcile payload)⟩
  · refine mergedEntry_of_single payload fun name hname => ?_
    rw [nestedOf_eq, length_map, ← countP_eq_length_filter]
    exact h name hname
  · rw [reconcile_eq]
    exact (sameOutside_setAll payload _).trans (sameOutside_removeGroupedEntries _ _)

end CodeSeeX.Native
