import Mathlib.Data.List.AList
import Mathlib.Data.List.Induction

/-!
# Hash maps

A hash map is an association list without repeated keys. Iteration order is not
part of its meaning, so an update is free to move an entry.
-/
namespace CodeSeeX
open List

/-- A map from keys to values. -/
abbrev HashMap (κ ν : Type) := AList (fun _ : κ => ν)

namespace HashMap

variable {κ ν ω : Type}

/-- `map.values()` -/
def values (m : HashMap κ ν) : List ν := m.entries.map Sigma.snd

/-- `if let Some(value) = map.get_mut(key) { *value = f(value) }` -/
def modify [DecidableEq κ] (m : HashMap κ ν) (key : κ) (f : ν → ν) : HashMap κ ν :=
  match m.lookup key with
  | some value => m.insert key (f value)
  | none => m

/-- `for value in map.values_mut() { *value = f(value) }` -/
def mapValues (m : HashMap κ ν) (f : ν → ω) : HashMap κ ω where
  entries := m.entries.map fun e => ⟨e.1, f e.2⟩
  nodupKeys := by
    have h := m.nodupKeys
    rw [List.NodupKeys] at h ⊢
    simpa [keys, map_map, Function.comp_def] using h

/-- `map.retain(|key, value| p(key, value))` -/
def retain (m : HashMap κ ν) (p : κ → ν → Bool) : HashMap κ ν where
  entries := m.entries.filter fun e => p e.1 e.2
  nodupKeys := m.nodupKeys.sublist filter_sublist

/-- `map.len()` -/
def len (m : HashMap κ ν) : ℕ := m.entries.length

theorem len_retain_le (m : HashMap κ ν) (p : κ → ν → Bool) : len (m.retain p) ≤ len m :=
  length_filter_le _ _

@[simp] theorem keys_mapValues (m : HashMap κ ν) (f : ν → ω) : (m.mapValues f).keys = m.keys := by
  simp [mapValues, AList.keys, keys, map_map, Function.comp_def]

variable [DecidableEq κ]

theorem dlookup_map (l : List (Sigma fun _ : κ => ν)) (f : ν → ω) (key : κ) :
    dlookup key (l.map fun e => (⟨e.1, f e.2⟩ : Sigma fun _ : κ => ω)) =
      (dlookup key l).map f := by
  induction l with
  | nil => rfl
  | cons e l ih =>
    obtain ⟨k, v⟩ := e
    by_cases h : key = k
    · subst h
      simp [dlookup_cons_eq]
    · simp only [map_cons]
      rw [dlookup_cons_ne _ _ h, dlookup_cons_ne _ _ h, ih]

@[simp] theorem lookup_mapValues (m : HashMap κ ν) (f : ν → ω) (key : κ) :
    (m.mapValues f).lookup key = (m.lookup key).map f :=
  dlookup_map m.entries f key

@[simp] theorem lookup_modify_self (m : HashMap κ ν) (key : κ) (f : ν → ν) :
    (m.modify key f).lookup key = (m.lookup key).map f := by
  cases h : m.lookup key with
  | none => simp [modify, h]
  | some value => simp [modify, h]

theorem lookup_modify_ne (m : HashMap κ ν) {key other : κ} (f : ν → ν) (hne : other ≠ key) :
    (m.modify key f).lookup other = m.lookup other := by
  cases h : m.lookup key with
  | none => simp [modify, h]
  | some value => simp [modify, h, AList.lookup_insert_ne hne]

@[simp] theorem mem_modify (m : HashMap κ ν) (key other : κ) (f : ν → ν) :
    other ∈ m.modify key f ↔ other ∈ m := by
  rw [← AList.lookup_isSome, ← AList.lookup_isSome]
  by_cases hne : other = key
  · subst hne
    simp
  · rw [lookup_modify_ne m f hne]

variable {m : HashMap κ ν}

theorem mem_values {value : ν} : value ∈ m.values ↔ ∃ key, m.lookup key = some value := by
  simp only [values, mem_map, Sigma.exists]
  constructor
  · rintro ⟨key, value, hmem, rfl⟩
    exact ⟨key, AList.mem_lookup_iff.mpr hmem⟩
  · rintro ⟨key, hlook⟩
    exact ⟨key, value, AList.mem_lookup_iff.mp hlook, rfl⟩

/-- Removing an entry takes its value out of the values. -/
theorem values_perm_erase {key : κ} {value : ν}
    (h : m.lookup key = some value) : m.values.Perm (value :: values (m.erase key)) := by
  have hmem : key ∈ m.entries.keys := AList.lookup_isSome.mp (by simp [h])
  obtain ⟨value', l₁, l₂, hnot, hentries, herase⟩ := exists_of_kerase hmem
  have hvalue : value' = value := by
    have hentry : (⟨key, value'⟩ : Sigma fun _ : κ => ν) ∈ m.entries := by simp [hentries]
    have hsome := AList.mem_lookup_iff.mpr hentry
    rw [h] at hsome
    exact (Option.some_inj.mp hsome).symm
  have herased : (m.erase key).entries = l₁ ++ l₂ := herase
  rw [values, values, herased, hentries, map_append, map_append, map_cons, hvalue]
  exact perm_middle

theorem values_insert_perm {key : κ} (value : ν) (h : key ∉ m) :
    (values (m.insert key value)).Perm (value :: m.values) := by
  rw [values, AList.entries_insert_of_notMem h]
  exact Perm.refl _

theorem lookup_retain (m : HashMap κ ν) (p : κ → ν → Bool) (key : κ) :
    (m.retain p).lookup key = (m.lookup key).filter (p key) := by
  have hentry : ∀ (map : HashMap κ ν) (value : ν),
      map.lookup key = some value ↔ (⟨key, value⟩ : Sigma fun _ : κ => ν) ∈ map.entries :=
    fun map value => AList.mem_lookup_iff
  ext value
  rw [hentry, Option.filter_eq_some_iff, hentry]
  exact mem_filter

theorem len_insert_new {key : κ} (value : ν) (h : key ∉ m) :
    len (m.insert key value) = len m + 1 := by
  rw [len, AList.entries_insert_of_notMem h, length_cons, len]

theorem len_erase {key : κ} (h : key ∈ m) : len (m.erase key) + 1 = len m := by
  obtain ⟨value, hlook⟩ := Option.isSome_iff_exists.mp (AList.lookup_isSome.mpr h)
  have hperm := (values_perm_erase hlook).length_eq
  simpa [values, len] using hperm.symm

theorem len_insert_stored {key : κ} (value : ν) (h : key ∈ m) :
    len (m.insert key value) = len m := by
  have hlength := len_erase h
  exact hlength

/-! ## Filling a map -/

section Fill
variable {ι : Type} (key : ι → κ) (value : ι → ν)

/-- `items.map(|item| (key(item), value(item))).collect::<HashMap<_, _>>()`, on top of `m`. -/
def fill (m : HashMap κ ν) (items : List ι) : HashMap κ ν :=
  items.foldl (fun m item => m.insert (key item) (value item)) m

theorem lookup_fill_of_notMem (items : List ι) (m : HashMap κ ν) {k : κ}
    (h : k ∉ items.map key) : (fill key value m items).lookup k = m.lookup k := by
  induction items generalizing m with
  | nil => rfl
  | cons item items ih =>
    rw [map_cons, mem_cons, not_or] at h
    exact (ih _ h.2).trans (AList.lookup_insert_ne h.1)

theorem lookup_fill (items : List ι) (m : HashMap κ ν) (hnodup : (items.map key).Nodup) {item : ι}
    (hmem : item ∈ items) : (fill key value m items).lookup (key item) = some (value item) := by
  induction items generalizing m with
  | nil => simp at hmem
  | cons first items ih =>
    rw [map_cons, nodup_cons] at hnodup
    rcases mem_cons.mp hmem with rfl | hmem
    · exact (lookup_fill_of_notMem key value items _ hnodup.1).trans (AList.lookup_insert m)
    · exact ih _ hnodup.2 hmem

theorem exists_of_lookup_fill (items : List ι) {k : κ} {v : ν}
    (h : (fill key value ∅ items).lookup k = some v) :
    ∃ item ∈ items, key item = k ∧ value item = v := by
  have hfold : ∀ (items : List ι) (m : HashMap κ ν), (fill key value m items).lookup k = some v →
      m.lookup k = some v ∨ ∃ item ∈ items, key item = k ∧ value item = v := by
    intro items
    induction items with
    | nil => exact fun _ h => .inl h
    | cons item items ih =>
      intro m h
      rcases ih _ h with h | ⟨other, hmem, hother⟩
      · by_cases heq : k = key item
        · subst heq
          rw [AList.lookup_insert, Option.some_inj] at h
          exact .inr ⟨item, mem_cons_self, rfl, h⟩
        · rw [AList.lookup_insert_ne heq] at h
          exact .inl h
      · exact .inr ⟨other, mem_cons_of_mem _ hmem, hother⟩
  rcases hfold items ∅ h with h | h
  · simp at h
  · exact h

/-- A map filled from items with distinct keys holds their values. -/
theorem values_fill (items : List ι) (hnodup : (items.map key).Nodup) :
    (values (fill key value ∅ items)).Perm (items.map value) := by
  have hfold : ∀ (items : List ι) (m : HashMap κ ν), (items.map key).Nodup →
      (∀ item ∈ items, key item ∉ m) →
      (values (fill key value m items)).Perm (values m ++ items.map value) := by
    intro items
    induction items with
    | nil => intro m _ _; simp [fill]
    | cons item items ih =>
      intro m hnodup hnew
      rw [map_cons, nodup_cons] at hnodup
      refine (ih (m.insert (key item) (value item)) hnodup.2 ?_).trans ?_
      · intro other hmem
        rw [AList.mem_insert, not_or]
        refine ⟨fun heq => hnodup.1 ?_, hnew other (mem_cons_of_mem _ hmem)⟩
        exact mem_map.mpr ⟨other, hmem, heq⟩
      · have hins := values_insert_perm (value item) (hnew item mem_cons_self)
        exact (hins.append_right _).trans perm_middle.symm
  simpa [values] using hfold items ∅ hnodup (by simp)

end Fill

/-! ## Removing keys one after the other -/

/-- `for key in keys { if let Some(value) = map.remove(&key) { removed.push(value) } }` -/
def removeEach (m : HashMap κ ν) : List κ → List ν × HashMap κ ν
  | [] => ([], m)
  | key :: keys =>
      match m.lookup key with
      | some value => (value :: (removeEach (m.erase key) keys).1, (removeEach (m.erase key) keys).2)
      | none => removeEach m keys

section
variable (m : HashMap κ ν) (keys : List κ)

/-- What is removed and what stays make up the map. -/
theorem removeEach_perm :
    ((m.removeEach keys).1 ++ (m.removeEach keys).2.values).Perm m.values := by
  induction keys generalizing m with
  | nil => simp [removeEach]
  | cons key keys ih =>
    cases h : m.lookup key with
    | none =>
      simp only [removeEach, h]
      exact ih m
    | some value =>
      simp only [removeEach, h, cons_append]
      exact ((ih (m.erase key)).cons value).trans (values_perm_erase h).symm

theorem lookup_removeEach {key : κ} {value : ν} :
    (m.removeEach keys).2.lookup key = some value ↔ m.lookup key = some value ∧ key ∉ keys := by
  induction keys generalizing m with
  | nil => simp [removeEach]
  | cons first keys ih =>
    cases h : m.lookup first with
    | none =>
      simp only [removeEach, h]
      rw [ih m, mem_cons, not_or]
      constructor
      · rintro ⟨hlook, hnot⟩
        refine ⟨hlook, fun heq => ?_, hnot⟩
        rw [heq, h] at hlook
        cases hlook
      · rintro ⟨hlook, _, hnot⟩
        exact ⟨hlook, hnot⟩
    | some _ =>
      simp only [removeEach, h]
      rw [ih (m.erase first), mem_cons, not_or]
      by_cases heq : key = first
      · subst heq
        simp
      · rw [AList.lookup_erase_ne heq]
        simp [heq]

theorem removeEach_eq_nil :
    (m.removeEach keys).1 = [] ↔ ∀ key ∈ keys, m.lookup key = none := by
  induction keys with
  | nil => simp [removeEach]
  | cons key keys ih =>
    cases h : m.lookup key with
    | none =>
      simp only [removeEach, h, forall_mem_cons, true_and]
      exact ih
    | some _ => simp [removeEach, h]

end

/-- Every removed value was stored under a listed key. -/
theorem mem_removeEach {keys : List κ} {value : ν}
    (h : value ∈ (m.removeEach keys).1) : ∃ key ∈ keys, m.lookup key = some value := by
  induction keys generalizing m with
  | nil => simp [removeEach] at h
  | cons first keys ih =>
    cases hf : m.lookup first with
    | none =>
      simp only [removeEach, hf] at h
      obtain ⟨key, hmem, hlook⟩ := ih h
      exact ⟨key, mem_cons_of_mem _ hmem, hlook⟩
    | some stored =>
      simp only [removeEach, hf, mem_cons] at h
      rcases h with rfl | h
      · exact ⟨first, mem_cons_self, hf⟩
      · obtain ⟨key, hmem, hlook⟩ := ih h
        have hne : key ≠ first := by
          rintro rfl
          simp at hlook
        rw [AList.lookup_erase_ne hne] at hlook
        exact ⟨key, mem_cons_of_mem _ hmem, hlook⟩

theorem values_eq_nil (h : ∀ key, m.lookup key = none) : m.values = [] := by
  rw [eq_nil_iff_forall_not_mem]
  intro value hmem
  obtain ⟨key, hlook⟩ := mem_values.mp hmem
  simp [h key] at hlook

/-! ## Grouping -/

section Group
variable {ι : Type} (key : ι → κ) (init : ι → ν) (add : ν → ι → ν)

/-- `for item in items { add(map.entry(key(item)).or_insert_with(|| init(item)), item) }` -/
def group (items : List ι) : HashMap κ ν :=
  items.foldl
    (fun m item => m.insert (key item) (add ((m.lookup (key item)).getD (init item)) item)) ∅

theorem group_concat (items : List ι) (item : ι) :
    group key init add (items ++ [item]) =
      (group key init add items).insert (key item)
        (add (((group key init add items).lookup (key item)).getD (init item)) item) := by
  simp [group]

/-- A key holds what its own items add up to, opened by the first of them. -/
theorem lookup_group (items : List ι) (k : κ) :
    (group key init add items).lookup k =
      (items.filter (key · = k)).head?.map fun first =>
        (items.filter (key · = k)).foldl add (init first) := by
  induction items using reverseRecOn with
  | nil => simp [group]
  | append_singleton items item ih =>
    rw [group_concat]
    by_cases hk : key item = k
    · subst hk
      rw [AList.lookup_insert, ih]
      have hitem : [item].filter (key · = key item) = [item] := by simp
      rw [filter_append, hitem]
      cases items.filter (key · = key item) <;> simp
    · have hitem : [item].filter (key · = k) = [] := by simp [hk]
      rw [AList.lookup_insert_ne (Ne.symm hk), ih, filter_append, hitem, append_nil]

end Group

/-- Where every value tells its key, a key selects its own value. -/
theorem filter_values {valueKey : ν → κ} (h : ∀ k v, m.lookup k = some v → valueKey v = k) (k : κ) :
    m.values.filter (valueKey · = k) = (m.lookup k).toList := by
  have hother : ∀ m' : HashMap κ ν, (∀ k' v, m'.lookup k' = some v → m.lookup k' = some v ∧ k' ≠ k) →
      m'.values.filter (valueKey · = k) = [] := by
    intro m' hm'
    rw [filter_eq_nil_iff]
    intro v hv
    obtain ⟨k', hk'⟩ := mem_values.mp hv
    obtain ⟨hlook, hne⟩ := hm' k' v hk'
    simpa [h k' v hlook] using hne
  cases hk : m.lookup k with
  | none =>
    apply hother m
    intro k' v hlook
    refine ⟨hlook, ?_⟩
    rintro rfl
    simp [hk] at hlook
  | some v =>
    have hperm := (values_perm_erase hk).filter (valueKey · = k)
    have hrest : (values (m.erase k)).filter (valueKey · = k) = [] := by
      apply hother
      intro k' v' hlook
      by_cases hk' : k' = k
      · subst hk'
        simp at hlook
      · rw [AList.lookup_erase_ne hk'] at hlook
        exact ⟨hlook, hk'⟩
    rw [filter_cons_of_pos (by simp [h k v hk]), hrest] at hperm
    exact perm_singleton.mp hperm

end HashMap
end CodeSeeX
