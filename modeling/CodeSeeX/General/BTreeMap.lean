import CodeSeeX.General.Replay

/-!
# Ordered maps

A map whose entries are listed in strictly ascending key order. Two maps with the
same entries are the same map, and iteration goes along the list.
-/
namespace CodeSeeX
open List

@[ext] structure BTreeMap (κ ν : Type) [LinearOrder κ] where
  entries : List (κ × ν)
  sorted : entries.Pairwise fun a b => a.1 < b.1

namespace BTreeMap

variable {κ ν : Type} [LinearOrder κ]

/-- Insertion into entries in key order; an entry under the same key is replaced. -/
def insertEntry (key : κ) (value : ν) : List (κ × ν) → List (κ × ν)
  | [] => [(key, value)]
  | (k, v) :: entries =>
      if key < k then (key, value) :: (k, v) :: entries
      else if key = k then (key, value) :: entries
      else (k, v) :: insertEntry key value entries

variable {entries : List (κ × ν)} {e : κ × ν}

theorem mem_insertEntry {key : κ} {value : ν}
    (h : e ∈ insertEntry key value entries) : e = (key, value) ∨ e ∈ entries := by
  induction entries with
  | nil => simpa [insertEntry] using h
  | cons first entries ih =>
    obtain ⟨k, v⟩ := first
    simp only [insertEntry] at h
    split_ifs at h with hlt heq
    · simpa using h
    · rcases mem_cons.mp h with h | h
      · exact .inl h
      · exact .inr (mem_cons_of_mem _ h)
    · rcases mem_cons.mp h with h | h
      · exact .inr (mem_cons.mpr (.inl h))
      · rcases ih h with h | h
        · exact .inl h
        · exact .inr (mem_cons_of_mem _ h)

theorem insertEntry_sorted (key : κ) (value : ν) (h : entries.Pairwise fun a b => a.1 < b.1) :
    (insertEntry key value entries).Pairwise fun a b => a.1 < b.1 := by
  induction entries with
  | nil => simp [insertEntry]
  | cons first entries ih =>
    obtain ⟨k, v⟩ := first
    obtain ⟨hfirst, hrest⟩ := pairwise_cons.mp h
    simp only [insertEntry]
    split_ifs with hlt heq
    · refine pairwise_cons.mpr ⟨fun e he => ?_, h⟩
      rcases mem_cons.mp he with rfl | he
      · exact hlt
      · exact hlt.trans (hfirst e he)
    · subst heq
      exact pairwise_cons.mpr ⟨hfirst, hrest⟩
    · refine pairwise_cons.mpr ⟨fun e he => ?_, ih hrest⟩
      rcases mem_insertEntry he with rfl | he
      · exact lt_of_le_of_ne (not_lt.mp hlt) (Ne.symm heq)
      · exact hfirst e he

def empty : BTreeMap κ ν := ⟨[], List.Pairwise.nil⟩

variable (m : BTreeMap κ ν)

def keys : List κ := m.entries.map Prod.fst

def values : List ν := m.entries.map Prod.snd

def len : ℕ := m.entries.length

def get (key : κ) : Option ν := (m.entries.find? (·.1 = key)).map Prod.snd

def insert (key : κ) (value : ν) : BTreeMap κ ν :=
  ⟨insertEntry key value m.entries, insertEntry_sorted key value m.sorted⟩

def retain (p : κ × ν → Bool) : BTreeMap κ ν :=
  ⟨m.entries.filter p, m.sorted.sublist filter_sublist⟩

def remove (key : κ) : BTreeMap κ ν := m.retain (·.1 ≠ key)

/-- `values_mut` with an assignment to each value. -/
def mapValues (f : ν → ν) : BTreeMap κ ν :=
  ⟨m.entries.map fun e => (e.1, f e.2), pairwise_map.mpr m.sorted⟩

/-- `map.entry(key).or_insert(value)` -/
def orInsert (key : κ) (value : ν) : BTreeMap κ ν :=
  if (m.get key).isSome then m else m.insert key value

/-- The first keys are removed as long as the map is longer than `limit`. -/
def dropFirst (limit : ℕ) : BTreeMap κ ν :=
  ⟨m.entries.drop (m.len - limit), m.sorted.sublist (drop_sublist _ _)⟩

variable {m} {key other : κ} {value : ν}

theorem keys_nodup (m : BTreeMap κ ν) : m.keys.Nodup := by
  rw [keys, Nodup, pairwise_map]
  exact m.sorted.imp ne_of_lt

@[simp] theorem keys_length (m : BTreeMap κ ν) : m.keys.length = m.len := length_map ..

/-- A key has one entry. -/
theorem value_unique {v w : ν} (hv : (key, v) ∈ m.entries) (hw : (key, w) ∈ m.entries) : v = w := by
  have heq := inj_on_of_nodup_map m.keys_nodup hv hw rfl
  exact (Prod.mk.inj heq).2

theorem get_eq_some : m.get key = some value ↔ (key, value) ∈ m.entries := by
  rw [get, Option.map_eq_some_iff]
  constructor
  · rintro ⟨⟨k, v⟩, hfind, rfl⟩
    have hkey : k = key := by simpa using find?_some hfind
    subst hkey
    exact mem_of_find?_eq_some hfind
  · intro hmem
    cases hfind : m.entries.find? (·.1 = key) with
    | none =>
      have hno := find?_eq_none.mp hfind _ hmem
      simp at hno
    | some e =>
      obtain ⟨k, v⟩ := e
      have hkey : k = key := by simpa using find?_some hfind
      subst hkey
      exact ⟨(k, v), rfl, value_unique (mem_of_find?_eq_some hfind) hmem⟩

theorem mem_keys : key ∈ m.keys ↔ ∃ value, m.get key = some value := by
  simp only [keys, mem_map, Prod.exists, exists_and_right, exists_eq_right, get_eq_some]

@[simp] theorem keys_mapValues (m : BTreeMap κ ν) (f : ν → ν) : (m.mapValues f).keys = m.keys := by
  rw [keys, mapValues, map_map]
  rfl

theorem isSome_get_iff : (m.get key).isSome = true ↔ key ∈ m.keys := by
  rw [mem_keys, Option.isSome_iff_exists]

@[simp] theorem get_empty : (empty : BTreeMap κ ν).get key = none := rfl

/-! ## Insertion -/

theorem insertEntry_perm (h : key ∉ entries.map Prod.fst) :
    (insertEntry key value entries).Perm ((key, value) :: entries) := by
  induction entries with
  | nil => exact Perm.refl _
  | cons first entries ih =>
    obtain ⟨k, v⟩ := first
    rw [map_cons, mem_cons, not_or] at h
    simp only [insertEntry, if_neg h.1]
    split_ifs
    · exact Perm.refl _
    · exact ((ih h.2).cons (k, v)).trans (Perm.swap _ _ _)

/-- A new key adds one entry. -/
theorem insert_perm (value : ν) (h : key ∉ m.keys) :
    (m.insert key value).entries.Perm ((key, value) :: m.entries) :=
  insertEntry_perm h

theorem mem_insert_self (m : BTreeMap κ ν) (key : κ) (value : ν) :
    (key, value) ∈ (m.insert key value).entries := by
  have hinserted : ∀ entries : List (κ × ν), (key, value) ∈ insertEntry key value entries := by
    intro entries
    induction entries with
    | nil => simp [insertEntry]
    | cons first entries ih =>
      simp only [insertEntry]
      split_ifs
      · exact mem_cons_self
      · exact mem_cons_self
      · exact mem_cons_of_mem _ ih
  exact hinserted m.entries

theorem mem_insert_ne (h : e.1 ≠ key) : e ∈ (m.insert key value).entries ↔ e ∈ m.entries := by
  have hinserted : ∀ entries : List (κ × ν), e ∈ insertEntry key value entries ↔ e ∈ entries := by
    intro entries
    have hne : e ≠ (key, value) := fun heq => h (congrArg Prod.fst heq)
    induction entries with
    | nil => simp [insertEntry, hne]
    | cons first entries ih =>
      obtain ⟨k, v⟩ := first
      simp only [insertEntry]
      split_ifs with hlt heq
      · simp [hne]
      · subst heq
        have hne' : e ≠ (key, v) := fun heq => h (congrArg Prod.fst heq)
        simp [hne, hne']
      · simp only [mem_cons, ih]
  exact hinserted m.entries

@[simp] theorem get_insert_self (m : BTreeMap κ ν) (key : κ) (value : ν) :
    (m.insert key value).get key = some value :=
  get_eq_some.mpr (mem_insert_self m key value)

theorem get_insert_ne (value : ν) (h : other ≠ key) : (m.insert key value).get other = m.get other := by
  apply Option.ext
  intro v
  rw [get_eq_some, get_eq_some, mem_insert_ne h]

/-! ## Missing keys -/

theorem get_orInsert_of_some (h : m.get key = some value) (v : ν) (other : κ) :
    (m.orInsert key v).get other = m.get other := by
  rw [orInsert, h]
  rfl

theorem get_orInsert_of_none (h : m.get key = none) (v : ν) (other : κ) :
    (m.orInsert key v).get other = if other = key then some v else m.get other := by
  rw [orInsert, h]
  by_cases hother : other = key
  · rw [if_pos hother, hother]
    exact get_insert_self m key v
  · rw [if_neg hother]
    exact get_insert_ne v hother

/-- The entries whose keys are missing are added, the first one of each key. -/
theorem get_foldl_orInsert (entries : List (κ × ν)) (m : BTreeMap κ ν) (key : κ) :
    (entries.foldl (fun m e => m.orInsert e.1 e.2) m).get key =
      (m.get key).or ((entries.find? (·.1 = key)).map Prod.snd) := by
  induction entries generalizing m with
  | nil => simp
  | cons e entries ih =>
    obtain ⟨k, v⟩ := e
    rw [foldl_cons, ih, find?_cons]
    cases hk : m.get k with
    | some value =>
      rw [get_orInsert_of_some hk]
      by_cases hkey : k = key
      · subst hkey
        simp [hk]
      · simp [hkey]
    | none =>
      rw [get_orInsert_of_none hk]
      by_cases hkey : k = key
      · subst hkey
        simp [hk]
      · have hother : key ≠ k := Ne.symm hkey
        simp [hkey, hother]

theorem foldl_orInsert_of_present {m : BTreeMap κ ν}
    (h : ∀ e ∈ entries, (m.get e.1).isSome = true) :
    entries.foldl (fun m e => m.orInsert e.1 e.2) m = m := by
  induction entries with
  | nil => rfl
  | cons e entries ih =>
    obtain ⟨he, hlater⟩ := forall_mem_cons.mp h
    rw [foldl_cons, orInsert, he]
    exact ih hlater

/-! ## Removal -/

/-- What is retained and what is not make up the map. -/
theorem retain_perm (m : BTreeMap κ ν) (p : κ × ν → Bool) :
    ((m.retain p).entries ++ m.entries.filter fun e => !p e).Perm m.entries :=
  filter_append_perm p m.entries

theorem mem_retain {p : κ × ν → Bool} : e ∈ (m.retain p).entries ↔ e ∈ m.entries ∧ p e = true :=
  mem_filter

theorem mem_remove : e ∈ (m.remove key).entries ↔ e ∈ m.entries ∧ e.1 ≠ key := by
  simp [remove, mem_retain]

@[simp] theorem get_remove_self (m : BTreeMap κ ν) (key : κ) : (m.remove key).get key = none := by
  rw [Option.eq_none_iff_forall_ne_some]
  intro v hv
  exact (mem_remove.mp (get_eq_some.mp hv)).2 rfl

theorem get_remove_ne (h : other ≠ key) : (m.remove key).get other = m.get other := by
  apply Option.ext
  intro v
  rw [get_eq_some, get_eq_some, mem_remove]
  exact and_iff_left h

/-- Removing a stored key takes one entry out. -/
theorem remove_perm (h : (key, value) ∈ m.entries) :
    m.entries.Perm ((key, value) :: (m.remove key).entries) := by
  have hfilter : ∀ entries : List (κ × ν), (entries.map Prod.fst).Nodup → (key, value) ∈ entries →
      entries.Perm ((key, value) :: entries.filter (·.1 ≠ key)) := by
    intro entries
    induction entries with
    | nil => exact fun _ hmem => absurd hmem not_mem_nil
    | cons first entries ih =>
      intro hnodup hmem
      rw [map_cons, nodup_cons] at hnodup
      rcases mem_cons.mp hmem with rfl | hmem
      · have hrest : entries.filter (·.1 ≠ key) = entries := by
          rw [filter_eq_self]
          intro e he
          have hne : e.1 ≠ key := by
            rintro rfl
            have hkey := mem_map_of_mem (f := Prod.fst) he
            exact hnodup.1 hkey
          simpa using hne
        rw [filter_cons_of_neg (by simp), hrest]
      · have hne : first.1 ≠ key := by
          rintro rfl
          have hkey := mem_map_of_mem (f := Prod.fst) hmem
          exact hnodup.1 hkey
        rw [filter_cons_of_pos (by simpa using hne)]
        exact ((ih hnodup.2 hmem).cons first).trans (Perm.swap _ _ _)
  exact hfilter m.entries m.keys_nodup h

theorem entries_nodup (m : BTreeMap κ ν) : m.entries.Nodup := m.keys_nodup.of_map

/-- An insertion puts one entry in the place of that of the key. -/
theorem insert_perm_remove (m : BTreeMap κ ν) (key : κ) (value : ν) :
    (m.insert key value).entries.Perm ((key, value) :: (m.remove key).entries) := by
  have hnew : (key, value) ∉ (m.remove key).entries := fun hmem => (mem_remove.mp hmem).2 rfl
  refine (perm_ext_iff_of_nodup (entries_nodup _)
    (nodup_cons.mpr ⟨hnew, entries_nodup _⟩)).mpr fun e => ?_
  rw [mem_cons, mem_remove]
  by_cases hkey : e.1 = key
  · have hself : e ∈ (m.insert key value).entries ↔ e = (key, value) := by
      obtain ⟨k, v⟩ := e
      have hk : k = key := hkey
      subst hk
      constructor
      · exact fun hmem => congrArg _ (value_unique hmem (mem_insert_self m k value))
      · intro heq
        rw [heq]
        exact mem_insert_self m k value
    rw [hself]
    exact ⟨.inl, fun h => h.elim id fun hother => absurd hkey hother.2⟩
  · have hne : e ≠ (key, value) := fun heq => hkey (congrArg Prod.fst heq)
    rw [mem_insert_ne hkey]
    exact ⟨fun hmem => .inr ⟨hmem, hkey⟩, fun h => h.elim (fun heq => absurd heq hne) And.left⟩

theorem remove_of_notMem (h : key ∉ m.keys) : m.remove key = m := by
  have hentries : (m.remove key).entries = m.entries := by
    rw [remove, retain, filter_eq_self]
    intro e he
    have hne : e.1 ≠ key := by
      rintro rfl
      exact h (mem_map_of_mem he)
    simpa using hne
  cases m
  simpa [remove, retain] using hentries

/-! ## Insertions one after the other -/

def insertEntries (new entries : List (κ × ν)) : List (κ × ν) :=
  new.foldl (fun entries e => insertEntry e.1 e.2 entries) entries

theorem insertEntry_last {key : κ} (h : ∀ e ∈ entries, e.1 < key)
    (value : ν) : insertEntry key value entries = entries ++ [(key, value)] := by
  induction entries with
  | nil => rfl
  | cons first entries ih =>
    rw [forall_mem_cons] at h
    rw [insertEntry, if_neg (not_lt.mpr h.1.le), if_neg (ne_of_gt h.1), ih h.2]
    rfl

/-- Entries that are inserted in their order are appended. -/
theorem insertEntries_sorted {front entries : List (κ × ν)}
    (h : (front ++ entries).Pairwise fun a b => a.1 < b.1) :
    insertEntries entries front = front ++ entries := by
  induction entries generalizing front with
  | nil => simp [insertEntries]
  | cons e entries ih =>
    have hbelow : ∀ a ∈ front, a.1 < e.1 := fun a ha =>
      (pairwise_append.mp h).2.2 a ha e mem_cons_self
    rw [insertEntries, foldl_cons, insertEntry_last hbelow, ← insertEntries]
    rw [append_cons] at h
    exact (ih h).trans (append_cons ..).symm

theorem mem_insertEntries {new entries : List (κ × ν)}
    (h : e ∈ insertEntries new entries) : e ∈ new ∨ e ∈ entries := by
  induction new generalizing entries with
  | nil => exact .inr h
  | cons first new ih =>
    rcases ih h with hnew | hold
    · exact .inl (mem_cons_of_mem _ hnew)
    · rcases mem_insertEntry hold with rfl | hmem
      · exact .inl mem_cons_self
      · exact .inr hmem

theorem foldl_insert_entries (new : List (κ × ν)) (m : BTreeMap κ ν) :
    (new.foldl (fun m e => m.insert e.1 e.2) m).entries = insertEntries new m.entries := by
  induction new generalizing m with
  | nil => rfl
  | cons e new ih => exact ih (m.insert e.1 e.2)

theorem insertEntry_first {key : κ} (h : ∀ e ∈ entries, key < e.1)
    (value : ν) : insertEntry key value entries = (key, value) :: entries := by
  cases entries with
  | nil => rfl
  | cons first entries => exact if_pos (h first mem_cons_self)

/-- A choice among the keys that takes the inserted one. -/
theorem filter_insertEntry {p : κ → Bool} {key : κ} (hkey : p key = true) (value : ν) (h : entries.Pairwise fun a b => a.1 < b.1) :
    (insertEntry key value entries).filter (fun e => p e.1) =
      insertEntry key value (entries.filter fun e => p e.1) := by
  induction entries with
  | nil => simp [insertEntry, hkey]
  | cons first entries ih =>
    obtain ⟨k, v⟩ := first
    rw [pairwise_cons] at h
    rw [insertEntry]
    split_ifs with hlt heq
    · have habove : ∀ e ∈ ((k, v) :: entries).filter fun e => p e.1, key < e.1 := by
        intro e he
        rcases mem_cons.mp (mem_of_mem_filter he) with rfl | hmem
        · exact hlt
        · exact hlt.trans (h.1 e hmem)
      rw [filter_cons_of_pos (by exact hkey), insertEntry_first habove]
    · subst heq
      rw [filter_cons_of_pos (by exact hkey), filter_cons_of_pos (by exact hkey),
        insertEntry, if_neg (lt_irrefl key), if_pos rfl]
    · by_cases hfirst : p k = true
      · rw [filter_cons_of_pos (by exact hfirst), filter_cons_of_pos (by exact hfirst),
          ih h.2, insertEntry, if_neg hlt, if_neg heq]
      · rw [filter_cons_of_neg (by exact hfirst), filter_cons_of_neg (by exact hfirst),
          ih h.2]

theorem filter_insertEntries {p : κ → Bool} {new entries : List (κ × ν)}
    (hnew : ∀ e ∈ new, p e.1 = true) (h : entries.Pairwise fun a b => a.1 < b.1) :
    (insertEntries new entries).filter (fun e => p e.1) =
      insertEntries new (entries.filter fun e => p e.1) := by
  induction new generalizing entries with
  | nil => rfl
  | cons e new ih =>
    rw [forall_mem_cons] at hnew
    rw [insertEntries, foldl_cons, ← insertEntries,
      ih hnew.2 (insertEntry_sorted e.1 e.2 h), filter_insertEntry hnew.1 e.2 h]
    rfl

/-- An entry where the insertion under its key looks for it. -/
def Settled (key : κ) (value : ν) (entries : List (κ × ν)) : Prop :=
  ∃ front back, entries = front ++ (key, value) :: back ∧ ∀ e ∈ front, e.1 < key

theorem settled_cons {key : κ} {value : ν}
    (he : e.1 < key) (h : Settled key value entries) : Settled key value (e :: entries) := by
  obtain ⟨front, back, rfl, hfront⟩ := h
  exact ⟨e :: front, back, rfl, forall_mem_cons.mpr ⟨he, hfront⟩⟩

theorem settled_head (key : κ) (value : ν) (entries : List (κ × ν)) :
    Settled key value ((key, value) :: entries) :=
  ⟨[], entries, rfl, fun _ he => absurd he not_mem_nil⟩

theorem settled_insertEntry (key : κ) (value : ν) (entries : List (κ × ν)) :
    Settled key value (insertEntry key value entries) := by
  induction entries with
  | nil => exact settled_head key value []
  | cons first entries ih =>
    rw [insertEntry]
    split_ifs with hlt heq
    · exact settled_head key value _
    · exact settled_head key value _
    · exact settled_cons (lt_of_le_of_ne (not_lt.mp hlt) (Ne.symm heq)) ih

theorem Settled.insertEntry_self {key : κ} {value : ν}
    (h : Settled key value entries) : insertEntry key value entries = entries := by
  obtain ⟨front, back, rfl, hfront⟩ := h
  induction front with
  | nil => rw [nil_append, insertEntry, if_neg (lt_irrefl key), if_pos rfl]
  | cons first front ih =>
    rw [forall_mem_cons] at hfront
    rw [cons_append, insertEntry, if_neg (not_lt.mpr hfront.1.le),
      if_neg (ne_of_gt hfront.1), ih hfront.2]

theorem Settled.insertEntry_ne {key other : κ} {value : ν}
    (h : Settled key value entries) (hne : other ≠ key) (v : ν) :
    Settled key value (insertEntry other v entries) := by
  obtain ⟨front, back, rfl, hfront⟩ := h
  induction front with
  | nil =>
    rw [nil_append, insertEntry]
    split_ifs with hlt
    · exact settled_cons hlt (settled_head key value back)
    · exact settled_head key value _
  | cons first front ih =>
    rw [forall_mem_cons] at hfront
    have hrest : Settled key value (front ++ (key, value) :: back) := ⟨front, back, rfl, hfront.2⟩
    rw [cons_append, insertEntry]
    split_ifs with hlt heq
    · exact settled_cons (hlt.trans hfront.1) (settled_cons hfront.1 hrest)
    · exact settled_cons (heq ▸ hfront.1) hrest
    · exact settled_cons hfront.1 (ih hfront.2)

/-- The same insertions once more change nothing. -/
theorem insertEntries_idem {new : List (κ × ν)} (hkeys : (new.map Prod.fst).Nodup)
    (entries : List (κ × ν)) :
    insertEntries new (insertEntries new entries) = insertEntries new entries :=
  Replay.foldl_twice
    (fun (_ : List (κ × ν)) (e other : κ × ν) (hne : e.1 ≠ other.1) (h : Settled e.1 e.2 _) =>
      h.insertEntry_ne hne.symm other.2)
    (fun entries e => settled_insertEntry e.1 e.2 entries) (fun _ _ h => h.insertEntry_self)
    (pairwise_map.mp hkeys) entries

/-! ## Searching the values -/

/-- The first value with a property is the one at the least key. -/
theorem find_entries_eq_some {p : ν → Bool} :
    (m.entries.find? fun e => p e.2) = some (key, value) ↔
      m.get key = some value ∧ p value = true ∧
        ∀ earlier < key, ∀ other, m.get earlier = some other → p other = false := by
  simp only [get_eq_some, find?_eq_some_iff_append, Bool.not_eq_true']
  have hsorted := m.sorted
  constructor
  · rintro ⟨hp, front, back, hentries, hfront⟩
    rw [hentries] at hsorted ⊢
    refine ⟨by simp, hp, fun earlier hearlier other hmem => ?_⟩
    rcases mem_append.mp hmem with hmem | hmem
    · exact hfront _ hmem
    · rcases mem_cons.mp hmem with heq | hmem
      · exact absurd (Prod.mk.inj heq).1 hearlier.ne
      · have hlater := rel_of_pairwise_cons (pairwise_append.mp hsorted).2.1 hmem
        exact absurd hlater hearlier.asymm
  · rintro ⟨hmem, hp, hearlier⟩
    obtain ⟨front, back, hentries⟩ := append_of_mem hmem
    refine ⟨hp, front, back, hentries, fun e he => ?_⟩
    rw [hentries] at hsorted
    have hlt := (pairwise_append.mp hsorted).2.2 e he _ mem_cons_self
    exact hearlier e.1 hlt e.2 (by simp [hentries, he])

theorem find_entries_eq_none {p : ν → Bool} :
    (m.entries.find? fun e => p e.2) = none ↔ ∀ key value, m.get key = some value → p value = false := by
  simp only [get_eq_some, find?_eq_none, Bool.not_eq_true]
  exact ⟨fun h key value hmem => h (key, value) hmem, fun h e hmem => h e.1 e.2 hmem⟩

end BTreeMap
end CodeSeeX
