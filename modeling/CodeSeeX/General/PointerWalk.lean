import CodeSeeX.General.HashMap
import Mathlib.Data.Finset.Card

/-!
# Walks along pointers

Entries of a map may point to a further key. `walk` follows the pointers from a
key until one is missing, unknown or met before, so it ends on every map, cyclic
ones included. Without visited keys it collects the known keys that can be reached.
-/
namespace CodeSeeX.PointerWalk
open List Option

variable {κ ν : Type} [DecidableEq κ] {m : HashMap κ ν} {next : ν → Option κ}

def walk (m : HashMap κ ν) (next : ν → Option κ) (visited : List κ) (cursor : Option κ) :
    List κ :=
  match cursor with
  | none => []
  | some key =>
      if _h : key ∈ visited then []
      else match _hr : m.lookup key with
        | none => []
        | some value => key :: walk m next (key :: visited) (next value)
termination_by (m.keys.toFinset \ visited.toFinset).card
decreasing_by
  have hmem : key ∈ m.keys := by
    rw [← AList.mem_keys, ← AList.lookup_isSome, _hr]
    rfl
  apply Finset.card_lt_card
  constructor
  · exact Finset.sdiff_subset_sdiff (Finset.Subset.refl _) (by simp)
  · intro hsub
    have hkey := hsub (by simp [hmem, _h] : key ∈ m.keys.toFinset \ visited.toFinset)
    simp at hkey

/-- One pointer step between known keys. -/
def Points (m : HashMap κ ν) (next : ν → Option κ) (a b : κ) : Prop :=
  ∃ value, m.lookup a = some value ∧ next value = some b

/-- A walk reads no more of the map than the pointers of its entries. -/
theorem walk_congr {other : HashMap κ ν}
    (h : ∀ key, (other.lookup key).map next = (m.lookup key).map next) (visited : List κ)
    (cursor : Option κ) : walk other next visited cursor = walk m next visited cursor := by
  fun_induction walk m next visited cursor with
  | case1 visited => rw [walk]
  | case2 visited key hmem => rw [walk, dif_pos hmem]
  | case3 visited key hmem hnone =>
    have hother : other.lookup key = none := by
      have hkey := h key
      rwa [hnone, map_none, map_eq_none_iff] at hkey
    rw [walk, dif_neg hmem]
    split
    · rfl
    · rename_i hsome
      rw [hother] at hsome
      cases hsome
  | case4 visited key hmem value hvalue ih =>
    have hkey := h key
    rw [hvalue, map_some, map_eq_some_iff] at hkey
    obtain ⟨later, hlater, hnext⟩ := hkey
    rw [walk, dif_neg hmem]
    split
    · rename_i hnone
      rw [hlater] at hnone
      cases hnone
    · rename_i found hfound
      rw [hlater, some_inj] at hfound
      rw [← hfound, hnext, ih]

theorem mem_of_mem_walk (visited : List κ) (cursor : Option κ) :
    ∀ key ∈ walk m next visited cursor, key ∈ m := by
  fun_induction walk m next visited cursor with
  | case1 => simp
  | case2 => simp
  | case3 => simp
  | case4 visited key h value hr ih =>
    intro other hmem
    rcases mem_cons.mp hmem with rfl | hmem
    · exact AList.lookup_isSome.mp (by simp [hr])
    · exact ih other hmem

theorem reaches_of_mem_walk (visited : List κ) (start : κ) :
    ∀ key ∈ walk m next visited (some start), Relation.ReflTransGen (Points m next) start key := by
  generalize hc : some start = cursor
  fun_induction walk m next visited cursor generalizing start with
  | case1 => simp
  | case2 => simp
  | case3 => simp
  | case4 visited key h value hr ih =>
    obtain rfl : start = key := by simpa using hc
    intro other hmem
    rcases mem_cons.mp hmem with rfl | hmem
    · exact Relation.ReflTransGen.refl
    · cases hn : next value with
      | none => simp [hn, walk] at hmem
      | some target =>
        rw [hn] at ih hmem
        exact Relation.ReflTransGen.head ⟨value, hr, hn⟩ (ih target rfl other hmem)

/-- What a walk meets points into the walk, at a visited key, or outside the map. -/
theorem walk_closed (visited : List κ) (cursor : Option κ) {a b : κ}
    (ha : a ∈ walk m next visited cursor) (hab : Points m next a b) (hb : b ∈ m) :
    b ∈ walk m next visited cursor ∨ b ∈ visited := by
  fun_induction walk m next visited cursor with
  | case1 => simp at ha
  | case2 => simp at ha
  | case3 => simp at ha
  | case4 visited key h value hr ih =>
    rcases mem_cons.mp ha with rfl | ha
    · obtain ⟨value', hlook, hnext⟩ := hab
      obtain rfl : value = value' := by simpa [hr] using hlook
      by_cases hv : b ∈ a :: visited
      · rcases mem_cons.mp hv with rfl | hv
        · exact .inl mem_cons_self
        · exact .inr hv
      · obtain ⟨target, htarget⟩ := isSome_iff_exists.mp (AList.lookup_isSome.mpr hb)
        left
        apply mem_cons_of_mem
        rw [hnext, walk]
        split
        · contradiction
        · split
          · simp_all
          · exact mem_cons_self
    · rcases ih ha with hin | hin
      · exact .inl (mem_cons_of_mem _ hin)
      · rcases mem_cons.mp hin with rfl | hv
        · exact .inl mem_cons_self
        · exact .inr hv

theorem start_mem_walk {start : κ} (h : start ∈ m) : start ∈ walk m next [] (some start) := by
  obtain ⟨value, hvalue⟩ := isSome_iff_exists.mp (AList.lookup_isSome.mpr h)
  rw [walk]
  split
  · simp at *
  · split
    · simp_all
    · exact mem_cons_self

/-- A walk collects exactly the known keys that its start reaches through known keys. -/
theorem mem_walk_iff {start key : κ} :
    key ∈ walk m next [] (some start) ↔
      Relation.ReflTransGen (Points m next) start key ∧ key ∈ m := by
  constructor
  · exact fun h => ⟨reaches_of_mem_walk [] start key h, mem_of_mem_walk [] _ key h⟩
  · rintro ⟨hreach, hkey⟩
    induction hreach with
    | refl => exact start_mem_walk hkey
    | @tail b key _ hstep ih =>
      obtain ⟨value, hvalue, hnext⟩ := hstep
      have hknown : b ∈ m := AList.lookup_isSome.mp (by simp [hvalue])
      rcases walk_closed [] _ (ih hknown) ⟨value, hvalue, hnext⟩ hkey with hin | hin
      · exact hin
      · simp at hin

/-- The walk from a key on another walk stays on that walk. -/
theorem walk_subset {a b : κ} (h : b ∈ walk m next [] (some a)) :
    walk m next [] (some b) ⊆ walk m next [] (some a) := by
  intro key hkey
  rw [mem_walk_iff] at h hkey ⊢
  exact ⟨h.1.trans hkey.1, hkey.2⟩

/-! ## Steps along pointers -/

/-- The key after so many pointers. -/
def follow (m : HashMap κ ν) (next : ν → Option κ) : ℕ → Option κ → Option κ
  | 0, cursor => cursor
  | n + 1, cursor => follow m next n ((cursor.bind fun key => m.lookup key).bind next)

@[simp] theorem follow_none (n : ℕ) : follow m next n none = none := by
  induction n with
  | zero => rfl
  | succ n ih => exact ih

theorem follow_succ (n : ℕ) (cursor : Option κ) :
    follow m next (n + 1) cursor =
      ((follow m next n cursor).bind fun key => m.lookup key).bind next := by
  induction n generalizing cursor with
  | zero => rfl
  | succ n ih =>
    rw [follow, ih]
    rfl

/-- Once the pointers have ended they stay ended. -/
theorem follow_ended {i j : ℕ} {cursor : Option κ} (h : follow m next i cursor = none)
    (hij : i ≤ j) : follow m next j cursor = none := by
  obtain ⟨k, rfl⟩ := Nat.exists_eq_add_of_le hij
  induction k with
  | zero => exact h
  | succ k ih =>
    rw [← Nat.add_assoc, follow_succ, ih (by omega)]
    rfl

/-- The known keys that the first pointers give, without repetition, end within the map. -/
theorem follow_ends {depth : ℕ} {cursor : Option κ} (hsize : m.entries.length < depth)
    (hknown : ∀ n < depth, ∀ key, follow m next n cursor = some key → key ∈ m)
    (hdistinct : ∀ i j, i < j → j < depth → ∀ key, follow m next i cursor = some key →
      follow m next j cursor ≠ some key) :
    ∃ n < depth, follow m next n cursor = none := by
  by_contra hnone
  push Not at hnone
  have hsome : ∀ n < depth, ∃ key, follow m next n cursor = some key := fun n hn =>
    ne_none_iff_exists'.mp (hnone n hn)
  have hnodup : ((range depth).map fun n => follow m next n cursor).Nodup := by
    rw [nodup_map_iff_inj_on nodup_range]
    intro i hi j hj heq
    obtain ⟨key, hkey⟩ := hsome i (mem_range.mp hi)
    rcases Nat.lt_trichotomy i j with hlt | heq' | hlt
    · exact absurd (heq ▸ hkey) (hdistinct i j hlt (mem_range.mp hj) key hkey)
    · exact heq'
    · rw [hkey] at heq
      exact absurd hkey (hdistinct j i hlt (mem_range.mp hi) key heq.symm)
  have hsubset : ((range depth).map fun n => follow m next n cursor) ⊆
      m.keys.map some := by
    intro entry hentry
    obtain ⟨n, hn, rfl⟩ := mem_map.mp hentry
    obtain ⟨key, hkey⟩ := hsome n (mem_range.mp hn)
    rw [hkey]
    exact mem_map_of_mem (AList.mem_keys.mp (hknown n (mem_range.mp hn) key hkey))
  have hlength := (hnodup.subperm hsubset).length_le
  rw [length_map, length_range, length_map, AList.keys, keys,
    length_map] at hlength
  omega

end CodeSeeX.PointerWalk
