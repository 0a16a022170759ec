import Mathlib.Tactic

/-!
# Lists changed at positions

Entries are removed by their positions, the last one first so that the others stay valid, or
changed in place. Both are read off the list of the entries with their positions. Everything
here holds for lists over any type.
-/
namespace CodeSeeX.Positions
open List

variable {α : Type*}

/-- A list from a position on: its entries with their positions. -/
theorem filter_zipIdx_of_lt {positions : List ℕ} {start : ℕ} (h : ∀ i ∈ positions, i < start)
    (xs : List α) : (xs.zipIdx start).filter (fun p => p.2 ∉ positions) = xs.zipIdx start := by
  rw [filter_eq_self]
  intro p hp
  have hle := le_snd_of_mem_zipIdx hp
  have hout : p.2 ∉ positions := fun hmem => absurd (h _ hmem) (by omega)
  simpa using hout

/-- Entries removed from the last one on are those whose positions are not listed. -/
theorem foldl_eraseIdx {positions : List ℕ} (h : positions.Pairwise (· < ·)) (xs : List α) :
    positions.reverse.foldl eraseIdx xs =
      (xs.zipIdx.filter fun p => p.2 ∉ positions).map Prod.fst := by
  induction positions using reverseRecOn generalizing xs with
  | nil => simp
  | append_singleton positions i ih =>
    obtain ⟨hfront, _, hlast⟩ := pairwise_append.mp h
    have hbelow : ∀ j ∈ positions, j < i := fun j hj => hlast j hj i mem_cons_self
    rw [reverse_append, reverse_singleton, singleton_append, foldl_cons,
      ih hfront]
    have hbehind : ∀ j ∈ positions ++ [i], j < i + 1 := by
      intro j hj
      rcases mem_append.mp hj with hj | hj
      · exact (hbelow j hj).trans (Nat.lt_succ_self i)
      · rw [mem_singleton.mp hj]
        exact Nat.lt_succ_self i
    have hfirst : ((xs.take i).zipIdx.filter fun p => p.2 ∉ positions ++ [i]) =
        (xs.take i).zipIdx.filter fun p => p.2 ∉ positions := by
      refine filter_congr fun p hp => ?_
      have hlt := snd_lt_of_mem_zipIdx hp
      rw [length_take] at hlt
      have hne : p.2 ≠ i := by omega
      simp [hne]
    by_cases hi : i < xs.length
    · have hlength : (xs.take i).length = i := by
        rw [length_take]
        omega
      have hsplit : xs = xs.take i ++ xs[i] :: xs.drop (i + 1) := by
        rw [← drop_eq_getElem_cons hi, take_append_drop]
      have herase : xs.eraseIdx i = xs.take i ++ xs.drop (i + 1) := eraseIdx_eq_take_drop_succ ..
      conv_rhs => rw [hsplit]
      rw [herase, zipIdx_append, zipIdx_append, filter_append, filter_append,
        hfirst, hlength, zipIdx_cons, filter_cons_of_neg (by simp), Nat.zero_add,
        filter_zipIdx_of_lt hbelow, filter_zipIdx_of_lt hbehind, map_append, map_append,
        zipIdx_map_fst, zipIdx_map_fst]
    · have hall : xs.take i = xs := take_of_length_le (by omega)
      rw [hall] at hfirst
      rw [hfirst, eraseIdx_of_length_le (by omega)]

/-- An entry changed in place. -/
theorem modify_zipIdx (f : α → α) (i start : ℕ) (xs : List α) : (xs.modify i f).zipIdx start =
    (xs.zipIdx start).map fun p => if p.2 = start + i then (f p.1, p.2) else p := by
  refine ext_getElem? fun j => ?_
  rw [getElem?_zipIdx, getElem?_modify, getElem?_map, getElem?_zipIdx]
  cases xs[j]? with
  | none => rfl
  | some a =>
    by_cases hj : j = i
    · subst hj
      simp
    · have hne : i ≠ j := Ne.symm hj
      simp [hne]
      omega

end CodeSeeX.Positions
