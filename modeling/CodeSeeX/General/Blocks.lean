import Mathlib.Tactic

/-!
# Choosing whole blocks of a list

A list is cut into consecutive blocks, and a set of positions chooses elements of
it. When the set holds each block wholly or not at all, what it chooses is the
concatenation of some of the blocks, in order.
-/
namespace CodeSeeX.Blocks
open List

variable {α : Type*}

/-- The elements at the positions in `kept`, the first element standing at `start`. -/
def pick (kept : Finset ℕ) : ℕ → List α → List α
  | _, [] => []
  | start, a :: as =>
      if start ∈ kept then a :: pick kept (start + 1) as else pick kept (start + 1) as

/-- The positions of consecutive blocks, the first of them at `start`. -/
def positions : ℕ → List (List α) → List (List ℕ)
  | _, [] => []
  | start, block :: blocks =>
      range' start block.length :: positions (start + block.length) blocks

/-- The set holds the block wholly or not at all. -/
def Whole (kept : Finset ℕ) (block : List ℕ) : Prop :=
  (∀ i ∈ block, i ∈ kept) ∨ ∀ i ∈ block, i ∉ kept

section Pick

variable {kept : Finset ℕ} {start : ℕ} {as bs : List α}

theorem pick_sublist : (pick kept start as).Sublist as := by
  induction as generalizing start with
  | nil => exact Sublist.slnil
  | cons a as ih =>
    simp only [pick]
    split_ifs
    · exact ih.cons_cons a
    · exact ih.cons a

theorem pick_append :
    pick kept start (as ++ bs) = pick kept start as ++ pick kept (start + as.length) bs := by
  induction as generalizing start with
  | nil => simp [pick]
  | cons a as ih =>
    have hlength : start + (a :: as).length = start + 1 + as.length := by
      simp only [length_cons]
      omega
    rw [hlength, cons_append]
    simp only [pick, ih]
    split_ifs
    · rfl
    · rfl

theorem pick_of_all (h : ∀ i ∈ range' start as.length, i ∈ kept) :
    pick kept start as = as := by
  induction as generalizing start with
  | nil => rfl
  | cons a as ih =>
    rw [length_cons, range'_succ, forall_mem_cons] at h
    simp only [pick, if_pos h.1, ih h.2]

theorem pick_of_none (h : ∀ i ∈ range' start as.length, i ∉ kept) :
    pick kept start as = [] := by
  induction as generalizing start with
  | nil => rfl
  | cons a as ih =>
    rw [length_cons, range'_succ, forall_mem_cons] at h
    simp only [pick, if_neg h.1, ih h.2]

end Pick

/-- What is picked is a concatenation of blocks. -/
theorem pick_flatten {kept : Finset ℕ} {start : ℕ} {blocks : List (List α)}
    (h : ∀ block ∈ positions start blocks, Whole kept block) :
    ∃ chosen : List (List α), chosen.Sublist blocks ∧
      pick kept start blocks.flatten = chosen.flatten := by
  induction blocks generalizing start with
  | nil => exact ⟨[], Sublist.slnil, rfl⟩
  | cons block blocks ih =>
    rw [positions, forall_mem_cons] at h
    obtain ⟨chosen, hsub, hpick⟩ := ih h.2
    rw [flatten_cons, pick_append, hpick]
    rcases h.1 with hall | hnone
    · refine ⟨block :: chosen, hsub.cons_cons block, ?_⟩
      rw [pick_of_all hall, flatten_cons]
    · refine ⟨chosen, hsub.cons block, ?_⟩
      rw [pick_of_none hnone, nil_append]

/-! ### The positions of the blocks -/

section Positions

variable {start i : ℕ} {blocks : List (List α)} {block other : List ℕ}

theorem mem_positions_bounds (h : block ∈ positions start blocks) (hi : i ∈ block) :
    start ≤ i ∧ i < start + blocks.flatten.length := by
  induction blocks generalizing start with
  | nil => simp [positions] at h
  | cons first blocks ih =>
    rw [flatten_cons, length_append]
    rcases mem_cons.mp h with rfl | hmem
    · rw [mem_range'_1] at hi
      omega
    · have hlater := ih hmem
      omega

/-- The blocks are pairwise disjoint. -/
theorem positions_pairwise : (positions start blocks).Pairwise List.Disjoint := by
  induction blocks generalizing start with
  | nil => exact List.Pairwise.nil
  | cons first blocks ih =>
    refine pairwise_cons.mpr ⟨?_, ih⟩
    intro later hlater i hi hi'
    have hbounds := mem_positions_bounds hlater hi'
    rw [mem_range'_1] at hi
    omega

theorem positions_nodup (h : block ∈ positions start blocks) : block.Nodup := by
  induction blocks generalizing start with
  | nil => simp [positions] at h
  | cons first blocks ih =>
    rcases mem_cons.mp h with rfl | hmem
    · exact nodup_range'
    · exact ih hmem

end Positions

end CodeSeeX.Blocks
