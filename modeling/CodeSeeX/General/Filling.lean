import Mathlib.Tactic

/-!
# Filling a budget greedily

Sizes are offered one after another, and each is taken that still fits. When a part
of what is used already is hidden from the count, the budget is kept exactly as
long as no size is offered that fits only because of the hidden part.
-/
namespace CodeSeeX.Filling

/-- What is used after the sizes were offered. -/
def fill (budget : ℕ) : ℕ → List ℕ → ℕ
  | used, [] => used
  | used, size :: sizes =>
      if used + size ≤ budget then fill budget (used + size) sizes else fill budget used sizes

variable {budget hidden used : ℕ} {sizes : List ℕ}

theorem le_fill : used ≤ fill budget used sizes := by
  induction sizes generalizing used with
  | nil => exact le_refl used
  | cons size sizes ih =>
    simp only [fill]
    split_ifs
    · exact (Nat.le_add_right used size).trans ih
    · exact ih

theorem fill_le (h : used ≤ budget) : fill budget used sizes ≤ budget := by
  induction sizes generalizing used with
  | nil => exact h
  | cons size sizes ih =>
    simp only [fill]
    split_ifs with hfits
    · exact ih hfits
    · exact ih h

/-- Every size offered that fits beside what is counted fits beside the hidden part too. -/
def Unaffected (budget hidden used : ℕ) (sizes : List ℕ) : Prop :=
  ∀ earlier size later, sizes = earlier ++ size :: later →
    fill budget (used + hidden) earlier + size ≤ budget + hidden →
    fill budget (used + hidden) earlier + size ≤ budget

theorem fill_hidden (h : Unaffected budget hidden used sizes) :
    fill budget used sizes + hidden = fill budget (used + hidden) sizes := by
  induction sizes generalizing used with
  | nil => rfl
  | cons size sizes ih =>
    have hfirst : used + hidden + size ≤ budget + hidden → used + hidden + size ≤ budget :=
      h [] size sizes rfl
    have hlater : ∀ used', used' + hidden = (if used + hidden + size ≤ budget then
        used + hidden + size else used + hidden) → Unaffected budget hidden used' sizes := by
      intro used' hused earlier next later hsplit hfits
      have hstep : fill budget (used + hidden) (size :: earlier) =
          fill budget (used' + hidden) earlier := by
        rw [hused, fill]
        split_ifs
        · rfl
        · rfl
      have hnext := h (size :: earlier) next later (by rw [hsplit, List.cons_append])
      rw [hstep] at hnext
      exact hnext hfits
    by_cases hfits : used + size ≤ budget
    · have hroom : used + hidden + size ≤ budget := hfirst (by omega)
      rw [fill, if_pos hfits, fill, if_pos hroom,
        ih (hlater (used + size) (by rw [if_pos hroom]; omega)), Nat.add_right_comm]
    · have hroom : ¬ used + hidden + size ≤ budget := by omega
      rw [fill, if_neg hfits, fill, if_neg hroom, ih (hlater used (by rw [if_neg hroom]))]

/-- With a hidden part the budget is kept exactly if the part makes no difference. -/
theorem fill_within_iff (hstart : used + hidden ≤ budget) :
    fill budget used sizes + hidden ≤ budget ↔ Unaffected budget hidden used sizes := by
  constructor
  · intro h earlier size later hsplit
    subst hsplit
    induction earlier generalizing used with
    | nil =>
      intro hfits
      rw [fill] at hfits
      have hroom : used + size ≤ budget := by omega
      rw [List.nil_append, fill, if_pos hroom] at h
      have hgrown : used + size ≤ fill budget (used + size) later := le_fill
      simp only [fill]
      omega
    | cons first earlier ih =>
      intro hfits
      by_cases hroom : used + first ≤ budget
      · rw [List.cons_append, fill, if_pos hroom] at h
        have hgrown : used + first ≤ fill budget (used + first) (earlier ++ size :: later) :=
          le_fill
        have hstep : fill budget (used + hidden) (first :: earlier) =
            fill budget (used + first + hidden) earlier := by
          rw [fill, if_pos (by omega), Nat.add_right_comm]
        rw [hstep] at hfits ⊢
        exact ih (by omega) h hfits
      · rw [List.cons_append, fill, if_neg hroom] at h
        have hstep : fill budget (used + hidden) (first :: earlier) =
            fill budget (used + hidden) earlier := by
          rw [fill, if_neg (by omega)]
        rw [hstep] at hfits ⊢
        exact ih hstart h hfits
  · intro h
    rw [fill_hidden h]
    exact fill_le hstart

end CodeSeeX.Filling
