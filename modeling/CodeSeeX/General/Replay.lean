import Mathlib.Tactic

/-!
# Operations applied once more

Operations are applied one after the other. Each leaves a mark that makes it idle when it is
applied again, and the operations of different kinds respect each other's marks: then the whole
list of operations is idle when it is applied a second time.
-/
namespace CodeSeeX.Replay
open List

variable {σ α : Type*} {apply : σ → α → σ} {Done : σ → α → Prop} {Apart : α → α → Prop}

/-- The mark of an operation survives later ones of other kinds. -/
theorem done_foldl (hkeep : ∀ s a b, Apart a b → Done s a → Done (apply s b) a) {a : α}
    {later : List α} (hapart : ∀ b ∈ later, Apart a b) {s : σ} (h : Done s a) :
    Done (later.foldl apply s) a := by
  induction later generalizing s with
  | nil => exact h
  | cons b later ih =>
    rw [forall_mem_cons] at hapart
    exact ih hapart.2 (hkeep s a b hapart.1 h)

theorem forall_done_foldl (hkeep : ∀ s a b, Apart a b → Done s a → Done (apply s b) a)
    (hdone : ∀ s a, Done (apply s a) a) {as : List α} (h : as.Pairwise Apart) (s : σ) :
    ∀ a ∈ as, Done (as.foldl apply s) a := by
  induction as generalizing s with
  | nil => exact fun a ha => absurd ha not_mem_nil
  | cons first as ih =>
    rw [pairwise_cons] at h
    exact forall_mem_cons.mpr
      ⟨done_foldl hkeep h.1 (hdone s first), ih h.2 (apply s first)⟩

theorem foldl_of_done (hidle : ∀ s a, Done s a → apply s a = s) {as : List α} {s : σ}
    (h : ∀ a ∈ as, Done s a) : as.foldl apply s = s := by
  induction as with
  | nil => rfl
  | cons first as ih =>
    rw [forall_mem_cons] at h
    rw [foldl_cons, hidle s first h.1, ih h.2]

/-- The second run changes nothing. -/
theorem foldl_twice (hkeep : ∀ s a b, Apart a b → Done s a → Done (apply s b) a)
    (hdone : ∀ s a, Done (apply s a) a) (hidle : ∀ s a, Done s a → apply s a = s) {as : List α}
    (h : as.Pairwise Apart) (s : σ) : as.foldl apply (as.foldl apply s) = as.foldl apply s :=
  foldl_of_done hidle (forall_done_foldl hkeep hdone h s)

end CodeSeeX.Replay
