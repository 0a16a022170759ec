import Mathlib.Tactic

/-!
# Consumers of chunked input

A consumer is fed a list in chunks: each push answers at once and changes its state,
the finish answers for what is left. Its answers are added up. A specification
`whole` of the answer to a whole list decides, push by push, whether a cutting
changes the answer.
-/
namespace CodeSeeX.Chunked

variable {α σ M : Type*}

structure Consumer (α σ M : Type*) where
  push : σ → List α → M × σ
  finish : σ → M

namespace Consumer

variable (C : Consumer α σ M)

/-- A condition on every push of a run, given the state, the chunk and the rest of the input. -/
def EachPush (ok : σ → List α → List α → Prop) : σ → List (List α) → Prop
  | _, [] => True
  | s, chunk :: chunks => ok s chunk chunks.flatten ∧ EachPush ok (C.push s chunk).2 chunks

variable [AddMonoid M]

def run : σ → List (List α) → M
  | s, [] => C.finish s
  | s, chunk :: chunks => (C.push s chunk).1 + run (C.push s chunk).2 chunks

variable {C} {inv : σ → Prop} {ok : σ → List α → List α → Prop} {whole : σ → List α → M}

/-- If every push splits the specification, the cutting does not matter. -/
theorem run_eq_whole (hinv : ∀ s chunk, inv s → inv (C.push s chunk).2)
    (hfinish : ∀ s, inv s → whole s [] = C.finish s)
    (hpush : ∀ s chunk rest, ok s chunk rest →
      whole s (chunk ++ rest) = (C.push s chunk).1 + whole (C.push s chunk).2 rest)
    {s : σ} {chunks : List (List α)} (hs : inv s) (h : C.EachPush ok s chunks) :
    C.run s chunks = whole s chunks.flatten := by
  induction chunks generalizing s with
  | nil => exact (hfinish s hs).symm
  | cons chunk chunks ih =>
    rw [run, ih (hinv s chunk hs) h.2, List.flatten_cons, hpush s chunk _ h.1]

/-- If every other push makes the answer larger than the specification, the cutting matters
exactly when there is such a push. -/
theorem run_eq_whole_iff (size : M →+ ℕ) (hinv : ∀ s chunk, inv s → inv (C.push s chunk).2)
    (hfinish : ∀ s, inv s → whole s [] = C.finish s)
    (hpush : ∀ s chunk rest, ok s chunk rest →
      whole s (chunk ++ rest) = (C.push s chunk).1 + whole (C.push s chunk).2 rest)
    (hgrow : ∀ s chunk rest, ¬ ok s chunk rest → size (whole s (chunk ++ rest)) <
      size (C.push s chunk).1 + size (whole (C.push s chunk).2 rest))
    {s : σ} (chunks : List (List α)) (hs : inv s) :
    C.run s chunks = whole s chunks.flatten ↔ C.EachPush ok s chunks := by
  refine ⟨?_, run_eq_whole hinv hfinish hpush hs⟩
  -- the answer of a run is never smaller, and larger behind a push that is not ok
  have hsize : ∀ (chunks : List (List α)) (s : σ), inv s →
      size (whole s chunks.flatten) ≤ size (C.run s chunks) ∧
        (¬ C.EachPush ok s chunks → size (whole s chunks.flatten) < size (C.run s chunks)) := by
    intro chunks
    induction chunks with
    | nil =>
      intro s hs
      rw [List.flatten_nil, hfinish s hs]
      exact ⟨le_refl _, fun h => absurd trivial h⟩
    | cons chunk chunks ih =>
      intro s hs
      obtain ⟨hle, hlt⟩ := ih (C.push s chunk).2 (hinv s chunk hs)
      rw [run, List.flatten_cons, map_add]
      by_cases hok : ok s chunk chunks.flatten
      · rw [hpush s chunk _ hok, map_add]
        refine ⟨by omega, fun h => ?_⟩
        have hrest : ¬ C.EachPush ok (C.push s chunk).2 chunks := fun hrest => h ⟨hok, hrest⟩
        have := hlt hrest
        omega
      · have := hgrow s chunk _ hok
        exact ⟨by omega, fun _ => by omega⟩
  intro heq
  by_contra hbad
  have := (hsize chunks s hs).2 hbad
  rw [heq] at this
  omega

end Consumer

end CodeSeeX.Chunked
