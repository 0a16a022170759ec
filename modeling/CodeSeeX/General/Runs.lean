import Mathlib.Tactic

/-!
# Runs of a step function

A property of a step holds along a run when it holds of each action in the state in which
the run takes it. An invariant turns a comparison of two properties at one step into one of
whole runs.
-/
namespace CodeSeeX.Runs

variable {σ α : Type*} (step : σ → α → σ)

def run (s : σ) (actions : List α) : σ := actions.foldl step s

@[simp] theorem run_nil (s : σ) : run step s [] = s := rfl

@[simp] theorem run_cons (s : σ) (action : α) (actions : List α) :
    run step s (action :: actions) = run step (step s action) actions := rfl

def Along (P : σ → α → Prop) : σ → List α → Prop
  | _, [] => True
  | s, action :: actions => P s action ∧ Along P (step s action) actions

variable {step} {P Q R : σ → α → Prop} {Inv : σ → Prop}

theorem along_true (actions : List α) (s : σ) : Along step (fun _ _ => True) s actions := by
  induction actions generalizing s with
  | nil => trivial
  | cons action actions ih => exact ⟨trivial, ih _⟩

/-- Every step that meets `P` keeps the invariant. -/
theorem invariant_run (hstep : ∀ s action, Inv s → P s action → Inv (step s action))
    {actions : List α} {s : σ} (hs : Inv s) (h : Along step P s actions) :
    Inv (run step s actions) := by
  induction actions generalizing s with
  | nil => exact hs
  | cons action actions ih =>
    obtain ⟨hfirst, hrest⟩ := h
    exact ih (hstep s action hs hfirst) hrest

/-- Where an invariant makes two properties of a step agree under a third, they agree along
every run that meets the third. -/
theorem along_iff (hinv : ∀ s action, Inv s → Inv (step s action))
    (hstep : ∀ s action, Inv s → R s action → (P s action ↔ Q s action))
    {actions : List α} {s : σ} (hs : Inv s) (h : Along step R s actions) :
    Along step P s actions ↔ Along step Q s actions := by
  induction actions generalizing s with
  | nil => exact Iff.rfl
  | cons action actions ih =>
    obtain ⟨hfirst, hrest⟩ := h
    exact and_congr (hstep s action hs hfirst) (ih (hinv s action hs) hrest)

end CodeSeeX.Runs
