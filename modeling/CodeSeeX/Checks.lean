import CodeSeeX.Text

/-!
# Checks with an early return

The fallible steps of a function that returns on its first error, and what is known when it
comes to its end.
-/
namespace CodeSeeX.Checks

/-- `option.ok_or_else(..)?` -/
def require {α : Type} (value : Option α) (message : Text) : Except Text α :=
  match value with
  | some value => .ok value
  | none => .error message

/-- A check that returns an error. -/
def ensure (holds : Bool) (message : Text) : Except Text Unit :=
  if holds then .ok () else .error message

theorem bind_ok {ε α β : Type} {x : Except ε α} {f : α → Except ε β} {b : β} :
    (x >>= f) = .ok b ↔ ∃ a, x = .ok a ∧ f a = .ok b := by
  cases x with
  | error e => simp [bind, Except.bind]
  | ok a => simp [bind, Except.bind]

theorem ensure_ok {holds : Bool} {message : Text} {u : Unit} :
    ensure holds message = .ok u ↔ holds = true := by
  rw [ensure]
  split_ifs with h <;> simp [h]

theorem require_ok {α : Type} {value : Option α} {message : Text} {a : α} :
    require value message = .ok a ↔ value = some a := by
  cases value <;> simp [require]

end CodeSeeX.Checks
