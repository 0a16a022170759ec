import Mathlib.Tactic

/-!
# Programs whose operations may fail

An operation on the state either fails and leaves it as it is, or takes place. A
program has several ends, one for each choice of the operations that fail; an
error ends it at once. What holds of every end is found by going through the
program backwards, and the rules for that are equivalences.
-/
namespace CodeSeeX
open List

/-- The ends of a program from a state: each a value or an error, and the state then. -/
def Fallible (σ ε α : Type) : Type := σ → List (Except ε α × σ)

namespace Fallible

variable {σ ε α β : Type}

protected def pure (a : α) : Fallible σ ε α := fun s => [(.ok a, s)]

protected def bind (m : Fallible σ ε α) (k : α → Fallible σ ε β) : Fallible σ ε β := fun s =>
  (m s).flatMap fun last =>
    match last.1 with
    | .ok a => k a last.2
    | .error e => [(.error e, last.2)]

instance : Monad (Fallible σ ε) where
  pure := Fallible.pure
  bind := Fallible.bind

def read (f : σ → α) : Fallible σ ε α := fun s => [(.ok (f s), s)]

def throw (e : ε) : Fallible σ ε α := fun s => [(.error e, s)]

/-- A reading that may fail and is answered by the fallback then. -/
def glimpse (f : σ → α) (fallback : α) : Fallible σ ε α := fun s => [(.ok (f s), s), (.ok fallback, s)]

/-- An operation that fails with the error or changes the state. -/
def perform (e : ε) (f : σ → σ) : Fallible σ ε Unit := fun s => [(.error e, s), (.ok (), f s)]

/-- An operation whose failure is ignored. -/
def attempt (f : σ → σ) : Fallible σ ε Unit := fun s => [(.ok (), s), (.ok (), f s)]

/-- Every end with an error is in a state of `E`, every other with a value and state of `Q`. -/
def Always (m : Fallible σ ε α) (E : σ → Prop) (Q : α → σ → Prop) (s : σ) : Prop :=
  ∀ last ∈ m s, match last.1 with
    | .ok a => Q a last.2
    | .error _ => E last.2

variable {E : σ → Prop} {Q : α → σ → Prop} {s : σ}

@[simp] theorem always_pure (a : α) :
    Always (pure a : Fallible σ ε α) E Q s ↔ Q a s := by
  simp [Always, pure, Fallible.pure]

@[simp] theorem always_read (f : σ → α) :
    Always (read f : Fallible σ ε α) E Q s ↔ Q (f s) s := by
  simp [Always, read]

@[simp] theorem always_glimpse (f : σ → α) (fallback : α) :
    Always (glimpse f fallback : Fallible σ ε α) E Q s ↔ Q (f s) s ∧ Q fallback s := by
  simp [Always, glimpse]

@[simp] theorem always_throw (e : ε) :
    Always (throw e : Fallible σ ε α) E Q s ↔ E s := by
  simp [Always, throw]

@[simp] theorem always_perform (e : ε) (f : σ → σ) {Q : Unit → σ → Prop} :
    Always (perform e f) E Q s ↔ E s ∧ Q () (f s) := by
  simp [Always, perform]

@[simp] theorem always_attempt (f : σ → σ) {Q : Unit → σ → Prop} :
    Always (attempt f : Fallible σ ε Unit) E Q s ↔ Q () s ∧ Q () (f s) := by
  simp [Always, attempt]

@[simp] theorem always_bind (m : Fallible σ ε α) (k : α → Fallible σ ε β) {Q : β → σ → Prop} :
    Always (m >>= k) E Q s ↔ Always m E (fun a s => Always (k a) E Q s) s := by
  constructor
  · intro h last hlast
    cases hvalue : last.1 with
    | ok a =>
      intro final hfinal
      refine h final (mem_flatMap.mpr ⟨last, hlast, ?_⟩)
      rw [hvalue]
      exact hfinal
    | error e =>
      refine h (.error e, last.2) (mem_flatMap.mpr ⟨last, hlast, ?_⟩)
      rw [hvalue]
      exact mem_singleton_self _
  · intro h final hfinal
    obtain ⟨last, hlast, hend⟩ := mem_flatMap.mp hfinal
    have hall := h last hlast
    cases hvalue : last.1 with
    | ok a =>
      rw [hvalue] at hend hall
      exact hall final hend
    | error e =>
      rw [hvalue] at hend hall
      rw [mem_singleton.mp hend]
      exact hall

/-- What a program guarantees may be weakened. -/
theorem Always.imp {m : Fallible σ ε α} {E' : σ → Prop} {Q' : α → σ → Prop}
    (h : Always m E Q s) (hE : ∀ s, E s → E' s) (hQ : ∀ a s, Q a s → Q' a s) :
    Always m E' Q' s := by
  intro last hlast
  have hend := h last hlast
  cases hvalue : last.1 with
  | ok a =>
    rw [hvalue] at hend
    exact hQ a last.2 hend
  | error e =>
    rw [hvalue] at hend
    exact hE last.2 hend

/-! ## Failing at once -/

/-- From every state some end leaves the state as it is. -/
def Idles (m : Fallible σ ε α) : Prop := ∀ s, ∃ result, (result, s) ∈ m s

/-- From every state some end is an error and leaves the state as it is. -/
def FailsAtOnce (m : Fallible σ ε α) : Prop := ∀ s, ∃ e, (.error e, s) ∈ m s

theorem FailsAtOnce.idles {m : Fallible σ ε α} (h : FailsAtOnce m) : Idles m := by
  intro s
  obtain ⟨e, he⟩ := h s
  exact ⟨.error e, he⟩

theorem idles_pure (a : α) : Idles (pure a : Fallible σ ε α) :=
  fun _ => ⟨.ok a, mem_singleton_self _⟩

theorem idles_read (f : σ → α) : Idles (read f : Fallible σ ε α) :=
  fun s => ⟨.ok (f s), mem_singleton_self _⟩

theorem idles_glimpse (f : σ → α) (fallback : α) : Idles (glimpse f fallback : Fallible σ ε α) :=
  fun _ => ⟨.ok fallback, mem_cons_of_mem _ (mem_singleton_self _)⟩

theorem idles_attempt (f : σ → σ) : Idles (attempt f : Fallible σ ε Unit) :=
  fun _ => ⟨.ok (), mem_cons_self⟩

theorem failsAtOnce_throw (e : ε) : FailsAtOnce (throw e : Fallible σ ε α) :=
  fun _ => ⟨e, mem_singleton_self _⟩

theorem failsAtOnce_perform (e : ε) (f : σ → σ) : FailsAtOnce (perform e f) :=
  fun _ => ⟨e, mem_cons_self⟩

theorem Idles.bind {m : Fallible σ ε α} (h : Idles m) {k : α → Fallible σ ε β}
    (hk : ∀ a, Idles (k a)) : Idles (m >>= k) := by
  intro s
  obtain ⟨result, hresult⟩ := h s
  cases result with
  | ok a =>
    obtain ⟨final, hfinal⟩ := hk a s
    exact ⟨final, mem_flatMap.mpr ⟨(.ok a, s), hresult, hfinal⟩⟩
  | error e => exact ⟨.error e, mem_flatMap.mpr ⟨_, hresult, mem_singleton_self _⟩⟩

theorem Idles.bind_fails {m : Fallible σ ε α} (h : Idles m) {k : α → Fallible σ ε β}
    (hk : ∀ a, FailsAtOnce (k a)) : FailsAtOnce (m >>= k) := by
  intro s
  obtain ⟨result, hresult⟩ := h s
  cases result with
  | ok a =>
    obtain ⟨e, he⟩ := hk a s
    exact ⟨e, mem_flatMap.mpr ⟨(.ok a, s), hresult, he⟩⟩
  | error e => exact ⟨e, mem_flatMap.mpr ⟨_, hresult, mem_singleton_self _⟩⟩

/-- A program that may fail at once starts where its errors may end. -/
theorem Always.of_failsAtOnce {m : Fallible σ ε α} (h : Always m E Q s) (hm : FailsAtOnce m) :
    E s := by
  obtain ⟨e, he⟩ := hm s
  exact h _ he

end Fallible

end CodeSeeX
