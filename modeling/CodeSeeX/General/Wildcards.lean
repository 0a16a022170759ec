import Mathlib.Data.List.Forall2
import Mathlib.Data.List.Infix

/-!
# Wildcards

The symbols of a pattern hit single letters, and some of them are stars, which stand for any
text. A matcher that tries the hit first reads a smaller language when a star hits a letter, and
in that language the star that was met last is the only one to come back to.
-/
namespace Wildcards
open List

variable {σ α : Type*} (star : σ → Bool) (hit : σ → α → Bool)

/-- The language of a pattern. -/
inductive Matches : List σ → List α → Prop
  | nil : Matches [] []
  | one {s : σ} {a : α} {p : List σ} {v : List α} :
      star s = false → hit s a = true → Matches p v → Matches (s :: p) (a :: v)
  | many {s : σ} {p : List σ} {v w : List α} :
      star s = true → w <:+ v → Matches p w → Matches (s :: p) v

/-- The language where a star in front of a letter it hits stands for that letter alone. -/
inductive Eager : List σ → List α → Prop
  | nil : Eager [] []
  | one {s : σ} {a : α} {p : List σ} {v : List α} :
      hit s a = true → Eager p v → Eager (s :: p) (a :: v)
  | many {s : σ} {p : List σ} {v w : List α} :
      star s = true → (∀ a ∈ v.head?, hit s a = false) → w <:+ v → Eager p w → Eager (s :: p) v

/-- From `p` and `v` the hits lead to `q` and `w`. -/
def Leads (p : List σ) (v : List α) (q : List σ) (w : List α) : Prop :=
  ∃ front back, p = front ++ q ∧ v = back ++ w ∧ List.Forall₂ (hit · · = true) front back

variable {star hit} {s : σ} {a : α} {p q : List σ} {v w : List α}

/-! ## The two languages -/

theorem Eager.matches (h : Eager star hit p v) : Matches star hit p v := by
  induction h with
  | nil => exact Matches.nil
  | @one s a p v hhit _ ih =>
    cases hstar : star s with
    | false => exact Matches.one hstar hhit ih
    | true => exact Matches.many hstar (suffix_cons a v) ih
  | many hstar _ hsuffix _ ih => exact Matches.many hstar hsuffix ih

/-- Where no star hits a letter the two languages agree. -/
theorem Matches.eager (h : Matches star hit p v)
    (hfree : ∀ a ∈ v, ∀ s, star s = true → hit s a = false) : Eager star hit p v := by
  induction h with
  | nil => exact Eager.nil
  | one _ hhit _ ih => exact Eager.one hhit (ih fun a ha => hfree a (mem_cons_of_mem _ ha))
  | many hstar hsuffix _ ih =>
    exact Eager.many hstar (fun a ha => hfree a (mem_of_mem_head? ha) _ hstar) hsuffix
      (ih fun a ha => hfree a (hsuffix.subset ha))

/-! ## One step -/

theorem Eager.tail (h : Eager star hit (s :: p) (a :: v)) (hhit : hit s a = true) :
    Eager star hit p v := by
  cases h with
  | one _ h => exact h
  | many _ hmiss _ _ => exact absurd hhit (by rw [hmiss a rfl]; exact Bool.false_ne_true)

theorem Eager.exists_of_star (h : Eager star hit (s :: p) v) :
    ∃ w, w <:+ v ∧ Eager star hit p w := by
  cases h with
  | @one _ a _ v _ h => exact ⟨v, suffix_cons a v, h⟩
  | @many _ _ _ w _ _ hsuffix h => exact ⟨w, hsuffix, h⟩

theorem not_eager_cons (hhit : hit s a = false) (hstar : star s = false) :
    ¬ Eager star hit (s :: p) (a :: v) := by
  intro h
  cases h with
  | one h _ => exact Bool.false_ne_true (hhit.symm.trans h)
  | many h _ _ _ => exact Bool.false_ne_true (hstar.symm.trans h)

theorem not_eager_nil_cons : ¬ Eager star hit [] (a :: v) := nofun

theorem eager_nil_iff : Eager star hit p [] ↔ p.all star = true := by
  induction p with
  | nil => exact iff_of_true Eager.nil rfl
  | cons s p ih =>
    rw [all_cons, Bool.and_eq_true, ← ih]
    constructor
    · intro h
      cases h with
      | many hstar _ hsuffix h =>
        rw [suffix_nil] at hsuffix
        exact ⟨hstar, hsuffix ▸ h⟩
    · intro ⟨hstar, h⟩
      exact Eager.many hstar nofun (suffix_refl []) h

/-! ## Runs of hits -/

theorem Leads.refl (p : List σ) (v : List α) : Leads hit p v p v :=
  ⟨[], [], rfl, rfl, Forall₂.nil⟩

theorem Leads.snoc (h : Leads hit p v (s :: q) (a :: w)) (hhit : hit s a = true) :
    Leads hit p v q w := by
  obtain ⟨front, back, hp, hv, hhits⟩ := h
  refine ⟨front ++ [s], back ++ [a], ?_, ?_, ?_⟩
  · rw [hp, append_assoc, singleton_append]
  · rw [hv, append_assoc, singleton_append]
  · exact rel_append hhits (Forall₂.cons hhit Forall₂.nil)

theorem Leads.eager_iff (h : Leads hit p v q w) :
    Eager star hit p v ↔ Eager star hit q w := by
  obtain ⟨front, back, rfl, rfl, hhits⟩ := h
  induction hhits with
  | nil => exact Iff.rfl
  | cons hhit _ ih => exact ⟨fun h => ih.mp (h.tail hhit), fun h => Eager.one hhit (ih.mpr h)⟩

/-- What is read later than `v` gets no further back than `w` by the time it is at `q`. -/
theorem Leads.exists_of_suffix (h : Leads hit p v q w) {u : List α} (hu : u <:+ v)
    (heager : Eager star hit p u) : ∃ t, t <:+ w ∧ Eager star hit q t := by
  obtain ⟨front, back, rfl, rfl, hhits⟩ := h
  induction hhits generalizing u with
  | nil => exact ⟨u, hu, heager⟩
  | @cons s a front back hhit _ ih =>
    rw [cons_append, suffix_cons_iff] at hu
    cases hu with
    | inl heq =>
      subst heq
      exact ih (heager.tail hhit) (suffix_refl _)
    | inr hsuffix =>
      obtain ⟨t, ht, heager⟩ := heager.exists_of_star
      exact ih heager (ht.trans hsuffix)

end Wildcards
