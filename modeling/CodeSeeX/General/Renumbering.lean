import Mathlib.Tactic

/-!
# Renumbered sequences

Items with ascending numbers go through a stage that adds items of its own. The stage
shifts a number by what it has added so far, modulo the size of a machine word, but some
items pass with the number that they came with. Whether the numbers behind the stage
still ascend is decided by these.
-/
namespace CodeSeeX.Renumbering
open Option List

inductive Step where
  /-- An item that passes. -/
  | pass (n : ℕ)
  /-- An item whose number is shifted, if it goes out at all, and the items added behind it. -/
  | shift (n : ℕ) (own : Bool) (added : ℕ)
  /-- An input was lost: nothing is known of the numbers from here on. -/
  | lost

variable {last : Option ℕ} {steps : List Step}

/-- The numbers behind the stage, `offset` items having been added before. -/
def numbers (M : ℕ) : ℕ → List Step → List ℕ
  | _, [] => []
  | offset, .pass n :: steps => n :: numbers M offset steps
  | offset, .shift n own added :: steps =>
      (range' (n + offset + if own then 0 else 1) (added + if own then 1 else 0)).map (· % M) ++
        numbers M (offset + added) steps
  | offset, .lost :: steps => numbers M offset steps

/-- The numbers in front of the stage, up to a loss. -/
def inputs : List Step → List ℕ
  | [] => []
  | .pass n :: steps => n :: inputs steps
  | .shift n _ _ :: steps => n :: inputs steps
  | .lost :: _ => []

/-- The list ascends, from a number before it if there is one. -/
def Ascends : Option ℕ → List ℕ → Prop
  | _, [] => True
  | last, n :: ns => (∀ m ∈ last, m < n) ∧ Ascends (some n) ns

/-- No shifted number wraps; the exception is the highest number of all, if it does not go out
itself and nothing has gone out before. -/
def Fits (M offset : ℕ) (last : Option ℕ) (n : ℕ) (own : Bool) (added : ℕ) : Prop :=
  n + offset + added < M ∨
    own = false ∧ offset = 0 ∧ last = none ∧ n + 1 = M ∧ added ≤ M

/-- The condition on every step: an item that passes has a number above the last one that went
out, and shifted numbers fit. Behind a loss the numbers themselves have to ascend. -/
def Spaced (M : ℕ) : ℕ → Option ℕ → List Step → Prop
  | _, _, [] => True
  | offset, last, .pass n :: steps => (∀ m ∈ last, m < n) ∧ Spaced M offset (some n) steps
  | offset, last, .shift n own added :: steps =>
      if own = false ∧ added = 0 then Spaced M offset last steps
      else Fits M offset last n own added ∧
        Spaced M (offset + added) (some ((n + offset + added) % M)) steps
  | offset, last, .lost :: steps => Ascends last (numbers M offset steps)

instance Ascends.decide : ∀ (last : Option ℕ) (ns : List ℕ), Decidable (Ascends last ns)
  | _, [] => isTrue trivial
  | _, n :: ns =>
      have := Ascends.decide (some n) ns
      inferInstanceAs (Decidable (_ ∧ _))

instance (M offset : ℕ) (last : Option ℕ) (n : ℕ) (own : Bool) (added : ℕ) :
    Decidable (Fits M offset last n own added) := inferInstanceAs (Decidable (_ ∨ _))

instance Spaced.decide (M : ℕ) : ∀ (offset : ℕ) (last : Option ℕ) (steps : List Step),
    Decidable (Spaced M offset last steps)
  | _, _, [] => isTrue trivial
  | offset, _, .pass n :: steps =>
      have := Spaced.decide M offset (some n) steps
      inferInstanceAs (Decidable (_ ∧ _))
  | offset, last, .shift n own added :: steps =>
      have := Spaced.decide M offset last steps
      have := Spaced.decide M (offset + added) (some ((n + offset + added) % M)) steps
      inferInstanceAs (Decidable (if own = false ∧ added = 0 then Spaced M offset last steps
        else Fits M offset last n own added ∧
          Spaced M (offset + added) (some ((n + offset + added) % M)) steps))
  | offset, last, .lost :: steps => Ascends.decide last (numbers M offset steps)

theorem ascends_none_iff {ns : List ℕ} : Ascends none ns ↔ ns.Pairwise (· < ·) := by
  have hsome : ∀ (ns : List ℕ) (m : ℕ), Ascends (some m) ns ↔ (m :: ns).Pairwise (· < ·) := by
    intro ns
    induction ns with
    | nil => simp [Ascends]
    | cons n ns ih =>
      intro m
      simp only [Ascends, mem_some_iff, forall_eq', ih]
      rw [pairwise_cons (a := m)]
      constructor
      · intro h
        refine ⟨fun k hk => ?_, h.2⟩
        rcases mem_cons.mp hk with rfl | hk
        · exact h.1
        · exact h.1.trans ((pairwise_cons.mp h.2).1 k hk)
      · intro h
        exact ⟨h.1 n mem_cons_self, h.2⟩
  cases ns with
  | nil => simp [Ascends]
  | cons n ns => simp [Ascends, hsome]

/-- Consecutive numbers ascend as long as they do not wrap. -/
theorem ascends_run {M : ℕ} (hM : 0 < M) (a count : ℕ) (last : Option ℕ) (ns : List ℕ) :
    Ascends last ((range' a (count + 1)).map (· % M) ++ ns) ↔
      a % M + count < M ∧ (∀ m ∈ last, m < a % M) ∧ Ascends (some ((a + count) % M)) ns := by
  induction count generalizing a last with
  | zero =>
    have hlt := Nat.mod_lt a hM
    simp [range', Ascends, hlt]
  | succ count ih =>
    rw [range'_succ, map_cons, cons_append, Ascends, ih]
    have hsum : a + 1 + count = a + (count + 1) := by omega
    rw [hsum]
    have hstep : (∀ m ∈ some (a % M), m < (a + 1) % M) ∧ (a + 1) % M + count < M ↔
        a % M + (count + 1) < M := by
      have hlt := Nat.mod_lt a hM
      simp only [mem_some_iff, forall_eq']
      rw [Nat.add_mod]
      by_cases hwrap : a % M + 1 < M
      · have hone : 1 % M = 1 := Nat.mod_eq_of_lt (by omega)
        rw [hone, Nat.mod_eq_of_lt hwrap]
        omega
      · have hfull : (a % M + 1 % M) % M = 0 := by
          rw [← Nat.add_mod]
          have hmod : (a + 1) % M = (a % M + 1) % M := by rw [Nat.mod_add_mod]
          rw [hmod, show a % M + 1 = M by omega, Nat.mod_self]
        rw [hfull]
        omega
    constructor
    · intro h
      exact ⟨hstep.mp ⟨h.2.2.1, h.2.1⟩, h.1, h.2.2.2⟩
    · intro h
      obtain ⟨hnext, hrun⟩ := hstep.mpr h.1
      exact ⟨h.2.1, hrun, hnext, h.2.2⟩

/-- What goes out for a shifted item ascends exactly if it fits. -/
theorem ascends_shift {M offset n added : ℕ} {own : Bool} (ns : List ℕ) (hn : n < M)
    (hlast : ∀ m ∈ last, m < n + offset) (hoffset : 0 < offset → ∃ m ∈ last, offset ≤ m)
    (hout : ¬ (own = false ∧ added = 0)) :
    Ascends last ((range' (n + offset + if own then 0 else 1)
        (added + if own then 1 else 0)).map (· % M) ++ ns) ↔
      Fits M offset last n own added ∧ Ascends (some ((n + offset + added) % M)) ns := by
  have hM : 0 < M := by omega
  obtain ⟨e, a, count, ha, hcount, hb, he, hown⟩ : ∃ e a count,
      a = n + offset + (if own then 0 else 1) ∧ (added + if own then 1 else 0) = count + 1 ∧
        a + count = n + offset + added ∧ a = n + offset + e ∧ (own = true ∧ e = 0 ∨
          own = false ∧ e = 1) := by
    cases own with
    | true => exact ⟨0, n + offset, added, by simp, by simp, rfl, rfl, by simp⟩
    | false =>
      have hadded : added ≠ 0 := fun h => hout ⟨rfl, h⟩
      exact ⟨1, n + offset + 1, added - 1, by simp, by simp; omega, by omega, rfl, by simp⟩
  rw [← ha, hcount, ascends_run hM, hb, ← and_assoc]
  refine and_congr_left fun _ => ?_
  constructor
  · intro h
    obtain ⟨hrun, hnext⟩ := h
    by_cases hfits : n + offset + added < M
    · exact Or.inl hfits
    have hwrapped : M ≤ a := by
      by_contra hlt
      rw [Nat.mod_eq_of_lt (not_le.mp hlt)] at hrun
      omega
    have hmod : a % M ≤ a - M := by
      rw [Nat.mod_eq_sub_mod hwrapped]
      exact Nat.mod_le _ _
    -- with items added before, the last number is not below their count
    have hzero : offset = 0 := by
      by_contra hpos
      obtain ⟨m, hm, hle⟩ := hoffset (Nat.pos_of_ne_zero hpos)
      have hlt := hnext m hm
      omega
    have hM' : a = M := by omega
    rw [hM', Nat.mod_self] at hrun hnext
    refine Or.inr ⟨?_, hzero, ?_, by omega, by omega⟩
    · rcases hown with ⟨_, he0⟩ | ⟨hfalse, _⟩
      · omega
      · exact hfalse
    · cases last with
      | none => rfl
      | some m => exact absurd (hnext m rfl) (Nat.not_lt_zero m)
  · intro h
    rcases h with hfits | ⟨hfalse, hzero, hnone, hmax, hle⟩
    · have hsmall : a % M = a := Nat.mod_eq_of_lt (by omega)
      rw [hsmall]
      refine ⟨by omega, fun m hm => ?_⟩
      have hlt := hlast m hm
      omega
    · have hM' : a = M := by
        rcases hown with ⟨htrue, _⟩ | ⟨_, he1⟩
        · rw [hfalse] at htrue
          simp at htrue
        · omega
      rw [hM', Nat.mod_self, hnone]
      exact ⟨by omega, by simp⟩

/-- With ascending numbers in front of the stage, the numbers behind it ascend exactly if every
step is spaced. -/
theorem ascends_iff {M : ℕ} {offset : ℕ} (hlt : ∀ n ∈ inputs steps, n < M)
    (hinc : (inputs steps).Pairwise (· < ·))
    (hlast : ∀ m ∈ last, ∀ n ∈ inputs steps, m < n + offset)
    (hoffset : inputs steps ≠ [] → 0 < offset → ∃ m ∈ last, offset ≤ m) :
    Ascends last (numbers M offset steps) ↔ Spaced M offset last steps := by
  induction steps generalizing offset last with
  | nil => exact Iff.rfl
  | cons step steps ih =>
    cases step with
    | lost => exact Iff.rfl
    | pass n =>
      simp only [inputs, forall_mem_cons, pairwise_cons] at hlt hinc hlast
      refine and_congr_right fun hn => ih hlt.2 hinc.2 ?_ ?_
      · intro m hm k hk
        have hk' := hinc.1 k hk
        rw [mem_some_iff.mp hm] at hk'
        omega
      · intro _ hpos
        obtain ⟨m, hm, hle⟩ := hoffset (by simp [inputs]) hpos
        exact ⟨n, rfl, hle.trans (hn m hm).le⟩
    | shift n own added =>
      simp only [inputs, forall_mem_cons, pairwise_cons] at hlt hinc hlast
      rw [numbers, Spaced]
      by_cases hquiet : own = false ∧ added = 0
      · rw [if_pos hquiet]
        obtain ⟨rfl, rfl⟩ := hquiet
        exact ih hlt.2 hinc.2 (fun m hm => (hlast m hm).2)
          (fun _ => hoffset (by simp [inputs]))
      · rw [if_neg hquiet, ascends_shift _ hlt.1 (fun m hm => (hlast m hm).1)
          (hoffset (by simp [inputs])) hquiet]
        refine and_congr_right fun hfits => ih hlt.2 hinc.2 ?_ ?_
        · intro m hm k hk
          rw [← mem_some_iff.mp hm]
          have hmod := Nat.mod_le (n + offset + added) M
          have hnk := hinc.1 k hk
          omega
        · intro hmore _
          refine ⟨_, rfl, ?_⟩
          rcases hfits with hfits | ⟨_, _, _, hmax, _⟩
          · rw [Nat.mod_eq_of_lt hfits]
            omega
          · -- nothing is above the highest number
            obtain ⟨k, hk⟩ := exists_mem_of_ne_nil _ hmore
            have hnk := hinc.1 k hk
            have hkM := hlt.2 k hk
            omega

/-! ## Composition -/

/-- How many items steps add. -/
def addedBy : List Step → ℕ
  | [] => 0
  | .shift _ _ added :: steps => added + addedBy steps
  | _ :: steps => addedBy steps

theorem numbers_append (M offset : ℕ) (steps more : List Step) :
    numbers M offset (steps ++ more) =
      numbers M offset steps ++ numbers M (offset + addedBy steps) more := by
  induction steps generalizing offset with
  | nil => rfl
  | cons step steps ih =>
    cases step with
    | pass n => simp [numbers, addedBy, ih]
    | shift n own added => simp [numbers, addedBy, ih, Nat.add_assoc]
    | lost => simp [numbers, addedBy, ih]

theorem addedBy_append (steps more : List Step) :
    addedBy (steps ++ more) = addedBy steps + addedBy more := by
  induction steps with
  | nil => simp [addedBy]
  | cons step steps ih =>
    cases step <;> simp [addedBy, ih, Nat.add_assoc]

theorem inputs_append_of_kept (h : .lost ∉ steps) (more : List Step) :
    inputs (steps ++ more) = inputs steps ++ inputs more := by
  induction steps with
  | nil => rfl
  | cons step steps ih =>
    have hrest := ih fun hmem => h (mem_cons_of_mem _ hmem)
    cases step with
    | pass n => simp [inputs, hrest]
    | shift n own added => simp [inputs, hrest]
    | lost => exact absurd mem_cons_self h

end CodeSeeX.Renumbering
