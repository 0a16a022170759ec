import Mathlib.Tactic

/-!
# First occurrences of a pattern

`splitFirst` cuts a list in front of the first occurrence of a pattern, in one
left-to-right scan. An element that the pattern does not contain separates its
occurrences: none straddles it. Everything here holds for lists over any type.
-/
namespace CodeSeeX.Infix
open List Option

variable {α : Type*}

/-- No occurrence of a pattern straddles an element foreign to it. -/
theorem infix_append_cons_iff {pat xs ys : List α} {c : α} (hc : c ∉ pat) :
    pat <:+: xs ++ c :: ys ↔ pat <:+: xs ∨ pat <:+: ys := by
  constructor
  · intro h
    rcases infix_append_iff.mp h with h | h | ⟨a, b, rfl, ha, hb⟩
    · exact .inl h
    · rcases infix_cons_iff.mp h with h | h
      · cases pat with
        | nil => exact .inl nil_infix
        | cons d pat =>
          have hd : d = c := (cons_prefix_cons.mp h).1
          simp [hd] at hc
      · exact .inr h
    · cases b with
      | nil => simpa using .inl ha.isInfix
      | cons d b =>
        have hd : d = c := (cons_prefix_cons.mp hb).1
        simp [hd] at hc
  · rintro (h | h)
    · exact h.trans (infix_append' [] xs (c :: ys))
    · exact h.trans (infix_append' (xs ++ [c]) ys [] |>.trans (by simp))

/-- A pattern occurs in a list that avoids one of its elements only if it is not there. -/
theorem not_infix_of_notMem {pat xs : List α} {c : α} (hc : c ∈ pat) (hxs : c ∉ xs) :
    ¬ pat <:+: xs :=
  fun h => hxs (h.subset hc)

/-- A pattern occurs in a joined list exactly if it occurs in one of its parts. -/
theorem infix_intercalate_iff {pat : List α} {c : α} {parts : List (List α)} (hpat : pat ≠ [])
    (hc : c ∉ pat) : pat <:+: intercalate [c] parts ↔ ∃ part ∈ parts, pat <:+: part := by
  induction parts with
  | nil => simpa [intercalate] using hpat
  | cons part parts ih =>
    cases parts with
    | nil => simp [intercalate]
    | cons next parts =>
      have hshape : intercalate [c] (part :: next :: parts) =
          part ++ c :: intercalate [c] (next :: parts) := by simp [intercalate]
      rw [hshape, infix_append_cons_iff hc, ih]
      simp

variable [DecidableEq α]

/-- The list before the first occurrence of `pat`, and the list from it on. -/
def splitFirst (pat : List α) : List α → Option (List α × List α)
  | [] => if pat = [] then some ([], []) else none
  | a :: xs =>
      if pat <+: a :: xs then some ([], a :: xs)
      else (splitFirst pat xs).map fun p => (a :: p.1, p.2)

theorem splitFirst_of_starts {pat xs : List α} (h : pat <+: xs) :
    splitFirst pat xs = some ([], xs) := by
  cases xs with
  | nil => simp [splitFirst, prefix_nil.mp h]
  | cons a xs => simp [splitFirst, h]

theorem splitFirst_eq_none {pat xs : List α} :
    splitFirst pat xs = none ↔ ¬ pat <:+: xs := by
  induction xs with
  | nil => by_cases h : pat = [] <;> simp [splitFirst, h]
  | cons a xs ih =>
    by_cases h : pat <+: a :: xs
    · simp [splitFirst, h, h.isInfix]
    · simp [splitFirst, h, ih, infix_cons_iff]

section
variable {pat xs before rest : List α}

/-- Either the pattern starts here, or the first entry goes in front. -/
@[elab_as_elim]
theorem splitFirst_induct {motive : List α → List α → List α → Prop}
    (starts : ∀ xs, pat <+: xs → motive xs [] xs)
    (next : ∀ a xs before rest, ¬ pat <+: a :: xs → splitFirst pat xs = some (before, rest) →
      motive xs before rest → motive (a :: xs) (a :: before) rest)
    (h : splitFirst pat xs = some (before, rest)) : motive xs before rest := by
  induction xs generalizing before rest with
  | nil =>
    by_cases hp : pat = [] <;> simp [splitFirst, hp] at h
    obtain ⟨rfl, rfl⟩ := h
    exact starts [] (hp ▸ nil_prefix)
  | cons a xs ih =>
    by_cases hp : pat <+: a :: xs
    · simp only [splitFirst, hp, if_true, some.injEq, Prod.mk.injEq] at h
      obtain ⟨rfl, rfl⟩ := h
      exact starts _ hp
    · simp only [splitFirst, hp, if_false, map_eq_some_iff, Prod.mk.injEq] at h
      obtain ⟨p, hs, rfl, rfl⟩ := h
      exact next a xs _ _ hp hs (ih hs)

theorem splitFirst_append (h : splitFirst pat xs = some (before, rest)) : xs = before ++ rest := by
  refine splitFirst_induct (fun xs _ => rfl) (fun a xs before rest _ _ ih => ?_) h
  rw [ih, cons_append]

theorem splitFirst_starts (h : splitFirst pat xs = some (before, rest)) : pat <+: rest :=
  splitFirst_induct (fun _ hp => hp) (fun _ _ _ _ _ _ ih => ih) h

/-- The text before the first occurrence holds none. -/
theorem splitFirst_not_infix (hpat : pat ≠ [])
    (h : splitFirst pat xs = some (before, rest)) : ¬ pat <:+: before := by
  refine splitFirst_induct (fun _ _ => ?_) (fun a xs before rest hp hs ih => ?_) h
  · simpa using hpat
  · rw [infix_cons_iff]
    rintro (hpre | hin)
    · apply hp
      rw [splitFirst_append hs, ← cons_append]
      exact hpre.trans (prefix_append _ _)
    · exact ih hin

/-- More text behind a list with an occurrence does not move the first one. -/
theorem splitFirst_append_right (ys : List α)
    (h : splitFirst pat xs = some (before, rest)) :
    splitFirst pat (xs ++ ys) = some (before, rest ++ ys) := by
  refine splitFirst_induct (fun xs hp => ?_) (fun a xs before rest hp hs ih => ?_) h
  · exact splitFirst_of_starts (hp.trans (prefix_append _ _))
  · have hlen : pat.length ≤ xs.length := by
      rw [splitFirst_append hs]
      exact (splitFirst_starts hs).length_le.trans (by simp)
    have hp' : ¬ pat <+: a :: (xs ++ ys) := by
      intro hpre
      apply hp
      refine prefix_of_prefix_length_le hpre ?_ (by simp; omega)
      exact prefix_append _ _
    simp [splitFirst, hp', ih]

end

/-- The index of the first window that equals `pat`. -/
def firstIndex (pat xs : List α) : Option ℕ := (splitFirst pat xs).map fun p => p.1.length

section Images

variable {β : Type*} [DecidableEq β]

omit [DecidableEq α] [DecidableEq β] in
/-- A pattern is found in an image if nothing else has the image of one of its elements. -/
theorem map_prefix_iff {f : α → β} {pat : List α} (hf : ∀ c ∈ pat, ∀ d, f d = f c → d = c)
    (xs : List α) : pat.map f <+: xs.map f ↔ pat <+: xs := by
  induction pat generalizing xs with
  | nil => simp
  | cons c pat ih =>
    obtain ⟨hc, hpat⟩ := forall_mem_cons.mp hf
    cases xs with
    | nil => simp
    | cons x xs =>
      have hsame : f c = f x ↔ c = x := by
        constructor
        · intro heq
          exact (hc x heq.symm).symm
        · intro heq
          rw [heq]
      rw [map_cons, map_cons, cons_prefix_cons, cons_prefix_cons, ih hpat, hsame]

theorem firstIndex_map {f : α → β} {pat : List α} (hf : ∀ c ∈ pat, ∀ d, f d = f c → d = c)
    (xs : List α) : firstIndex (pat.map f) (xs.map f) = firstIndex pat xs := by
  induction xs with
  | nil => cases pat <;> simp [firstIndex, splitFirst]
  | cons x xs ih =>
    have hstarts := map_prefix_iff hf (x :: xs)
    rw [map_cons] at hstarts ⊢
    by_cases hp : pat <+: x :: xs
    · rw [firstIndex, splitFirst_of_starts (hstarts.mpr hp), firstIndex, splitFirst_of_starts hp]
      rfl
    · have hlater := congrArg (Option.map (· + 1)) ih
      simp only [firstIndex, Option.map_map] at hlater
      simp only [firstIndex, splitFirst, hp, hstarts, if_false, Option.map_map]
      exact hlater

end Images

theorem firstIndex_eq_none {pat xs : List α} :
    firstIndex pat xs = none ↔ ¬ pat <:+: xs := by
  simp [firstIndex, splitFirst_eq_none]

theorem firstIndex_eq_some {pat xs : List α} (hpat : pat ≠ []) {i : ℕ} :
    firstIndex pat xs = some i ↔ pat <+: xs.drop i ∧ ∀ j < i, ¬ pat <+: xs.drop j := by
  induction xs generalizing i with
  | nil => simp [firstIndex, splitFirst, hpat]
  | cons a xs ih =>
    by_cases hp : pat <+: a :: xs
    · have hfirst : firstIndex pat (a :: xs) = some 0 := by
        simp [firstIndex, splitFirst_of_starts hp]
      rw [hfirst]
      constructor
      · intro h
        cases h
        simpa using hp
      · intro h
        cases i with
        | zero => rfl
        | succ i => exact absurd hp (by simpa using h.2 0 (by omega))
    · have hstep : firstIndex pat (a :: xs) = (firstIndex pat xs).map (· + 1) := by
        simp [firstIndex, splitFirst, hp, Function.comp_def]
      rw [hstep]
      cases i with
      | zero => simpa using fun h => absurd h hp
      | succ i =>
        simp only [map_eq_some_iff, Nat.add_right_cancel_iff, exists_eq_right, ih,
          drop_succ_cons]
        constructor
        · intro h
          refine ⟨h.1, fun j hj => ?_⟩
          cases j with
          | zero => simpa using hp
          | succ j => simpa using h.2 j (by omega)
        · intro h
          exact ⟨h.1, fun j hj => by simpa using h.2 (j + 1) (by omega)⟩

end CodeSeeX.Infix
