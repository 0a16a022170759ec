import Mathlib.Tactic

/-!
# The first one wins

A list with keys is thinned out: of the elements with one key the first is kept. Elements
without a key all stay.
-/
namespace CodeSeeX.FirstWins
open List

variable {α β κ : Type*} [DecidableEq κ]

/-- What is kept behind elements with the keys `seen`. -/
def keep (key : α → Option κ) : List κ → List α → List α
  | _, [] => []
  | seen, a :: as =>
      match key a with
      | none => a :: keep key seen as
      | some k => if k ∈ seen then keep key seen as else a :: keep key (k :: seen) as

def firstBy (key : α → Option κ) (as : List α) : List α := keep key [] as

variable {key : α → Option κ}

theorem keep_map (key : β → Option κ) (f : α → β) (seen : List κ) (as : List α) :
    keep key seen (as.map f) = (keep (key ∘ f) seen as).map f := by
  induction as generalizing seen with
  | nil => rfl
  | cons a as ih =>
    simp only [map_cons, keep, Function.comp_apply, ih]
    cases key (f a) with
    | none => rfl
    | some k =>
      dsimp only
      split_ifs <;> rfl

theorem firstBy_map (key : β → Option κ) (f : α → β) (as : List α) :
    firstBy key (as.map f) = (firstBy (key ∘ f) as).map f := keep_map key f [] as

variable {as : List α}

theorem mem_keep_iff {seen : List κ} {a : α} {k : κ} (hk : key a = some k) :
    a ∈ keep key seen as ↔ k ∉ seen ∧ as.find? (fun b => key b = some k) = some a := by
  induction as generalizing seen with
  | nil => simp [keep]
  | cons b as ih =>
    have hother : key b ≠ some k → (a ∈ b :: keep key seen as ↔ a ∈ keep key seen as) := by
      intro hne
      have hab : a ≠ b := by
        intro heq
        exact hne (heq ▸ hk)
      simp [hab]
    rw [keep, find?_cons]
    cases hb : key b with
    | none => simp [hother (by simp [hb]), ih]
    | some j =>
      by_cases hjk : j = k
      · subst hjk
        by_cases hseen : j ∈ seen
        · simp [hseen, ih]
        · simp only [if_neg hseen, mem_cons, ih]
          simp [hseen, eq_comm]
      · have hab : a ≠ b := by
          intro heq
          rw [heq, hb, Option.some_inj] at hk
          exact hjk hk
        have hkj : k ≠ j := Ne.symm hjk
        by_cases hseen : j ∈ seen
        · simp [hseen, hjk, ih]
        · simp [hseen, hjk, hkj, hab, ih]

/-- The element that is kept for a key is the first one that has it. -/
theorem mem_firstBy_iff {a : α} {k : κ} (hk : key a = some k) :
    a ∈ firstBy key as ↔ as.find? (fun b => key b = some k) = some a := by
  rw [firstBy, mem_keep_iff hk]
  simp

/-- What holds of everything that is kept holds of the first element of each key. -/
theorem forall_firstBy_iff {P : κ → α → Prop} :
    (∀ a ∈ firstBy key as, ∀ k, key a = some k → P k a) ↔
      ∀ k a, as.find? (fun b => key b = some k) = some a → P k a := by
  constructor
  · intro h k a hfind
    have hk : key a = some k := by simpa using find?_some hfind
    exact h a ((mem_firstBy_iff hk).mpr hfind) k hk
  · intro h a ha k hk
    exact h k a ((mem_firstBy_iff hk).mp ha)

/-! ## What is thinned out -/

/-- What is left out behind elements with the keys `seen`. -/
def leftOut (key : α → Option κ) : List κ → List α → List α
  | _, [] => []
  | seen, a :: as =>
      match key a with
      | none => leftOut key seen as
      | some k => if k ∈ seen then a :: leftOut key seen as else leftOut key (k :: seen) as

/-- The elements whose keys stand further in front. -/
def repeatsBy (key : α → Option κ) (as : List α) : List α := leftOut key [] as

/-- Only membership in `seen` matters. -/
theorem keep_leftOut_congr {seen seen' : List κ} (h : ∀ k, k ∈ seen ↔ k ∈ seen') (as : List α) :
    keep key seen as = keep key seen' as ∧ leftOut key seen as = leftOut key seen' as := by
  induction as generalizing seen seen' with
  | nil => exact ⟨rfl, rfl⟩
  | cons a as ih =>
    simp only [keep, leftOut]
    cases key a with
    | none =>
      obtain ⟨hkeep, hleft⟩ := ih h
      exact ⟨congrArg (a :: ·) hkeep, hleft⟩
    | some k =>
      by_cases hk : k ∈ seen
      · obtain ⟨hkeep, hleft⟩ := ih h
        simp [hk, (h k).mp hk, hkeep, hleft]
      · have hk' : k ∉ seen' := fun hmem => hk ((h k).mpr hmem)
        obtain ⟨hkeep, hleft⟩ := @ih (k :: seen) (k :: seen') (by simp [h])
        simp [hk, hk', hkeep, hleft]

theorem keep_leftOut_append (seen : List κ) (as bs : List α) :
    keep key seen (as ++ bs) = keep key seen as ++ keep key (as.filterMap key ++ seen) bs ∧
      leftOut key seen (as ++ bs) =
        leftOut key seen as ++ leftOut key (as.filterMap key ++ seen) bs := by
  induction as generalizing seen with
  | nil => exact ⟨rfl, rfl⟩
  | cons a as ih =>
    cases ha : key a with
    | none =>
      rw [filterMap_cons_none ha]
      simp only [cons_append, keep, leftOut, ha, (ih seen).1, (ih seen).2]
      exact ⟨trivial, trivial⟩
    | some k =>
      rw [filterMap_cons_some ha]
      by_cases hk : k ∈ seen
      · have hsame := @keep_leftOut_congr _ _ _ key (as.filterMap key ++ seen)
          (k :: as.filterMap key ++ seen) (by
            intro j
            simp only [cons_append, mem_cons, mem_append]
            constructor
            · exact .inr
            · rintro (rfl | hj)
              · exact .inr hk
              · exact hj) bs
        simp only [cons_append, keep, leftOut, ha, if_pos hk, (ih seen).1, (ih seen).2]
        rw [cons_append] at hsame
        exact ⟨by rw [hsame.1], by rw [hsame.2]⟩
      · have hsame := @keep_leftOut_congr _ _ _ key (as.filterMap key ++ k :: seen)
          (k :: as.filterMap key ++ seen) (by
            intro j
            simp only [cons_append, mem_cons, mem_append]
            tauto) bs
        simp only [cons_append, keep, leftOut, ha, if_neg hk, (ih (k :: seen)).1,
          (ih (k :: seen)).2]
        rw [cons_append] at hsame
        exact ⟨by rw [hsame.1], by rw [hsame.2]⟩

/-- One more element is kept if its key is new. -/
theorem firstBy_repeatsBy_concat {a : α} {k : κ} (ha : key a = some k) : firstBy key (as ++ [a]) =
        (if k ∈ as.filterMap key then firstBy key as else firstBy key as ++ [a]) ∧
      repeatsBy key (as ++ [a]) =
        (if k ∈ as.filterMap key then repeatsBy key as ++ [a] else repeatsBy key as) := by
  have happend := @keep_leftOut_append _ _ _ key [] as [a]
  rw [append_nil] at happend
  rw [firstBy, firstBy, repeatsBy, repeatsBy, happend.1, happend.2]
  simp only [keep, leftOut, ha]
  split_ifs <;> simp

theorem firstBy_concat_unkeyed {a : α} (ha : key a = none) :
    firstBy key (as ++ [a]) = firstBy key as ++ [a] := by
  have happend := @keep_leftOut_append _ _ _ key [] as [a]
  rw [firstBy, firstBy, happend.1]
  simp [keep, ha]

/-- Elements without a key all stay. -/
theorem keep_unkeyed (seen : List κ) (as : List α) :
    (keep key seen as).filter (fun a => key a = none) = as.filter fun a => key a = none := by
  induction as generalizing seen with
  | nil => rfl
  | cons a as ih =>
    cases ha : key a with
    | none => simp [keep, ha, ih]
    | some k =>
      simp only [keep, ha]
      split_ifs <;> simp [ha, ih]

/-- Every key is kept once. -/
theorem mem_keys_keep {seen : List κ} {k : κ} :
    k ∈ (keep key seen as).filterMap key ↔ k ∈ as.filterMap key ∧ k ∉ seen := by
  induction as generalizing seen with
  | nil => simp [keep]
  | cons a as ih =>
    cases ha : key a with
    | none => simp only [keep, ha, filterMap_cons_none ha, ih]
    | some j =>
      simp only [keep, ha, filterMap_cons_some ha, mem_cons]
      split_ifs with hj
      · rw [ih]
        constructor
        · exact fun h => ⟨.inr h.1, h.2⟩
        · rintro ⟨rfl | hk, hout⟩
          · exact absurd hj hout
          · exact ⟨hk, hout⟩
      · rw [filterMap_cons_some ha, mem_cons, ih, mem_cons, not_or]
        constructor
        · rintro (rfl | ⟨hk, _, hout⟩)
          · exact ⟨.inl rfl, hj⟩
          · exact ⟨.inr hk, hout⟩
        · rintro ⟨rfl | hk, hout⟩
          · exact .inl rfl
          · by_cases hkj : k = j
            · exact .inl hkj
            · exact .inr ⟨hk, hkj, hout⟩

theorem mem_keys_firstBy {k : κ} : k ∈ (firstBy key as).filterMap key ↔ k ∈ as.filterMap key := by
  rw [firstBy, mem_keys_keep]
  simp

theorem nodup_keys_keep (seen : List κ) (as : List α) :
    ((keep key seen as).filterMap key).Nodup := by
  induction as generalizing seen with
  | nil => exact nodup_nil
  | cons a as ih =>
    cases ha : key a with
    | none =>
      simp only [keep, ha, filterMap_cons_none ha]
      exact ih seen
    | some k =>
      simp only [keep, ha]
      split_ifs
      · exact ih seen
      · rw [filterMap_cons_some ha, nodup_cons]
        refine ⟨fun hmem => ?_, ih (k :: seen)⟩
        exact (mem_keys_keep.mp hmem).2 mem_cons_self

theorem nodup_keys_firstBy (as : List α) : ((firstBy key as).filterMap key).Nodup :=
  nodup_keys_keep [] as

theorem leftOut_sublist (seen : List κ) (as : List α) : (leftOut key seen as).Sublist as := by
  induction as generalizing seen with
  | nil => exact Sublist.slnil
  | cons a as ih =>
    cases ha : key a with
    | none =>
      simp only [leftOut, ha]
      exact (ih seen).cons a
    | some k =>
      simp only [leftOut, ha]
      split_ifs
      · exact (ih seen).cons_cons a
      · exact (ih (k :: seen)).cons a

/-- Where the elements are told apart by their places, what is kept is what is not left out. -/
theorem keep_eq_filter {ρ : Type*} [DecidableEq ρ] {place : α → ρ} {seen : List κ}
    (hnodup : (as.map place).Nodup) :
    keep key seen as = as.filter fun a => place a ∉ (leftOut key seen as).map place := by
  induction as generalizing seen with
  | nil => rfl
  | cons a as ih =>
    rw [map_cons, nodup_cons] at hnodup
    have hfresh : ∀ seen, place a ∉ (leftOut key seen as).map place := fun seen hmem =>
      hnodup.1 ((leftOut_sublist seen as).map place |>.subset hmem)
    cases ha : key a with
    | none =>
      simp only [keep, leftOut, ha]
      rw [filter_cons_of_pos (by simpa using hfresh seen), ih hnodup.2]
    | some k =>
      simp only [keep, leftOut, ha]
      split_ifs
      · rw [filter_cons_of_neg (by simp), ih hnodup.2]
        refine filter_congr fun b hb => ?_
        have hne : place b ≠ place a := fun heq => hnodup.1 (heq ▸ mem_map_of_mem hb)
        simp [hne]
      · rw [filter_cons_of_pos (by simpa using hfresh (k :: seen)), ih hnodup.2]

/-- The left out elements of the keyed parts of a list. -/
theorem leftOut_filterMap {ρ : Type*} (place : α → ρ) (seen : List κ) (as : List α) :
    (leftOut (fun p : κ × ρ => some p.1) seen
      (as.filterMap fun a => (key a).map fun k => (k, place a))).map Prod.snd =
        (leftOut key seen as).map place := by
  induction as generalizing seen with
  | nil => rfl
  | cons a as ih =>
    cases ha : key a with
    | none =>
      rw [filterMap_cons_none (by rw [ha]; rfl)]
      simp only [leftOut, ha]
      exact ih seen
    | some k =>
      rw [filterMap_cons_some (b := (k, place a)) (by rw [ha]; rfl)]
      simp only [leftOut, ha]
      split_ifs
      · rw [map_cons, map_cons, ih]
      · exact ih (k :: seen)

/-- The kept elements of the keyed parts of a list. -/
theorem keep_filterMap {ρ : Type*} (place : α → ρ) (seen : List κ) (as : List α) :
    keep (fun p : κ × ρ => some p.1) seen
      (as.filterMap fun a => (key a).map fun k => (k, place a)) =
        (keep key seen as).filterMap fun a => (key a).map fun k => (k, place a) := by
  induction as generalizing seen with
  | nil => rfl
  | cons a as ih =>
    cases ha : key a with
    | none =>
      rw [filterMap_cons_none (by rw [ha]; rfl)]
      simp only [keep, ha]
      rw [filterMap_cons_none (by rw [ha]; rfl)]
      exact ih seen
    | some k =>
      rw [filterMap_cons_some (b := (k, place a)) (by rw [ha]; rfl)]
      simp only [keep, ha]
      split_ifs
      · exact ih seen
      · rw [filterMap_cons_some (b := (k, place a)) (by rw [ha]; rfl), ih]

theorem keep_sublist (seen : List κ) (as : List α) : (keep key seen as).Sublist as := by
  induction as generalizing seen with
  | nil => exact Sublist.slnil
  | cons a as ih =>
    cases ha : key a with
    | none =>
      simp only [keep, ha]
      exact (ih seen).cons_cons a
    | some k =>
      simp only [keep, ha]
      split_ifs
      · exact (ih seen).cons a
      · exact (ih (k :: seen)).cons_cons a

/-- The keys of the elements that are left out are the repeated ones. -/
theorem mem_keys_leftOut {seen : List κ} {k : κ} : k ∈ (leftOut key seen as).filterMap key ↔
      (k ∈ seen ∧ k ∈ as.filterMap key) ∨ 2 ≤ (as.filterMap key).count k := by
  induction as generalizing seen with
  | nil => simp [leftOut]
  | cons a as ih =>
    cases ha : key a with
    | none => simp only [leftOut, ha, filterMap_cons_none ha, ih]
    | some j =>
      simp only [leftOut, ha, filterMap_cons_some ha]
      have hmem : 1 ≤ (as.filterMap key).count k ↔ k ∈ as.filterMap key := one_le_count_iff
      by_cases hkj : j = k
      · subst hkj
        rw [count_cons_self]
        split_ifs with hj
        · rw [filterMap_cons_some ha]
          simp [hj]
        · rw [ih]
          simp only [mem_cons, true_or, true_and, hj, false_and, false_or]
          rw [← hmem]
          omega
      · rw [count_cons_of_ne hkj]
        have hne : k ≠ j := Ne.symm hkj
        split_ifs
        · rw [filterMap_cons_some ha, mem_cons, ih]
          simp [hne]
        · rw [ih]
          simp [hne]

theorem count_keys (as : List α) (k : κ) :
    (as.filterMap key).count k = (as.filter fun a => key a = some k).length := by
  induction as with
  | nil => rfl
  | cons a as ih =>
    cases ha : key a with
    | none => simp [ha, ih]
    | some j =>
      rw [filterMap_cons_some ha, count_cons, ih]
      by_cases hj : j = k <;> simp [ha, hj]

/-- Keys are distinct exactly if nothing is left out. -/
theorem nodup_keys_iff : (as.filterMap key).Nodup ↔ ∀ k, k ∉ (repeatsBy key as).filterMap key := by
  rw [nodup_iff_count_le_one]
  refine forall_congr' fun k => ?_
  rw [repeatsBy, mem_keys_leftOut]
  simp only [not_mem_nil, false_and, false_or]
  omega

end CodeSeeX.FirstWins
