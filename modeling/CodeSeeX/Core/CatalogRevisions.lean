import CodeSeeX.Core.Catalog
import Mathlib.Order.Defs.Unbundled

/-!
# The order of catalog revisions

A refreshed catalog is refused when its revision is older than the current one. Two revisions are
compared by their numbers and told apart by their spelling, so that two spellings of the same
numbers are each older than the other.
-/
namespace CodeSeeX.Catalog

/-- `revision.trim().trim_start_matches('v')` -/
def normalizedRevision (revision : Text) : Text := revision.trim.dropWhile (· = 'v')

/-- The text in front of the first mark is read as a `u64`; it holds no sign. -/
def isNumericRevision (revision : Text) : Bool :=
  (Text.parseDigits (revision.takeWhile fun c => !(c = '.' || c = '-' || c = '+'))).any (· < 2 ^ 64)

def revisionIsOlder (current candidate : Text) : Bool :=
  let normalizedCurrent := normalizedRevision current
  let normalizedCandidate := normalizedRevision candidate
  isNumericRevision normalizedCandidate && normalizedCurrent ≠ normalizedCandidate &&
    versionAtLeast normalizedCurrent normalizedCandidate

/-- `revisionIsOlder` is a strict partial order on the revisions. -/
structure OrdersRevisions (revisions : Set Text) : Prop where
  irreflexive : ∀ a ∈ revisions, revisionIsOlder a a = false
  asymmetric : ∀ a ∈ revisions, ∀ b ∈ revisions,
    revisionIsOlder a b = true → revisionIsOlder b a = false
  transitive : ∀ a ∈ revisions, ∀ b ∈ revisions, ∀ c ∈ revisions,
    revisionIsOlder a b = true → revisionIsOlder b c = true → revisionIsOlder a c = true

/-- Numeric revisions with the same numbers are spelled the same. -/
def SpelledOnce (revisions : Set Text) : Prop :=
  ∀ a ∈ revisions, ∀ b ∈ revisions, isNumericRevision (normalizedRevision a) = true →
    isNumericRevision (normalizedRevision b) = true →
    versionAtLeast (normalizedRevision a) (normalizedRevision b) = true →
    versionAtLeast (normalizedRevision b) (normalizedRevision a) = true →
    normalizedRevision a = normalizedRevision b

theorem revisionIsOlder_iff {current candidate : Text} : revisionIsOlder current candidate = true ↔
    isNumericRevision (normalizedRevision candidate) = true ∧
      normalizedRevision current ≠ normalizedRevision candidate ∧
      versionAtLeast (normalizedRevision current) (normalizedRevision candidate) = true := by
  simp only [revisionIsOlder, Bool.and_eq_true, decide_eq_true_eq, and_assoc]

/-- The first numbers decide, and equal ones leave it to the others; an absent number is zero. -/
theorem compare_step (lefts rights : List ℕ) : versionAtLeast.compare lefts rights = true ↔
    rights.headD 0 < lefts.headD 0 ∨ lefts.headD 0 = rights.headD 0 ∧
      versionAtLeast.compare lefts.tail rights.tail = true := by
  cases lefts with
  | nil =>
    cases rights with
    | nil => simp
    | cons right rights =>
      rw [versionAtLeast.compare]
      split_ifs with hne
      · simp [hne]
      · simp [not_not.mp hne]
  | cons left lefts =>
    cases rights with
    | nil =>
      rw [versionAtLeast.compare]
      split_ifs with hne
      · simp [hne]
      · simp [not_not.mp hne]
    | cons right rights =>
      rw [versionAtLeast.compare]
      split_ifs with hne
      · simp [hne]
      · simp [not_not.mp hne]

theorem compare_trans {a b c : List ℕ} (hab : versionAtLeast.compare a b = true)
    (hbc : versionAtLeast.compare b c = true) : versionAtLeast.compare a c = true := by
  have hlengths : ∀ n, ∀ a b c : List ℕ, a.length ≤ n → b.length ≤ n → c.length ≤ n →
      versionAtLeast.compare a b = true → versionAtLeast.compare b c = true →
      versionAtLeast.compare a c = true := by
    intro n
    induction n with
    | zero =>
      intro a b c ha _ hc _ _
      rw [List.eq_nil_of_length_eq_zero (by omega : a.length = 0),
        List.eq_nil_of_length_eq_zero (by omega : c.length = 0)]
      simp [versionAtLeast.compare]
    | succ n ih =>
      intro a b c ha hb hc hab hbc
      rw [compare_step] at hab hbc ⊢
      obtain hab | ⟨hfirst, hab⟩ := hab
      · left
        omega
      obtain hbc | ⟨hsecond, hbc⟩ := hbc
      · left
        omega
      · have htail : ∀ l : List ℕ, l.length ≤ n + 1 → l.tail.length ≤ n := fun l hl => by
          rw [List.length_tail]
          omega
        exact .inr ⟨hfirst.trans hsecond, ih _ _ _ (htail a ha) (htail b hb) (htail c hc) hab hbc⟩
  exact hlengths (a.length + b.length + c.length) a b c (by omega) (by omega) (by omega) hab hbc

/-- The revisions are ordered exactly when no two of them spell the same numbers differently. -/
theorem ordersRevisions_iff (revisions : Set Text) :
    OrdersRevisions revisions ↔ SpelledOnce revisions := by
  constructor
  · intro h a ha b hb hnum hnum' hge hge'
    by_contra hne
    have hforth := revisionIsOlder_iff.mpr ⟨hnum', hne, hge⟩
    have hback := revisionIsOlder_iff.mpr ⟨hnum, Ne.symm hne, hge'⟩
    rw [h.asymmetric a ha b hb hforth] at hback
    cases hback
  · intro h
    refine ⟨fun a _ => ?_, fun a ha b hb hab => ?_, fun a ha b hb c hc hab hbc => ?_⟩
    · rw [← Bool.not_eq_true, revisionIsOlder_iff]
      exact fun hold => hold.2.1 rfl
    · rw [← Bool.not_eq_true]
      intro hba
      obtain ⟨hnum, hne, hge⟩ := revisionIsOlder_iff.mp hab
      obtain ⟨hnum', -, hge'⟩ := revisionIsOlder_iff.mp hba
      exact hne (h a ha b hb hnum' hnum hge hge')
    · obtain ⟨hnum, hne, hge⟩ := revisionIsOlder_iff.mp hab
      obtain ⟨hnum', -, hge'⟩ := revisionIsOlder_iff.mp hbc
      refine revisionIsOlder_iff.mpr ⟨hnum', fun heq => ?_, compare_trans hge hge'⟩
      -- around a circle all the numbers are the same
      rw [← heq] at hnum' hge'
      exact hne (h a ha b hb hnum' hnum hge hge')

/-- A last zero makes a revision older than the one without it, and the other way around. -/
theorem older_both_ways : ¬OrdersRevisions Set.univ := by
  intro h
  have hsegments : versionSegments (normalizedRevision "1.0") = [1, 0] := by decide
  have hsegment : versionSegments (normalizedRevision "1") = [1] := by decide
  have hforth : revisionIsOlder "1.0" "1" = true := by
    refine revisionIsOlder_iff.mpr ⟨by decide, by decide, ?_⟩
    rw [versionAtLeast, hsegments, hsegment]
    simp [versionAtLeast.compare]
  have hback : revisionIsOlder "1" "1.0" = true := by
    refine revisionIsOlder_iff.mpr ⟨by decide, by decide, ?_⟩
    rw [versionAtLeast, hsegments, hsegment]
    simp [versionAtLeast.compare]
  rw [h.asymmetric "1.0" trivial "1" trivial hforth] at hback
  cases hback

end CodeSeeX.Catalog
