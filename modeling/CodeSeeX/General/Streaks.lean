import Mathlib.Tactic

/-!
# Streaks of failures

A counter for each key goes up with a failure and back to zero with a success; at its
limit the key asks for a stop. Outcomes arrive in batches. A batch can be counted
outcome by outcome, or once for each key: a key fails in it if all its outcomes do.
-/
namespace CodeSeeX.Streaks
open List Prod

variable {κ : Type*} [DecidableEq κ]

/-- A key, and whether it failed. -/
abbrev Outcome (κ : Type*) := κ × Bool

/-- Counters are bounded. -/
def bump (cap c : ℕ) : ℕ := min (c + 1) cap

/-- A counter after outcomes of its key. -/
def streak (cap : ℕ) : ℕ → List Bool → ℕ
  | c, [] => c
  | c, failed :: outs => streak cap (if failed then bump cap c else 0) outs

variable (cap : ℕ) (limit : κ → ℕ)

/-- Counted one by one: the keys that ask for a stop, in order. -/
def stops : (κ → ℕ) → List (Outcome κ) → List κ
  | _, [] => []
  | c, (k, failed) :: outs =>
      (if failed ∧ limit k ≤ bump cap (c k) then [k] else []) ++
        stops (Function.update c k (if failed then bump cap (c k) else 0)) outs

/-- The counters after outcomes counted one by one. -/
def after : (κ → ℕ) → List (Outcome κ) → κ → ℕ
  | c, [] => c
  | c, (k, failed) :: outs =>
      after (Function.update c k (if failed then bump cap (c k) else 0)) outs

/-- Counted by key: the first key that asks for a stop, and the counters afterwards. -/
def sweep : (κ → ℕ) → List (Outcome κ) → Option κ × (κ → ℕ)
  | c, [] => (none, c)
  | c, (k, failed) :: entries =>
      let rest := sweep (Function.update c k (if failed then bump cap (c k) else 0)) entries
      (if failed ∧ limit k ≤ bump cap (c k) then some k else rest.1, rest.2)

/-- The outcomes of a key. -/
def outcomesOf (k : κ) (outs : List (Outcome κ)) : List Bool :=
  (outs.filter (·.1 = k)).map Prod.snd

/-- All outcomes of a key are failures. -/
def allFailed (outs : List (Outcome κ)) (k : κ) : Bool := (outcomesOf k outs).all id

/-- The keys that fail at their limit. -/
def stopping (c : κ → ℕ) (outs : List (Outcome κ)) : List κ :=
  (outs.filter fun o => allFailed outs o.1 && limit o.1 ≤ bump cap (c o.1)).map Prod.fst

/-- Both ways of counting see the same in a key: it has one outcome, or it ends with a success
and no failure before reaches the limit. -/
def Settles (limit c : ℕ) (outs : List Bool) : Prop :=
  outs.length ≤ 1 ∨ outs.getLast? = some false ∧
    ∀ front, front ++ [true] <+: outs → streak cap c (front ++ [true]) < limit

def Aligned (c : κ → ℕ) (outs : List (Outcome κ)) : Prop :=
  ∀ k, Settles cap (limit k) (c k) (outcomesOf k outs)

/-! ## One by one -/

variable {cap limit}

theorem streak_append (c : ℕ) (outs more : List Bool) :
    streak cap c (outs ++ more) = streak cap (streak cap c outs) more := by
  induction outs generalizing c with
  | nil => rfl
  | cons failed outs ih => exact ih _

theorem outcomesOf_append (k : κ) (outs more : List (Outcome κ)) :
    outcomesOf k (outs ++ more) = outcomesOf k outs ++ outcomesOf k more := by
  simp [outcomesOf]

/-- A counter depends on the outcomes of its key alone. -/
theorem after_eq (c : κ → ℕ) (outs : List (Outcome κ)) (k : κ) :
    after cap c outs k = streak cap (c k) (outcomesOf k outs) := by
  induction outs generalizing c with
  | nil => rfl
  | cons o outs ih =>
    obtain ⟨key, failed⟩ := o
    rw [after, ih]
    by_cases hkey : key = k
    · subst hkey
      simp [outcomesOf, streak]
    · have hne : k ≠ key := fun h => hkey h.symm
      simp [outcomesOf, hkey, Function.update_of_ne hne]

theorem streak_of_success (c : ℕ) {outs : List Bool} (h : outs.getLast? = some false) :
    streak cap c outs = 0 := by
  obtain ⟨front, rfl⟩ := getLast?_eq_some_iff.mp h
  rw [streak_append]
  rfl

/-- An outcome asks for a stop exactly if its key fails at the limit. -/
theorem asks_iff {limit c : ℕ} {before later : List Bool} {failed : Bool}
    (h : Settles cap limit c (before ++ failed :: later)) :
    (failed = true ∧ limit ≤ bump cap (streak cap c before)) ↔
      (before ++ failed :: later).all id = true ∧ limit ≤ bump cap c := by
  rcases h with hone | ⟨hlast, hquiet⟩
  · have hbefore : before = [] := by
      rw [← length_eq_zero_iff]
      simp only [length_append, length_cons] at hone
      omega
    have hlater : later = [] := by
      rw [← length_eq_zero_iff]
      simp only [length_append, length_cons] at hone
      omega
    subst hbefore hlater
    simp [streak]
  · have hmixed : ¬ (before ++ failed :: later).all id = true := by
      intro hall
      have hfalse := all_eq_true.mp hall false (mem_of_getLast? hlast)
      simp at hfalse
    refine iff_of_false (fun hasks => ?_) fun hkey => hmixed hkey.1
    obtain ⟨rfl, hlimit⟩ := hasks
    have hbelow := hquiet before ⟨later, by simp⟩
    rw [streak_append] at hbelow
    exact absurd hlimit (not_le.mpr hbelow)

/-- What is asked for outcome by outcome is asked for by the failing keys. -/
theorem stops_eq {c : κ → ℕ} {outs : List (Outcome κ)} (h : Aligned cap limit c outs) :
    stops cap limit c outs = stopping cap limit c outs := by
  have hstep : ∀ done rest : List (Outcome κ), done ++ rest = outs →
      stops cap limit (after cap c done) rest =
        (rest.filter fun o => allFailed outs o.1 && limit o.1 ≤ bump cap (c o.1)).map fst := by
    intro done rest
    induction rest generalizing done with
    | nil => exact fun _ => rfl
    | cons o rest ih =>
      intro houts
      obtain ⟨k, failed⟩ := o
      have hnext : Function.update (after cap c done) k
          (if failed then bump cap (after cap c done k) else 0) =
            after cap c (done ++ [(k, failed)]) := by
        funext other
        rw [after_eq c (done ++ _) other, outcomesOf_append, streak_append, ← after_eq c done other]
        by_cases hother : other = k
        · subst hother
          simp [outcomesOf, streak]
        · have hne : ¬ k = other := fun h => hother h.symm
          simp [outcomesOf, hne, hother, streak]
      have hrest := ih (done ++ [(k, failed)]) (by simpa using houts)
      have hkey : outcomesOf k outs = outcomesOf k done ++ failed :: outcomesOf k rest := by
        rw [← houts, outcomesOf_append]
        simp [outcomesOf]
      have hhere : (failed = true ∧ limit k ≤ bump cap (after cap c done k)) ↔
          (allFailed outs k && limit k ≤ bump cap (c k)) = true := by
        rw [after_eq, asks_iff (hkey ▸ h k), Bool.and_eq_true, decide_eq_true_eq, allFailed, hkey]
      rw [stops, hnext, hrest, filter_cons]
      by_cases hstop : (allFailed outs k && decide (limit k ≤ bump cap (c k))) = true
      · rw [if_pos (hhere.mpr hstop), if_pos hstop]
        rfl
      · rw [if_neg (mt hhere.mp hstop), if_neg hstop]
        rfl
  exact hstep [] outs rfl

/-! ## Once for each key -/

/-- What a batch says of its keys, in key order. -/
structure Summary [Preorder κ] (outs entries : List (Outcome κ)) : Prop where
  sorted : entries.Pairwise fun a b => a.1 < b.1
  mem_iff : ∀ k failed, (k, failed) ∈ entries ↔
    outcomesOf k outs ≠ [] ∧ failed = allFailed outs k

section
variable (c : κ → ℕ) {entries : List (Outcome κ)}

theorem sweep_of_notMem {k : κ}
    (h : k ∉ entries.map Prod.fst) : (sweep cap limit c entries).2 k = c k := by
  induction entries generalizing c with
  | nil => rfl
  | cons e entries ih =>
    rw [map_cons, mem_cons, not_or] at h
    rw [sweep, ih _ h.2, Function.update_of_ne h.1]

theorem sweep_of_mem {k : κ} {failed : Bool}
    (hnodup : (entries.map Prod.fst).Nodup) (h : (k, failed) ∈ entries) :
    (sweep cap limit c entries).2 k = if failed then bump cap (c k) else 0 := by
  induction entries generalizing c with
  | nil => exact absurd h not_mem_nil
  | cons e entries ih =>
    obtain ⟨key, hit⟩ := e
    rw [map_cons, nodup_cons] at hnodup
    rcases mem_cons.mp h with heq | h
    · cases heq
      rw [sweep, sweep_of_notMem _ hnodup.1, Function.update_self]
    · have hne : k ≠ key := by
        intro heq
        have hmem := mem_map_of_mem (f := fst) h
        exact hnodup.1 (heq ▸ hmem)
      rw [sweep, ih _ hnodup.2 h, Function.update_of_ne hne]

/-- The sweep stops at the first key of all that fail at their limit. -/
theorem sweep_stop (hnodup : (entries.map Prod.fst).Nodup) :
    (sweep cap limit c entries).1 =
      ((entries.filter fun e => e.2 && limit e.1 ≤ bump cap (c e.1)).map Prod.fst).head? := by
  induction entries generalizing c with
  | nil => rfl
  | cons e entries ih =>
    obtain ⟨k, failed⟩ := e
    rw [map_cons, nodup_cons] at hnodup
    have hothers : (entries.filter fun e => e.2 && limit e.1 ≤ bump cap
        (Function.update c k (if failed then bump cap (c k) else 0) e.1)) =
          entries.filter fun e => e.2 && limit e.1 ≤ bump cap (c e.1) := by
      refine filter_congr fun e he => ?_
      have hne : e.1 ≠ k := by
        intro heq
        have hmem := mem_map_of_mem (f := fst) he
        exact hnodup.1 (heq ▸ hmem)
      rw [Function.update_of_ne hne]
    rw [sweep, ih _ hnodup.2, hothers, filter_cons]
    by_cases hstop : failed = true ∧ limit k ≤ bump cap (c k)
    · have hyes : (failed && decide (limit k ≤ bump cap (c k))) = true := by simpa using hstop
      rw [if_pos hstop, if_pos hyes]
      rfl
    · have hno : ¬ (failed && decide (limit k ≤ bump cap (c k))) = true := by simpa using hstop
      rw [if_neg hstop, if_neg hno]

end

/-! ## Agreement -/

section
variable [Preorder κ] {c : κ → ℕ} {outs entries : List (Outcome κ)}

theorem Summary.nodup (h : Summary outs entries) : (entries.map Prod.fst).Nodup := by
  rw [Nodup, pairwise_map]
  exact h.sorted.imp ne_of_lt

/-- Aligned batches leave the same counters in both ways. -/
theorem after_eq_sweep (hsum : Summary outs entries) (h : Aligned cap limit c outs) :
    after cap c outs = (sweep cap limit c entries).2 := by
  funext k
  rw [after_eq]
  by_cases hk : outcomesOf k outs = []
  · have hnot : k ∉ entries.map fst := by
      intro hmem
      obtain ⟨e, he, rfl⟩ := mem_map.mp hmem
      exact ((hsum.mem_iff e.1 e.2).mp he).1 hk
    rw [sweep_of_notMem c hnot, hk]
    rfl
  · have hmem := (hsum.mem_iff k (allFailed outs k)).mpr ⟨hk, rfl⟩
    rw [sweep_of_mem c hsum.nodup hmem]
    rcases h k with hone | ⟨hlast, _⟩
    · obtain ⟨failed, hfailed⟩ : ∃ failed, outcomesOf k outs = [failed] :=
        length_eq_one_iff.mp (by
          have hpos := length_pos_iff.mpr hk
          omega)
      simp [allFailed, hfailed, streak]
    · have hmixed : allFailed outs k = false := by
        rw [← Bool.not_eq_true]
        intro hall
        have hfalse := all_eq_true.mp hall false (mem_of_getLast? hlast)
        simp at hfalse
      rw [streak_of_success _ hlast, hmixed]
      rfl

omit [Preorder κ] in
theorem mem_stopping {k : κ} : k ∈ stopping cap limit c outs ↔
    outcomesOf k outs ≠ [] ∧ allFailed outs k = true ∧ limit k ≤ bump cap (c k) := by
  simp only [stopping, mem_map, mem_filter, Bool.and_eq_true, decide_eq_true_eq]
  constructor
  · intro h
    obtain ⟨o, ⟨ho, hstop⟩, rfl⟩ := h
    refine ⟨?_, hstop⟩
    have hmem : o.2 ∈ outcomesOf o.1 outs :=
      mem_map_of_mem (f := snd) (mem_filter.mpr ⟨ho, by simp⟩)
    exact ne_nil_of_mem hmem
  · intro h
    obtain ⟨failed, hfailed⟩ := exists_mem_of_ne_nil _ h.1
    obtain ⟨o, ho, _⟩ := mem_map.mp hfailed
    obtain ⟨hout, hkey⟩ := mem_filter.mp ho
    have hk : o.1 = k := by simpa using hkey
    exact ⟨o, ⟨hout, hk ▸ h.2⟩, hk⟩

/-- The keys of a sweep that ask for a stop are the failing ones. -/
theorem Summary.mem_asking (hsum : Summary outs entries) (k : κ) :
    k ∈ (entries.filter fun e => e.2 && limit e.1 ≤ bump cap (c e.1)).map Prod.fst ↔
      k ∈ stopping cap limit c outs := by
  rw [mem_stopping, mem_map]
  constructor
  · intro h
    obtain ⟨e, he, rfl⟩ := h
    obtain ⟨hentry, hstop⟩ := mem_filter.mp he
    obtain ⟨hne, hall⟩ := (hsum.mem_iff e.1 e.2).mp hentry
    rw [Bool.and_eq_true, decide_eq_true_eq] at hstop
    exact ⟨hne, hall ▸ hstop.1, hstop.2⟩
  · intro h
    refine ⟨(k, true), mem_filter.mpr ⟨?_, by simpa using h.2.2⟩, rfl⟩
    exact (hsum.mem_iff k true).mpr ⟨h.1, h.2.1.symm⟩

/-- The sweep stops at the first key in key order that fails at its limit. -/
theorem sweep_stop_iff (hsum : Summary outs entries) {k : κ} :
    (sweep cap limit c entries).1 = some k ↔
      k ∈ stopping cap limit c outs ∧
        ∀ other ∈ stopping cap limit c outs, other = k ∨ k < other := by
  have hsorted : ((entries.filter fun e =>
      e.2 && limit e.1 ≤ bump cap (c e.1)).map fst).Pairwise (· < ·) := by
    rw [pairwise_map]
    exact hsum.sorted.sublist filter_sublist
  rw [sweep_stop c hsum.nodup]
  simp only [← hsum.mem_asking]
  generalize (entries.filter fun e => e.2 && limit e.1 ≤ bump cap (c e.1)).map fst = keys
    at hsorted ⊢
  cases keys with
  | nil => simp
  | cons first keys =>
    rw [pairwise_cons] at hsorted
    simp only [head?_cons, Option.some_inj]
    constructor
    · intro h
      subst h
      refine ⟨mem_cons_self, fun other hother => ?_⟩
      rcases mem_cons.mp hother with heq | hother
      · exact Or.inl heq
      · exact Or.inr (hsorted.1 other hother)
    · intro h
      obtain ⟨hk, hleast⟩ := h
      rcases mem_cons.mp hk with heq | hlater
      · exact heq.symm
      · rcases hleast first mem_cons_self with heq | hlt
        · exact heq
        · exact absurd hlt (hsorted.1 k hlater).not_gt

theorem sweep_none_iff (hsum : Summary outs entries) :
    (sweep cap limit c entries).1 = none ↔ stopping cap limit c outs = [] := by
  rw [sweep_stop c hsum.nodup, head?_eq_none_iff, eq_nil_iff_forall_not_mem,
    eq_nil_iff_forall_not_mem]
  exact forall_congr' fun k => not_congr (hsum.mem_asking k)

end

end CodeSeeX.Streaks
