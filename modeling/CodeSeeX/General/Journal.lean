import Mathlib.Data.List.Basic

/-!
# Replaying a journal that holds snapshots

A journal is replayed entry by entry; an entry may look at those behind it. A
snapshot makes the state forget what came before, any other entry adds to the
output what a memo of the entries before it lets it add. The output after the
last snapshot is then what the snapshot leaves, followed by what the entries
behind it add.
-/
namespace CodeSeeX.Journal
open List

variable {σ ρ μ α : Type*} (step : σ → ρ → List ρ → σ)

def replay (state : σ) : List ρ → σ
  | [] => state
  | entry :: later => replay (step state entry later) later

theorem replay_append_cons (state : σ) (earlier : List ρ) (entry : ρ) (later : List ρ) :
    ∃ before, replay step state (earlier ++ entry :: later) =
      replay step (step before entry later) later := by
  induction earlier generalizing state with
  | nil => exact ⟨state, rfl⟩
  | cons first rest ih => exact ih (step state first (rest ++ entry :: later))

section
variable (isSnapshot : ρ → Bool)

/-- The last snapshot of a journal and the entries behind it. -/
def lastSnapshot : List ρ → Option (ρ × List ρ)
  | [] => none
  | entry :: later =>
      (lastSnapshot later).or (if isSnapshot entry then some (entry, later) else none)

theorem lastSnapshot_eq_none {entries : List ρ} (h : lastSnapshot isSnapshot entries = none) :
    ∀ entry ∈ entries, isSnapshot entry = false := by
  induction entries with
  | nil => simp
  | cons first later ih =>
    simp only [lastSnapshot, Option.or_eq_none_iff, ite_eq_right_iff, reduceCtorEq,
      imp_false, Bool.not_eq_true] at h
    intro entry hentry
    obtain rfl | hlater := mem_cons.mp hentry
    · exact h.2
    · exact ih h.1 entry hlater

theorem lastSnapshot_eq_some {entries later : List ρ} {entry : ρ}
    (h : lastSnapshot isSnapshot entries = some (entry, later)) :
    isSnapshot entry = true ∧ (∀ e ∈ later, isSnapshot e = false) ∧
      ∃ earlier, entries = earlier ++ entry :: later := by
  induction entries with
  | nil => simp [lastSnapshot] at h
  | cons first rest ih =>
    rw [lastSnapshot] at h
    cases hrest : lastSnapshot isSnapshot rest with
    | some found =>
      rw [hrest, Option.some_or] at h
      obtain ⟨hsnapshot, hquiet, earlier, heq⟩ := ih (hrest.trans h)
      exact ⟨hsnapshot, hquiet, first :: earlier, by rw [heq, cons_append]⟩
    | none =>
      rw [hrest, Option.none_or] at h
      split at h
      · next hfirst =>
        obtain ⟨rfl, rfl⟩ := Prod.mk.inj (Option.some.inj h)
        exact ⟨hfirst, lastSnapshot_eq_none isSnapshot hrest, [], rfl⟩
      · cases h

end

section
variable (emit : μ → ρ → List ρ → List α) (remember : μ → ρ → μ)

/-- What the entries of a journal without snapshots add. -/
def emitted (memo : μ) : List ρ → List α
  | [] => []
  | entry :: later => emit memo entry later ++ emitted (remember memo entry) later

/-- Entries that only add to the output leave what they add behind what was there. -/
theorem output_replay (output : σ → List α) (memo : σ → μ) {entries : List ρ}
    (houtput : ∀ entry ∈ entries, ∀ state later,
      output (step state entry later) = output state ++ emit (memo state) entry later)
    (hmemo : ∀ entry ∈ entries, ∀ state later,
      memo (step state entry later) = remember (memo state) entry) (state : σ) :
    output (replay step state entries) =
      output state ++ emitted emit remember (memo state) entries := by
  induction entries generalizing state with
  | nil => simp [replay, emitted]
  | cons entry later ih =>
    rw [replay, ih (fun e he => houtput e (mem_cons_of_mem _ he))
      (fun e he => hmemo e (mem_cons_of_mem _ he)),
      houtput entry mem_cons_self, hmemo entry mem_cons_self, emitted,
      append_assoc]

end

end CodeSeeX.Journal
