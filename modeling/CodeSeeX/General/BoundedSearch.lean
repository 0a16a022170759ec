import Mathlib.Tactic

/-!
# Searches that stop early

A search goes through a list for the first hit and gives up at an element that stops
it. It finds a hit that is there exactly when nothing stops it before the first one.
-/
namespace CodeSeeX.BoundedSearch
open List

variable {α : Type*} (hit stop : α → Prop) [DecidablePred hit] [DecidablePred stop]

def search : List α → Option α
  | [] => none
  | a :: as => if hit a then some a else if stop a then none else search as

/-- Nothing before the first hit stops the search. -/
def Unstopped (hit stop : α → Prop) (as : List α) : Prop :=
  ∀ before a after, as = before ++ a :: after → hit a → (∀ b ∈ before, ¬ hit b) →
    ∀ b ∈ before, ¬ stop b

variable {hit stop}

theorem search_eq_some {as : List α} {a : α} :
    search hit stop as = some a ↔
      ∃ before after, as = before ++ a :: after ∧ hit a ∧ ∀ b ∈ before, ¬ hit b ∧ ¬ stop b := by
  induction as with
  | nil => simp [search]
  | cons first as ih =>
    rw [search]
    split_ifs with hfirst hstop
    · rw [Option.some_inj]
      constructor
      · rintro rfl
        exact ⟨[], as, rfl, hfirst, by simp⟩
      · rintro ⟨before, after, hsplit, -, hbefore⟩
        cases before with
        | nil => exact (cons.inj hsplit).1
        | cons b before =>
          obtain ⟨rfl, -⟩ := cons.inj hsplit
          exact absurd hfirst (hbefore first mem_cons_self).1
    · constructor
      · exact nofun
      · rintro ⟨before, after, hsplit, ha, hbefore⟩
        cases before with
        | nil =>
          obtain ⟨rfl, -⟩ := cons.inj hsplit
          exact absurd ha hfirst
        | cons b before =>
          obtain ⟨rfl, -⟩ := cons.inj hsplit
          exact absurd hstop (hbefore first mem_cons_self).2
    · rw [ih]
      constructor
      · rintro ⟨before, after, rfl, ha, hbefore⟩
        exact ⟨first :: before, after, rfl, ha,
          forall_mem_cons.mpr ⟨⟨hfirst, hstop⟩, hbefore⟩⟩
      · rintro ⟨before, after, hsplit, ha, hbefore⟩
        cases before with
        | nil =>
          obtain ⟨rfl, -⟩ := cons.inj hsplit
          exact absurd ha hfirst
        | cons b before =>
          obtain ⟨rfl, hrest⟩ := cons.inj hsplit
          exact ⟨before, after, hrest, ha, (forall_mem_cons.mp hbefore).2⟩

theorem mem_of_search {as : List α} {a : α} (h : search hit stop as = some a) : a ∈ as ∧ hit a := by
  obtain ⟨before, after, rfl, ha, -⟩ := search_eq_some.mp h
  exact ⟨by simp, ha⟩

/-- A list with a hit has a first one. -/
theorem exists_first {as : List α} (h : ∃ a ∈ as, hit a) :
    ∃ before a after, as = before ++ a :: after ∧ hit a ∧ ∀ b ∈ before, ¬ hit b := by
  induction as with
  | nil => simp at h
  | cons first as ih =>
    by_cases hfirst : hit first
    · exact ⟨[], first, as, rfl, hfirst, by simp⟩
    · obtain ⟨before, a, after, rfl, ha, hbefore⟩ := ih (by simpa [hfirst] using h)
      exact ⟨first :: before, a, after, rfl, ha, forall_mem_cons.mpr ⟨hfirst, hbefore⟩⟩

/-- The search finds a hit that is there exactly when it is not stopped before. -/
theorem search_found_iff {as : List α} (h : ∃ a ∈ as, hit a) :
    (∃ a, search hit stop as = some a) ↔ Unstopped hit stop as := by
  constructor
  · rintro ⟨a, ha⟩ before other after hsplit hother hbefore b hb
    obtain ⟨start, rest, hstart, hhit, hall⟩ := search_eq_some.mp ha
    -- both splits are at the first hit
    rw [hstart] at hsplit
    rcases append_eq_append_iff.mp hsplit with ⟨more, hmore, hrest⟩ | ⟨more, hmore, hrest⟩
    · cases more with
      | nil =>
        rw [append_nil] at hmore
        rw [hmore] at hb
        exact (hall b hb).2
      | cons c more =>
        obtain ⟨rfl, -⟩ := cons.inj hrest
        exact absurd hhit (hbefore a (by rw [hmore]; simp))
    · rw [hmore] at hall
      exact (hall b (mem_append_left _ hb)).2
  · intro hfree
    obtain ⟨before, a, after, rfl, ha, hbefore⟩ := exists_first h
    exact ⟨a, search_eq_some.mpr ⟨before, after, rfl, ha, fun b hb =>
      ⟨hbefore b hb, hfree before a after rfl ha hbefore b hb⟩⟩⟩

/-- In an ordered list the hit that is found comes before every other. -/
theorem search_least {r : α → α → Prop} {as : List α} {a b : α} (hsorted : as.Pairwise r)
    (h : search hit stop as = some a) (hb : b ∈ as) (hhit : hit b) : b = a ∨ r a b := by
  obtain ⟨before, after, rfl, -, hbefore⟩ := search_eq_some.mp h
  rcases mem_append.mp hb with hb | hb
  · exact absurd hhit (hbefore b hb).1
  · rcases mem_cons.mp hb with rfl | hb
    · exact Or.inl rfl
    · exact Or.inr (rel_of_pairwise_cons (pairwise_append.mp hsorted).2.1 hb)

end CodeSeeX.BoundedSearch
