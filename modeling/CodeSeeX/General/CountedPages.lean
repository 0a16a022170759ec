import Mathlib.Tactic

/-!
# Pages counted by a cursor

A page passes over as many entries as its cursor says and takes entries up to a limit, as
long as each fits beside those taken. It ends with the list, at the limit, or before an
entry that does not fit.
-/
namespace CodeSeeX.CountedPages
open List

inductive Ending where
  | complete
  | more
  | cut
deriving DecidableEq

variable {α : Type} {fits : List α → α → Bool} {limit skip : ℕ} {taken items : List α}

/-- The entries of a page, and how it ends. Entries passed over have to fit as well. -/
def fill (fits : List α → α → Bool) (limit : ℕ) : ℕ → List α → List α → List α × Ending
  | _, taken, [] => (taken, .complete)
  | skip, taken, a :: rest =>
      if fits taken a then
        match skip with
        | skip + 1 => fill fits limit skip taken rest
        | 0 =>
            if limit ≤ taken.length then (taken, .more)
            else fill fits limit 0 (taken ++ [a]) rest
      else (taken, .cut)

/-- What is true of a page of the entries after the cursor. -/
structure IsPage (fits : List α → α → Bool) (limit : ℕ) (items : List α)
    (page : List α × Ending) : Prop where
  complete : page.2 = .complete → page.1 = items
  more : page.2 = .more → page.1.length = limit ∧ ∃ a rest, items = page.1 ++ a :: rest
  cut : page.2 = .cut → ∃ a rest, items = page.1 ++ a :: rest ∧ fits page.1 a = false
  fitting : ∀ a ∈ page.1, ∃ earlier, fits earlier a = true

theorem fill_taken (htaken : taken.length ≤ limit)
    (hfitting : ∀ a ∈ taken, ∃ earlier, fits earlier a = true) :
    IsPage fits limit (taken ++ items) (fill fits limit 0 taken items) := by
  induction items generalizing taken with
  | nil =>
    rw [append_nil, fill]
    exact ⟨fun _ => rfl, nofun, nofun, hfitting⟩
  | cons a items ih =>
    rw [fill]
    split_ifs with hfits hfull
    · exact ⟨nofun, fun _ => ⟨Nat.le_antisymm htaken hfull, a, items, rfl⟩,
        nofun, hfitting⟩
    · have hstep := @ih (taken ++ [a]) (by rw [length_append, length_singleton]; omega)
        (by
          intro b hb
          obtain hb | hb := mem_append.mp hb
          · exact hfitting b hb
          · rw [mem_singleton.mp hb]
            exact ⟨taken, hfits⟩)
      rwa [append_assoc, singleton_append] at hstep
    · exact ⟨nofun, nofun,
        fun _ => ⟨a, items, rfl, by simpa using hfits⟩, hfitting⟩

/-- Past entries that fit, a page holds what comes after the cursor. -/
theorem fill_isPage (hskipped : ∀ a ∈ items.take skip, fits [] a = true) :
    IsPage fits limit (items.drop skip) (fill fits limit skip [] items) := by
  induction items generalizing skip with
  | nil =>
    rw [drop_nil, fill]
    exact ⟨fun _ => rfl, nofun, nofun,
      fun a ha => absurd ha not_mem_nil⟩
  | cons a items ih =>
    cases skip with
    | zero =>
      have hpage := @fill_taken _ fits limit [] (a :: items) (Nat.zero_le limit)
        (fun b hb => absurd hb not_mem_nil)
      rwa [nil_append] at hpage
    | succ skip =>
      rw [fill, if_pos (hskipped a mem_cons_self), drop_succ_cons]
      exact ih fun b hb => hskipped b (mem_cons_of_mem a hb)

end CodeSeeX.CountedPages
