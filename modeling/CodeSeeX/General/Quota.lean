import Mathlib.Data.List.Nodup
import Mathlib.Algebra.BigOperators.Group.List.Basic
import Mathlib.Algebra.GroupWithZero.Nat

/-!
# Removing the first of a list

The first entries of a list are to be removed, as many as the quota says, by a walk that may pass
an entry, or remove several at once. A flag says of each entry whether the walk removes it alone.
The walk does what it should exactly if it removes each of the first entries alone.
-/
namespace Quota
open List

variable {α β : Type*} {size : α → ℕ}

def Clear (quota : ℕ) (flags : List Bool) : Prop := ∀ flag ∈ flags.take quota, flag = true

/-- A walk with a quota over `entries` leaves `left`; it counts `used` removals of `total` size. -/
structure Walk (size : α → ℕ) (entries : List α) (flags : List Bool) (quota : ℕ) (left : List α)
    (used total : ℕ) : Prop where
  used_le : used ≤ quota
  length_le : used + left.length ≤ entries.length
  clear : Clear quota flags → left = entries.drop quota ∧ used = min quota entries.length ∧
    total = ((entries.take quota).map size).sum
  blocked : ¬ Clear quota flags →
    (∃ a ∈ entries.take quota, a ∈ left) ∨ used + left.length < entries.length

variable {entries more left leftMore : List α} {flags flagsMore : List Bool} {quota used total : ℕ}

/-! ## Flags -/

theorem clear_zero (flags : List Bool) : Clear 0 flags := by
  intro flag hflag
  exact absurd hflag not_mem_nil

theorem clear_append_iff :
    Clear quota (flags ++ flagsMore) ↔ Clear quota flags ∧ Clear (quota - flags.length) flagsMore := by
  rw [Clear, take_append, forall_mem_append]
  rfl

theorem not_clear_replicate {n : ℕ} (hquota : 0 < quota) (hn : 0 < n) :
    ¬ Clear quota (replicate n false) := by
  intro h
  obtain ⟨n, rfl⟩ := Nat.exists_eq_succ_of_ne_zero (Nat.ne_of_gt hn)
  obtain ⟨quota, rfl⟩ := Nat.exists_eq_succ_of_ne_zero (Nat.ne_of_gt hquota)
  exact Bool.false_ne_true (h false (by simp [replicate_succ]))

/-! ## One entry, or one group of entries -/

/-- Entries that the walk does not touch. -/
theorem Walk.passed (entries : List α) (quota : ℕ) :
    Walk size entries (replicate entries.length false) quota entries 0 0 where
  used_le := Nat.zero_le _
  length_le := Nat.le_of_eq (Nat.zero_add _)
  clear := by
    intro h
    by_cases hquota : quota = 0
    · subst hquota
      simp
    · have hnil : entries = [] := by
        by_contra hne
        exact not_clear_replicate (Nat.pos_of_ne_zero hquota) (length_pos_iff.mpr hne) h
      subst hnil
      simp
  blocked := by
    intro h
    cases entries with
    | nil => exact absurd (fun flag hflag => absurd hflag (by simp)) h
    | cons a entries =>
      cases quota with
      | zero => exact absurd (clear_zero _) h
      | succ quota => exact .inl ⟨a, by simp, mem_cons_self⟩

/-- An entry that is removed alone. -/
theorem Walk.alone (a : α) (hquota : 0 < quota) : Walk size [a] [true] quota [] 1 (size a) where
  used_le := hquota
  length_le := Nat.le_refl _
  clear := by
    intro _
    obtain ⟨quota, rfl⟩ := Nat.exists_eq_succ_of_ne_zero (Nat.ne_of_gt hquota)
    simp
  blocked := by
    intro h
    refine absurd (fun flag hflag => ?_) h
    simpa using mem_of_mem_take hflag

/-- Several entries that are removed together and counted once. -/
theorem Walk.together (hquota : 0 < quota) (hlength : 1 < entries.length) :
    Walk size entries (replicate entries.length false) quota [] 1 total where
  used_le := hquota
  length_le := by
    rw [length_nil]
    omega
  clear := fun h => absurd h (not_clear_replicate hquota (Nat.zero_lt_of_lt hlength))
  blocked := fun _ => .inr (by rw [length_nil]; omega)

/-! ## Walks in a row -/

/-- Without a quota the flags do not matter. -/
theorem Walk.of_zero (h : Walk size entries flags 0 left used total) :
    Walk size entries flagsMore 0 left used total where
  used_le := h.used_le
  length_le := h.length_le
  clear := fun _ => h.clear (clear_zero flags)
  blocked := fun hnot => absurd (clear_zero flagsMore) hnot

theorem Walk.append {usedMore totalMore : ℕ} (h : Walk size entries flags quota left used total)
    (hflags : flags.length = entries.length)
    (hmore : Walk size more flagsMore (quota - used) leftMore usedMore totalMore) :
    Walk size (entries ++ more) (flags ++ flagsMore) quota (left ++ leftMore) (used + usedMore)
      (total + totalMore) where
  used_le := by
    have := h.used_le
    have := hmore.used_le
    omega
  length_le := by
    have := h.length_le
    have := hmore.length_le
    rw [length_append, length_append]
    omega
  clear := by
    intro hclear
    obtain ⟨hfirst, hsecond⟩ := clear_append_iff.mp hclear
    obtain ⟨hleft, hused, htotal⟩ := h.clear hfirst
    have hquota : quota - flags.length = quota - used := by omega
    rw [hquota] at hsecond
    obtain ⟨hleftMore, husedMore, htotalMore⟩ := hmore.clear hsecond
    have hdrop : quota - used = quota - entries.length := by omega
    refine ⟨?_, ?_, ?_⟩
    · rw [hleft, hleftMore, hdrop, drop_append]
    · rw [length_append]
      omega
    · rw [htotal, htotalMore, hdrop, take_append, map_append, sum_append]
  blocked := by
    intro hnot
    have hsizes := h.length_le
    have hsizesMore := hmore.length_le
    rw [length_append, length_append]
    by_cases hfirst : Clear quota flags
    · obtain ⟨hleft, hused, -⟩ := h.clear hfirst
      have hquota : quota - flags.length = quota - used := by omega
      have hsecond : ¬ Clear (quota - used) flagsMore :=
        fun hsecond => hnot (clear_append_iff.mpr ⟨hfirst, hquota ▸ hsecond⟩)
      cases hmore.blocked hsecond with
      | inl hkept =>
        obtain ⟨a, hmem, hkept⟩ := hkept
        refine .inl ⟨a, ?_, mem_append_right left hkept⟩
        rw [take_append, ← hflags, hquota]
        exact mem_append_right _ hmem
      | inr hlost => exact .inr (by omega)
    · cases h.blocked hfirst with
      | inl hkept =>
        obtain ⟨a, hmem, hkept⟩ := hkept
        refine .inl ⟨a, ?_, mem_append_left leftMore hkept⟩
        rw [take_append]
        exact mem_append_left _ hmem
      | inr hlost => exact .inr (by omega)

/-- The entries are seen from further out. -/
theorem Walk.map {sizeOut : β → ℕ} (f : α → β) (hsize : ∀ a, sizeOut (f a) = size a)
    (h : Walk size entries flags quota left used total) :
    Walk sizeOut (entries.map f) flags quota (left.map f) used total where
  used_le := h.used_le
  length_le := by
    rw [length_map, length_map]
    exact h.length_le
  clear := by
    intro hclear
    obtain ⟨hleft, hused, htotal⟩ := h.clear hclear
    refine ⟨?_, ?_, ?_⟩
    · rw [hleft, map_drop]
    · rw [hused, length_map]
    · rw [htotal, ← map_take, map_map]
      exact congrArg sum (map_congr_left fun a _ => (hsize a).symm)
  blocked := by
    intro hnot
    rw [length_map, length_map]
    refine (h.blocked hnot).imp_left fun ⟨a, hmem, hkept⟩ => ⟨f a, ?_, mem_map_of_mem hkept⟩
    rw [← map_take]
    exact mem_map_of_mem hmem

/-- The walk removes exactly the first entries if and only if it removes each of them alone. -/
theorem Walk.exact_iff (h : Walk size entries flags quota left used total) (hnodup : entries.Nodup)
    (hquota : quota ≤ entries.length) :
    (left = entries.drop quota ∧ used = quota ∧ total = ((entries.take quota).map size).sum) ↔
      Clear quota flags := by
  constructor
  · intro ⟨hleft, hused, _⟩
    by_contra hnot
    cases h.blocked hnot with
    | inl hkept =>
      obtain ⟨a, hmem, hkept⟩ := hkept
      rw [hleft] at hkept
      exact disjoint_take_drop hnodup (Nat.le_refl quota) hmem hkept
    | inr hlost =>
      rw [hleft, hused, length_drop] at hlost
      omega
  · intro hclear
    obtain ⟨hleft, hused, htotal⟩ := h.clear hclear
    exact ⟨hleft, by omega, htotal⟩

end Quota
