import Mathlib.Tactic

/-!
# Evicting from a queue

The first `n` free entries leave a queue; an entry that is passed over on the way
moves to its back. The queue keeps its order exactly when nothing is passed over.
-/
namespace CodeSeeX.Eviction
open List

variable {α : Type}

/-- The queue after `n` free entries have left its front; `passed` was moved to its back. -/
def evict (free : α → Bool) : ℕ → List α → List α → List α
  | 0, front, passed => front ++ passed
  | _ + 1, [], passed => passed
  | n + 1, x :: front, passed =>
      if free x then evict free n front passed else evict free (n + 1) front (passed ++ [x])

variable {free : α → Bool}

theorem evict_cons_free {x : α} (h : free x = true) (n : ℕ) (front passed : List α) :
    evict free (n + 1) (x :: front) passed = evict free n front passed := by
  simp [evict, h]

theorem evict_cons_kept {x : α} (h : free x = false) {n : ℕ} (hn : 0 < n)
    (front passed : List α) :
    evict free n (x :: front) passed = evict free n front (passed ++ [x]) := by
  obtain ⟨n, rfl⟩ := Nat.exists_eq_succ_of_ne_zero (Nat.pos_iff_ne_zero.mp hn)
  simp [evict, h]

theorem evict_congr {free' : α → Bool} {front : List α} (h : ∀ x ∈ front, free x = free' x) (n : ℕ)
    (passed : List α) : evict free n front passed = evict free' n front passed := by
  induction front generalizing n passed with
  | nil => cases n <;> rfl
  | cons x front ih =>
    have hrest := ih fun y hy => h y (mem_cons_of_mem _ hy)
    cases n with
    | zero => rfl
    | succ n => simp only [evict, h x mem_cons_self, hrest]

/-- What stands behind the last entry to leave may count as passed over. -/
theorem evict_append {n : ℕ} {front : List α} (h : n ≤ front.countP free)
    (back passed : List α) :
    evict free n (front ++ back) passed = evict free n front (back ++ passed) := by
  induction front generalizing n passed with
  | nil =>
    obtain rfl : n = 0 := by simpa using h
    simp [evict]
  | cons x front ih =>
    cases n with
    | zero => simp [evict]
    | succ n =>
      cases hx : free x with
      | true =>
        rw [countP_cons_of_pos hx] at h
        rw [cons_append, evict_cons_free hx, evict_cons_free hx, ih (by omega)]
      | false =>
        rw [countP_cons_of_neg (by simp [hx])] at h
        rw [cons_append, evict_cons_kept hx n.succ_pos, evict_cons_kept hx n.succ_pos, ih h,
          append_assoc]

theorem evict_length {n : ℕ} {front : List α} (h : n ≤ front.countP free) (passed : List α) :
    (evict free n front passed).length + n = front.length + passed.length := by
  induction front generalizing n passed with
  | nil =>
    obtain rfl : n = 0 := by simpa using h
    simp [evict]
  | cons x front ih =>
    cases n with
    | zero => simp [evict, Nat.add_right_comm]
    | succ n =>
      cases hx : free x with
      | true =>
        rw [countP_cons_of_pos hx] at h
        have hrest := @ih n (by omega) passed
        rw [evict_cons_free hx, length_cons]
        omega
      | false =>
        rw [countP_cons_of_neg (by simp [hx])] at h
        have hrest := ih h (passed ++ [x])
        rw [length_append, length_singleton] at hrest
        rw [evict_cons_kept hx n.succ_pos, length_cons, Nat.succ_eq_add_one]
        omega

/-- Around the last entry to leave: what was passed over goes behind the rest. -/
theorem evict_split {n : ℕ} {front : List α} (h : n + 1 ≤ front.countP free)
    (passed : List α) :
    ∃ before x after, front = before ++ x :: after ∧ free x = true ∧ before.countP free = n ∧
      evict free (n + 1) front passed = after ++ (passed ++ before.filter (! free ·)) := by
  induction front generalizing n passed with
  | nil => simp at h
  | cons y front ih =>
    cases hy : free y with
    | true =>
      rw [countP_cons_of_pos hy] at h
      rw [evict_cons_free hy]
      cases n with
      | zero => exact ⟨[], y, front, rfl, hy, rfl, by simp [evict]⟩
      | succ n =>
        obtain ⟨before, x, after, rfl, hx, hcount, heq⟩ :=
          @ih n (by omega) passed
        refine ⟨y :: before, x, after, rfl, hx, ?_, ?_⟩
        · rw [countP_cons_of_pos hy, hcount]
        · rw [heq, filter_cons_of_neg (by simp [hy])]
    | false =>
      rw [countP_cons_of_neg (by simp [hy])] at h
      obtain ⟨before, x, after, rfl, hx, hcount, heq⟩ := ih h (passed ++ [y])
      refine ⟨y :: before, x, after, rfl, hx, ?_, ?_⟩
      · rw [countP_cons_of_neg (by simp [hy]), hcount]
      · rw [evict_cons_kept hy n.succ_pos, heq, filter_cons_of_pos (by simp [hy])]
        simp

/-- Two entries of a list without repetition stand in one order only. -/
theorem not_both_orders {l : List α} (h : l.Nodup) {x y : α} (hxy : [x, y].Sublist l) :
    ¬ [y, x].Sublist l := by
  intro hyx
  induction l with
  | nil => cases hxy
  | cons z l ih =>
    obtain ⟨hz, hl⟩ := nodup_cons.mp h
    cases hxy with
    | cons _ hxy =>
      cases hyx with
      | cons _ hyx => exact ih hl hxy hyx
      | cons_cons _ hyx => exact hz (hxy.subset (by simp))
    | cons_cons _ hxy =>
      cases hyx with
      | cons _ hyx => exact hz (hyx.subset (by simp))
      | cons_cons _ hyx => exact hz (hyx.subset (by simp))

/-- The queue stays in the order of a log exactly when the oldest entries are the ones to leave. -/
theorem evict_sublist_iff {n : ℕ} {front log : List α} (h : n ≤ front.countP free)
    (hlog : log.Nodup) (hfront : front.Sublist log)
    (hlast : ∀ x, front.getLast? = some x → free x = false) :
    (evict free n front []).Sublist log ↔ ∀ x ∈ front.take n, free x = true := by
  cases n with
  | zero => simpa [evict] using hfront
  | succ n =>
    obtain ⟨before, x, after, rfl, hx, hcount, heq⟩ := evict_split h []
    rw [heq, nil_append]
    constructor
    · intro hsub
      have hkept : before.filter (! free ·) = [] := by
        by_contra hne
        obtain ⟨y, hy⟩ := exists_mem_of_ne_nil _ hne
        have hafter : after ≠ [] := by
          rintro rfl
          have := hlast x (by simp)
          simp [hx] at this
        obtain ⟨z, hz⟩ := exists_mem_of_ne_nil _ hafter
        have hyz : [y, z].Sublist (before ++ x :: after) :=
          (singleton_sublist.mpr (mem_of_mem_filter hy)).append
            (singleton_sublist.mpr (mem_cons_of_mem x hz))
        have hzy : [z, y].Sublist (after ++ before.filter (! free ·)) :=
          (singleton_sublist.mpr hz).append (singleton_sublist.mpr hy)
        exact not_both_orders hlog (hyz.trans hfront) (hzy.trans hsub)
      have hfree : ∀ y ∈ before, free y = true := by
        intro y hy
        have hnot := filter_eq_nil_iff.mp hkept y hy
        simpa using hnot
      have hlength : before.length = n := by
        rw [← hcount, countP_eq_length.mpr hfree]
      intro y hy
      have hfront' : before ++ x :: after = (before ++ [x]) ++ after := by simp
      rw [hfront', take_append_of_le_length (by simp [hlength])] at hy
      rcases mem_append.mp (mem_of_mem_take hy) with hy | hy
      · exact hfree y hy
      · rwa [mem_singleton.mp hy]
    · intro htake
      have hkept : before.filter (! free ·) = [] := by
        have hlength : before.length = n := by
          by_contra hne
          have hle := countP_le_length (p := free) (l := before)
          have hshort : n + 1 ≤ before.length := by omega
          rw [take_append_of_le_length hshort] at htake
          have htaken := countP_eq_length.mpr htake
          have hsub : (before.take (n + 1)).countP free ≤ before.countP free :=
            (take_sublist (n + 1) before).countP_le
          rw [length_take] at htaken
          omega
        have hfree := countP_eq_length.mp (hcount.trans hlength.symm)
        rw [filter_eq_nil_iff]
        intro y hy
        simp [hfree y hy]
      rw [hkept, append_nil]
      exact ((suffix_cons x after).sublist.trans
        (suffix_append before (x :: after)).sublist).trans hfront

end CodeSeeX.Eviction
