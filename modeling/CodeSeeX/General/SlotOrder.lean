import Mathlib.Data.List.Perm.Basic
import Mathlib.Data.List.Range
import Mathlib.Data.List.ReduceOption

/-!
# Items in the order of their slots

Some items have a slot. They are collected slot by slot, or each slot keeps the last item that
was put into it; the two agree when no slot has two items, and else the second is shorter.
-/
namespace SlotOrder
open List

variable {α : Type*} (slot : α → Option ℕ)

def ofSlot (k : ℕ) (items : List α) : List α := items.filter fun item => slot item = some k

/-- The items of the first `n` slots, slot by slot. -/
def ordered (n : ℕ) (items : List α) : List α := (range n).flatMap (ofSlot slot · items)

/-- What a slot keeps when every item is put over the one before it. -/
def last (items : List α) (k : ℕ) : Option α := (ofSlot slot k items).getLast?

def lasts (n : ℕ) (items : List α) : List α := (range n).filterMap (last slot items)

def fill (slots : List (Option α)) (item : α) : List (Option α) :=
  match slot item with
  | some k => slots.set k (some item)
  | none => slots

variable {slot} {n k : ℕ} {item : α} {items more : List α}

theorem ofSlot_append : ofSlot slot k (items ++ more) = ofSlot slot k items ++ ofSlot slot k more :=
  filter_append items more

theorem mem_ordered : item ∈ ordered slot n items ↔ item ∈ items ∧ ∃ k < n, slot item = some k := by
  simp only [ordered, ofSlot, mem_flatMap, mem_range, mem_filter, decide_eq_true_eq]
  exact ⟨fun ⟨k, hk, hmem, hslot⟩ => ⟨hmem, k, hk, hslot⟩,
    fun ⟨hmem, k, hk, hslot⟩ => ⟨k, hk, hmem, hslot⟩⟩

theorem ordered_succ : ordered slot (n + 1) items = ordered slot n items ++ ofSlot slot n items := by
  simp [ordered, range_succ]

theorem lasts_succ : lasts slot (n + 1) items = lasts slot n items ++ (last slot items n).toList := by
  rw [lasts, range_succ, filterMap_append]
  cases h : last slot items n <;> simp [lasts, h]

/-! ## Filling the slots -/

theorem getElem?_fill (slots : List (Option α)) (item : α) (k : ℕ) :
    (fill slot slots item)[k]? = slots[k]?.map fun old => (last slot [item] k).or old := by
  cases hslot : slot item with
  | none =>
    have hlast : last slot [item] k = none := by simp [last, ofSlot, hslot]
    rw [fill, hslot, hlast]
    simp
  | some j =>
    rw [fill, hslot]
    by_cases hjk : j = k
    · subst hjk
      have hlast : last slot [item] j = some item := by simp [last, ofSlot, hslot]
      rw [hlast, getElem?_set_self']
      cases slots[j]? <;> rfl
    · have hlast : last slot [item] k = none := by simp [last, ofSlot, hslot, hjk]
      rw [hlast]
      show (slots.set j (some item))[k]? = _
      rw [getElem?_set_ne hjk]
      simp

theorem last_append : last slot (items ++ more) k = (last slot more k).or (last slot items k) := by
  rw [last, ofSlot_append, getLast?_append]
  rfl

theorem getElem?_foldl_fill (items : List α) (slots : List (Option α)) (k : ℕ) :
    (items.foldl (fill slot) slots)[k]? = slots[k]?.map fun old => (last slot items k).or old := by
  induction items generalizing slots with
  | nil => simp [last, ofSlot]
  | cons item items ih =>
    rw [foldl_cons, ih, getElem?_fill, ← singleton_append (l := items), Option.map_map]
    refine congrArg (Option.map · _) (funext fun old => ?_)
    rw [last_append, Function.comp_apply, Option.or_assoc]

theorem foldl_fill (n : ℕ) (items : List α) :
    items.foldl (fill slot) (replicate n none) = (range n).map (last slot items) := by
  refine ext_getElem? fun k => ?_
  rw [getElem?_foldl_fill, getElem?_map, getElem?_replicate]
  by_cases hk : k < n
  · rw [if_pos hk, getElem?_range hk]
    simp
  · rw [if_neg hk, getElem?_eq_none (by simpa using hk)]
    rfl

theorem ofSlot_toList_last {j : ℕ} :
    ofSlot slot k (last slot items j).toList = if j = k then (last slot items k).toList else [] := by
  cases h : last slot items j with
  | none =>
    split_ifs with hjk
    · rw [← hjk, h]
      rfl
    · rfl
  | some item =>
    have hslot : slot item = some j :=
      of_decide_eq_true (mem_filter.mp (mem_of_getLast? h)).2
    by_cases hjk : j = k
    · subst hjk
      rw [if_pos rfl, h]
      simp [ofSlot, hslot]
    · rw [if_neg hjk]
      simp [ofSlot, hslot, hjk]

/-- What the slots keep is kept when they are filled with it again. -/
theorem ofSlot_lasts (n : ℕ) (items : List α) :
    ofSlot slot k (lasts slot n items) = if k < n then (last slot items k).toList else [] := by
  induction n with
  | zero => rfl
  | succ n ih =>
    rw [lasts_succ, ofSlot_append, ih, ofSlot_toList_last]
    by_cases hn : n = k
    · rw [if_pos hn, if_neg (by omega), if_pos (by omega), nil_append]
    · rw [if_neg hn, append_nil]
      by_cases hk : k < n
      · rw [if_pos hk, if_pos (by omega)]
      · rw [if_neg hk, if_neg (by omega)]

theorem mem_lasts (h : item ∈ lasts slot n items) : item ∈ items ∧ ∃ k < n, slot item = some k := by
  obtain ⟨k, hk, hlast⟩ := mem_filterMap.mp h
  have hmem := mem_filter.mp (mem_of_getLast? hlast)
  exact ⟨hmem.1, k, mem_range.mp hk, of_decide_eq_true hmem.2⟩

/-! ## What is kept -/

/-- Nothing is lost in the order of the slots. -/
theorem ordered_perm (n : ℕ) (items : List α) :
    (ordered slot n items).Perm (items.filter fun item => (slot item).any (· < n)) := by
  induction n with
  | zero =>
    have hnone : (items.filter fun item => (slot item).any (· < 0)) = [] := by simp
    rw [hnone]
    exact Perm.refl _
  | succ n ih =>
    rw [ordered_succ]
    have hbelow : items.filter (fun item => (slot item).any (· < n)) =
        (items.filter fun item => (slot item).any (· < n + 1)).filter
          fun item => (slot item).any (· < n) := by
      rw [filter_filter]
      refine filter_congr fun item _ => ?_
      cases slot item with
      | none => rfl
      | some k =>
        simp
        omega
    have hlast : ofSlot slot n items =
        (items.filter fun item => (slot item).any (· < n + 1)).filter
          fun item => ! (slot item).any (· < n) := by
      rw [ofSlot, filter_filter]
      refine filter_congr fun item _ => ?_
      cases slot item with
      | none => rfl
      | some k =>
        rw [Bool.eq_iff_iff]
        simp
        omega
    refine (ih.append_right _).trans ?_
    rw [hbelow, hlast]
    exact filter_append_perm _ _

theorem length_toList_last_le : (last slot items k).toList.length ≤ (ofSlot slot k items).length := by
  rw [last]
  cases ofSlot slot k items with
  | nil => exact Nat.le_refl _
  | cons item rest => simp [getLast?_cons]

theorem length_lasts_le (n : ℕ) (items : List α) :
    (lasts slot n items).length ≤ (ordered slot n items).length := by
  induction n with
  | zero => exact Nat.le_refl _
  | succ n ih =>
    rw [lasts_succ, ordered_succ, length_append, length_append]
    exact Nat.add_le_add ih length_toList_last_le

theorem lasts_eq (h : ∀ k < n, (ofSlot slot k items).length ≤ 1) :
    lasts slot n items = ordered slot n items := by
  induction n with
  | zero => rfl
  | succ n ih =>
    have hsingle : (last slot items n).toList = ofSlot slot n items := by
      have := h n (Nat.lt_succ_self n)
      rw [last]
      match hbucket : ofSlot slot n items with
      | [] => rfl
      | [item] => rfl
      | _ :: _ :: _ =>
        rw [hbucket] at this
        simp at this
    rw [lasts_succ, ordered_succ, hsingle, ih fun k hk => h k (Nat.lt_succ_of_lt hk)]

/-- Where a slot has two items, one of them is gone. -/
theorem length_le_one_of_length_eq (h : (lasts slot n items).length = (ordered slot n items).length) :
    ∀ k < n, (ofSlot slot k items).length ≤ 1 := by
  induction n with
  | zero => exact nofun
  | succ n ih =>
    rw [lasts_succ, ordered_succ, length_append, length_append] at h
    have hfirst : (lasts slot n items).length ≤ (ordered slot n items).length := length_lasts_le n items
    have hlast : (last slot items n).toList.length ≤ (ofSlot slot n items).length :=
      length_toList_last_le
    have hone : (last slot items n).toList.length ≤ 1 := by cases last slot items n <;> simp
    intro k hk
    by_cases hkn : k = n
    · subst hkn
      omega
    · exact ih (by omega) k (by omega)

/-- The slots are filled with what they keep, and with items of no slot. -/
theorem lasts_append (h : ∀ item ∈ more, slot item = none) :
    lasts slot n (lasts slot n items ++ more) = lasts slot n items := by
  refine filterMap_congr fun k hk => ?_
  have hmore : ofSlot slot k more = [] := by
    rw [ofSlot, filter_eq_nil_iff]
    intro item hmem
    simp [h item hmem]
  rw [last, ofSlot_append, ofSlot_lasts, if_pos (mem_range.mp hk), hmore, append_nil]
  cases last slot items k <;> rfl

/-- Items of no slot are not collected. -/
theorem ordered_append (h : ∀ item ∈ more, slot item = none) :
    ordered slot n (items ++ more) = ordered slot n items := by
  refine flatMap_congr fun k _ => ?_
  have hmore : ofSlot slot k more = [] := by
    rw [ofSlot, filter_eq_nil_iff]
    intro item hmem
    simp [h item hmem]
  rw [ofSlot_append, hmore, append_nil]

theorem ordered_isPrefix_iff (hslot : ∀ item k, slot item = some k → k < n) :
    ordered slot n (items ++ more) <+: ordered slot n items ↔ ∀ item ∈ more, slot item = none := by
  constructor
  · intro hbegin
    have hlength := hbegin.length_le
    rw [(ordered_perm n (items ++ more)).length_eq, (ordered_perm n items).length_eq,
      filter_append, length_append] at hlength
    have hnone : (more.filter fun item => (slot item).any (· < n)) = [] :=
      length_eq_zero_iff.mp (by omega)
    intro item hmem
    cases hk : slot item with
    | none => rfl
    | some k =>
      have := filter_eq_nil_iff.mp hnone item hmem
      rw [hk] at this
      exact absurd (decide_eq_true (hslot item k hk)) this
  · intro h
    simp [ordered_append h]

end SlotOrder
