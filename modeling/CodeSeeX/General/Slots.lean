import Mathlib.Data.List.Nodup
import Mathlib.Data.List.Range

/-!
# Items in numbered slots

A producer announces items, each in the next free slot, and closes them one by one; a closed
item goes to the end of a list. The log of the two kinds of entries and the list agree as long
as the item that is closed is the one whose slot is the end of the list.
-/
namespace CodeSeeX.Slots
open List

variable (slot : ℕ)

variable {κ α : Type}

inductive Entry (κ α : Type) where
  | added (slot : ℕ) (key : κ)
  | done (slot : ℕ) (item : α)

/-- What was announced, in the order of the log. -/
def addedOf (log : List (Entry κ α)) : List (ℕ × κ) :=
  log.filterMap fun
    | .added slot key => some (slot, key)
    | .done _ _ => none

/-- What was closed, in the order of the log. -/
def doneOf (log : List (Entry κ α)) : List (ℕ × α) :=
  log.filterMap fun
    | .added _ _ => none
    | .done slot item => some (slot, item)

@[simp] theorem addedOf_append (log later : List (Entry κ α)) :
    addedOf (log ++ later) = addedOf log ++ addedOf later := filterMap_append

@[simp] theorem doneOf_append (log later : List (Entry κ α)) :
    doneOf (log ++ later) = doneOf log ++ doneOf later := filterMap_append

@[simp] theorem addedOf_added (key : κ) :
    addedOf [(.added slot key : Entry κ α)] = [(slot, key)] := rfl

@[simp] theorem addedOf_done (item : α) :
    addedOf [(.done slot item : Entry κ α)] = [] := rfl

@[simp] theorem doneOf_added (key : κ) :
    doneOf [(.added slot key : Entry κ α)] = [] := rfl

@[simp] theorem doneOf_done (item : α) :
    doneOf [(.done slot item : Entry κ α)] = [(slot, item)] := rfl

/-- The items with their places. -/
def placed (items : List α) : List (ℕ × α) := items.zipIdx.map Prod.swap

theorem placed_append_singleton (items : List α) (item : α) :
    placed (items ++ [item]) = placed items ++ [(items.length, item)] := by
  simp [placed, zipIdx_append]

theorem placed_slots (items : List α) : (placed items).map Prod.fst = range items.length := by
  rw [placed, map_map]
  exact (zipIdx_map_snd 0 items).trans range_eq_range'.symm

/-- The slot and the key of a closed item. -/
def keyed (key : α → κ) (entry : ℕ × α) : ℕ × κ := (entry.1, key entry.2)

/-- What is closed was announced before, in its slot and under its key. -/
def Ordered (key : α → κ) (log : List (Entry κ α)) : Prop :=
  ∀ front, front <+: log → (doneOf front).map (keyed key) ⊆ addedOf front

theorem ordered_append_singleton {key : α → κ} {log : List (Entry κ α)} {entry : Entry κ α}
    (h : Ordered key log)
    (hlast : (doneOf (log ++ [entry])).map (keyed key) ⊆ addedOf (log ++ [entry])) :
    Ordered key (log ++ [entry]) := by
  intro front hfront
  rcases prefix_concat_iff.mp hfront with rfl | hbefore
  · exact hlast
  · exact h front hbefore

/-- The log agrees with the items that were closed and those that are still open. -/
structure Balanced (key : α → κ) (log : List (Entry κ α)) (opened : List (ℕ × κ)) (closed : List α)
    (next : ℕ) : Prop where
  next_eq : next = closed.length + opened.length
  slots : (opened.map Prod.fst).Perm (range' closed.length opened.length)
  done : doneOf log = placed closed
  added : (addedOf log).Perm ((placed closed).map (keyed key) ++ opened)
  ordered : Ordered key log

section
variable {key : α → κ} {log : List (Entry κ α)} {opened rest : List (ℕ × κ)} {closed : List α}
  {next : ℕ}

theorem balanced_nil (key : α → κ) : Balanced key [] [] [] 0 :=
  ⟨rfl, Perm.refl _, rfl, Perm.refl _, fun front hfront => by
    rw [prefix_nil.mp hfront]
    exact Subset.refl _⟩

/-- Under the agreement, all that is closed was announced. -/
theorem closed_subset (hdone : doneOf log = placed closed)
    (hadded : (addedOf log).Perm ((placed closed).map (keyed key) ++ opened)) :
    (doneOf log).map (keyed key) ⊆ addedOf log := by
  intro entry hentry
  rw [hdone] at hentry
  exact hadded.mem_iff.mpr (mem_append_left _ hentry)

/-- Another order of the open items. -/
theorem Balanced.perm (h : Balanced key log opened closed next) (hperm : opened.Perm rest) :
    Balanced key log rest closed next where
  next_eq := by rw [h.next_eq, hperm.length_eq]
  slots := by
    rw [← hperm.length_eq]
    exact (hperm.map Prod.fst).symm.trans h.slots
  done := h.done
  added := h.added.trans (hperm.append_left _)
  ordered := h.ordered

/-- An item is announced in the next slot. -/
theorem Balanced.announce (h : Balanced key log opened closed next) (name : κ) :
    Balanced key (log ++ [.added next name]) (opened ++ [(next, name)]) closed (next + 1) where
  next_eq := by
    have hnext := h.next_eq
    rw [length_append, length_singleton]
    omega
  slots := by
    rw [map_append, length_append, length_singleton, range'_concat]
    refine h.slots.append ?_
    rw [h.next_eq, Nat.one_mul]
    exact Perm.refl _
  done := by simpa using h.done
  added := by
    rw [addedOf_append, addedOf_added, ← append_assoc]
    exact h.added.append_right _
  ordered := by
    refine ordered_append_singleton h.ordered ?_
    rw [doneOf_append, doneOf_added, append_nil, addedOf_append]
    exact Subset.trans (closed_subset h.done h.added) (subset_append_left _ _)

/-- The open item whose slot is the end of the list is closed. -/
theorem Balanced.close {item : α} (h : Balanced key log opened closed next)
    (hperm : opened.Perm ((closed.length, key item) :: rest)) :
    Balanced key (log ++ [.done closed.length item]) rest (closed ++ [item]) next := by
  have hdone : doneOf (log ++ [.done closed.length item]) = placed (closed ++ [item]) := by
    rw [doneOf_append, doneOf_done, h.done, placed_append_singleton]
  have hadded : (addedOf (log ++ [.done closed.length item])).Perm
      ((placed (closed ++ [item])).map (keyed key) ++ rest) := by
    rw [addedOf_append, addedOf_done, append_nil, placed_append_singleton, map_append,
      append_assoc]
    exact h.added.trans (hperm.append_left _)
  refine ⟨?_, ?_, hdone, hadded,
    ordered_append_singleton h.ordered (closed_subset hdone hadded)⟩
  · have hnext := h.next_eq
    have hlength := hperm.length_eq
    rw [length_cons] at hlength
    rw [length_append, length_singleton]
    omega
  · have hslots := (hperm.map Prod.fst).symm.trans h.slots
    rw [hperm.length_eq, length_cons, range'_succ, map_cons] at hslots
    rw [length_append, length_singleton]
    exact Perm.cons_inv hslots

/-- An item that is announced and closed at once, while none is open. -/
theorem Balanced.whole {item : α} (h : Balanced key log [] closed next) :
    Balanced key (log ++ [.added next (key item), .done next item]) [] (closed ++ [item])
      (next + 1) := by
  have hnext : next = closed.length := h.next_eq
  have hopened : ([] ++ [(next, key item)] : List (ℕ × κ)).Perm [(closed.length, key item)] := by
    rw [hnext]
    exact Perm.refl _
  have hdone := (h.announce (key item)).close hopened
  rw [append_assoc, ← hnext] at hdone
  exact hdone

/-- The log accounts for a list of items: what was announced was closed once, later, in its slot and
under its key, no slot was used twice, and each item was closed in the slot that is its place. -/
structure Accounts (key : α → κ) (log : List (Entry κ α)) (items : List α) : Prop where
  closed : (addedOf log).Perm ((doneOf log).map (keyed key))
  slots : ((addedOf log).map Prod.fst).Nodup
  places : doneOf log = placed items
  ordered : Ordered key log

theorem Balanced.accounts (h : Balanced key log [] closed next) : Accounts key log closed where
  closed := by
    rw [h.done]
    simpa using h.added
  slots := by
    have hkeys : ((placed closed).map (keyed key)).map Prod.fst = range closed.length := by
      rw [map_map]
      exact placed_slots closed
    have hslots := h.added.map Prod.fst
    rw [append_nil, hkeys] at hslots
    exact hslots.nodup_iff.mpr nodup_range
  places := h.done
  ordered := h.ordered

end

end CodeSeeX.Slots
