import Mathlib.Data.List.TakeWhile
import Mathlib.Data.List.Perm.Basic

/-!
# Gaps between marks

A list is cut where a property ends. Two lists are aligned when they have the same marks in the
same order and what lies between two marks in one is related to what lies there in the other.
-/
namespace Gaps
open List

variable {α : Type*} {p mark : α → Bool} {front rest : List α}

/-! ## Where a property ends -/

/-- The list does not begin with an element that has the property. -/
def Stops (p : α → Bool) (rest : List α) : Prop := ∀ a ∈ rest.head?, p a = false

theorem stops_dropWhile (p : α → Bool) (xs : List α) : Stops p (xs.dropWhile p) := by
  intro a ha
  have := head?_dropWhile_not p xs
  rw [Option.mem_def.mp ha] at this
  simpa using this

theorem Stops.imp {q : α → Bool} (h : Stops p rest) (himp : ∀ a, p a = false → q a = false) :
    Stops q rest := fun a ha => himp a (h a ha)

theorem Stops.takeWhile (h : Stops p rest) : rest.takeWhile p = [] := by
  cases rest with
  | nil => rfl
  | cons a rest => exact takeWhile_cons_of_neg (by simpa using h a rfl)

theorem Stops.dropWhile (h : Stops p rest) : rest.dropWhile p = rest := by
  cases rest with
  | nil => rfl
  | cons a rest => exact dropWhile_cons_of_neg (by simpa using h a rfl)

theorem takeWhile_append (hfront : ∀ a ∈ front, p a = true) (h : Stops p rest) :
    (front ++ rest).takeWhile p = front := by
  rw [takeWhile_append_of_pos hfront, h.takeWhile, append_nil]

theorem dropWhile_append (hfront : ∀ a ∈ front, p a = true) (h : Stops p rest) :
    (front ++ rest).dropWhile p = rest := by
  rw [dropWhile_append_of_pos hfront, h.dropWhile]

theorem Stops.append (hrest : Stops p rest) {more : List α} (hmore : Stops p more) :
    Stops p (rest ++ more) := by
  cases rest with
  | nil => exact hmore
  | cons a rest => exact hrest

theorem Stops.takeWhile_stops (h : Stops p rest) (q : α → Bool) : Stops p (rest.takeWhile q) := by
  intro a ha
  rw [head?_takeWhile] at ha
  exact h a (Option.mem_filter_iff.mp ha).1

theorem stops_of_head_eq {more : List α} (h : more.head? = rest.head?) (hrest : Stops p rest) :
    Stops p more := by
  rwa [Stops, h]

/-- A beginning that has the property is over where the property ends. -/
theorem isPrefix_append_iff {xs : List α} (hxs : ∀ a ∈ xs, p a = true) (h : Stops p rest) :
    xs <+: front ++ rest ↔ xs <+: front := by
  constructor
  · intro hbegin
    cases prefix_or_prefix_of_prefix hbegin (prefix_append front rest) with
    | inl hshort => exact hshort
    | inr hlong =>
      obtain ⟨more, rfl⟩ := hlong
      rw [prefix_append_right_inj] at hbegin
      cases more with
      | nil => simp
      | cons a more =>
        have hhead : a ∈ rest.head? := by
          obtain ⟨behind, rfl⟩ := hbegin
          rfl
        have := hxs a (mem_append_right front mem_cons_self)
        exact absurd (this.symm.trans (h a hhead)) Bool.false_ne_true.symm
  · exact fun hbegin => hbegin.trans (prefix_append front rest)

/-! ## The same marks -/

inductive Aligned (mark : α → Bool) (gap : List α → List α → Prop) : List α → List α → Prop
  | last {xs ys : List α} : (∀ a ∈ xs, mark a = false) → (∀ a ∈ ys, mark a = false) → gap xs ys →
      Aligned mark gap xs ys
  | mark {xs ys as bs : List α} {a : α} : (∀ a ∈ xs, mark a = false) →
      (∀ a ∈ ys, mark a = false) → gap xs ys → mark a = true → Aligned mark gap as bs →
      Aligned mark gap (xs ++ a :: as) (ys ++ a :: bs)

variable {gap : List α → List α → Prop} {as bs xs ys : List α}

/-- Related pieces without a mark are put in front. -/
theorem Aligned.append (h : Aligned mark gap as bs)
    (hgap : ∀ {us vs}, gap us vs → gap (xs ++ us) (ys ++ vs))
    (hxs : ∀ a ∈ xs, mark a = false) (hys : ∀ a ∈ ys, mark a = false) :
    Aligned mark gap (xs ++ as) (ys ++ bs) := by
  cases h with
  | last has hbs h =>
    exact Aligned.last (forall_mem_append.mpr ⟨hxs, has⟩)
      (forall_mem_append.mpr ⟨hys, hbs⟩) (hgap h)
  | mark has hbs h hmark hrest =>
    rw [← append_assoc, ← append_assoc]
    exact Aligned.mark (forall_mem_append.mpr ⟨hxs, has⟩)
      (forall_mem_append.mpr ⟨hys, hbs⟩) (hgap h) hmark hrest

/-- The same marks are put in front. -/
theorem Aligned.marks (h : Aligned mark gap as bs) (hnil : gap [] []) {marks : List α}
    (hmarks : ∀ a ∈ marks, mark a = true) : Aligned mark gap (marks ++ as) (marks ++ bs) := by
  induction marks with
  | nil => exact h
  | cons a marks ih =>
    have hrest := ih fun b hb => hmarks b (mem_cons_of_mem a hb)
    have hnone : ∀ b ∈ ([] : List α), mark b = false := nofun
    exact Aligned.mark hnone hnone hnil (hmarks a mem_cons_self) hrest

end Gaps
