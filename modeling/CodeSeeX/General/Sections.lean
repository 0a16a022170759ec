import Mathlib.Tactic

/-!
# Lists in sections

Some elements of a list are marks: a mark closes the open section, if there is one, may open
another and leaves a state behind. What a list yields is collected from the bodies of its
sections, each as a whole, and from the other elements one by one. Everything here holds
for lists over any type.
-/
namespace CodeSeeX.Sections
open Option List

variable {σ α β : Type*}

/-- What an element means in a state: a mark with the state behind it and whether it opens a
section, or nothing. -/
abbrev Marking (σ α : Type*) := σ → α → Option (σ × Bool)

/-- The section that a mark opens. -/
def opened (opens : Bool) : Option (List α) := if opens then some [] else none

section
variable (mark : Marking σ α)

/-- What the bodies and the other elements yield; `held` is what the open section holds. -/
def collect (f : List α → List β) (g : α → List β) : σ → Option (List α) → List α → List β
  | _, held, [] => (held.map f).getD []
  | s, held, a :: rest =>
      match mark s a with
      | some (s', opens) => (held.map f).getD [] ++ (g a ++ collect f g s' (opened opens) rest)
      | none =>
          match held with
          | some body => collect f g s (some (body ++ [a])) rest
          | none => g a ++ collect f g s none rest

/-- The list with every body rewritten. -/
def rewrite (f : List α → List α) : σ → Option (List α) → List α → List α :=
  collect mark f fun a => [a]

/-- The bodies of the sections. -/
def bodies : σ → Option (List α) → List α → List (List α) :=
  collect mark (fun body => [body]) fun _ => []

/-- Which elements are in the body of a section. -/
def inBody : σ → Bool → List α → List Bool
  | _, _, [] => []
  | s, isOpen, a :: rest =>
      match mark s a with
      | some (s', opens) => false :: inBody s' opens rest
      | none => isOpen :: inBody s isOpen rest

end

variable {mark : Marking σ α} {f : List α → List α}

@[simp] theorem inBody_length (s : σ) (isOpen : Bool) (xs : List α) :
    (inBody mark s isOpen xs).length = xs.length := by
  induction xs generalizing s isOpen with
  | nil => rfl
  | cons a rest ih =>
    simp only [inBody]
    split <;> simp [ih]

/-- No element is a mark. -/
def Unmarked (mark : Marking σ α) (s : σ) (body : List α) : Prop := ∀ a ∈ body, mark s a = none

theorem Unmarked.append {s : σ} {body : List α} {a : α} (h : Unmarked mark s body)
    (ha : mark s a = none) : Unmarked mark s (body ++ [a]) := by
  intro b hb
  rcases mem_append.mp hb with hb | hb
  · exact h b hb
  · rw [mem_singleton.mp hb]
    exact ha

theorem unmarked_opened {s : σ} {opens : Bool} : ∀ body ∈ opened opens, Unmarked mark s body := by
  intro body hbody
  cases opens with
  | true =>
    obtain rfl : [] = body := by simpa [opened] using hbody
    exact fun a ha => absurd ha not_mem_nil
  | false => simp [opened] at hbody

/-- Elements without a mark are read into the open section. -/
theorem collect_unmarked {h : List α → List β} {g : α → List β} {s : σ} {body front rest : List α}
    (hfront : Unmarked mark s front) : collect mark h g s (some body) (front ++ rest) =
      collect mark h g s (some (body ++ front)) rest := by
  induction front generalizing body with
  | nil => simp
  | cons a front ih =>
    have ha : mark s a = none := hfront a mem_cons_self
    rw [cons_append, collect, ha]
    rw [ih fun b hb => hfront b (mem_cons_of_mem a hb), append_assoc,
      singleton_append]

/-- A list without a mark has no section to rewrite. -/
theorem rewrite_unmarked {s : σ} {xs : List α} (h : Unmarked mark s xs) :
    rewrite mark f s none xs = xs := by
  unfold rewrite
  induction xs with
  | nil => rfl
  | cons a rest ih =>
    have ha : mark s a = none := h a mem_cons_self
    rw [collect, ha]
    rw [ih fun b hb => h b (mem_cons_of_mem a hb), singleton_append]

/-- A rewriting that makes no marks. -/
def KeepsUnmarked (mark : Marking σ α) (f : List α → List α) : Prop :=
  ∀ s body, Unmarked mark s body → Unmarked mark s (f body)

/-- The section in which the second reading starts. -/
def restarted (held : Option (List α)) : Option (List α) := held.map fun _ => []

theorem restarted_opened (opens : Bool) : restarted (opened opens) = opened (α := α) opens := by
  cases opens <;> rfl

/-- What a rewritten list yields is what the list yields from its rewritten bodies. -/
theorem collect_rewrite (hf : KeepsUnmarked mark f) (h : List α → List β) (g : α → List β) {s : σ}
    {held : Option (List α)} (hheld : ∀ body ∈ held, Unmarked mark s body) (xs : List α) :
    collect mark h g s (restarted held) (rewrite mark f s held xs) =
      collect mark (h ∘ f) g s held xs := by
  unfold rewrite
  induction xs generalizing s held with
  | nil =>
    cases held with
    | none => rfl
    | some body =>
      have hread := @collect_unmarked _ _ _ mark h g s [] (f body) [] (hf s body (hheld body rfl))
      simpa [collect, restarted] using hread
  | cons a rest ih =>
    cases hmark : mark s a with
    | some outcome =>
      obtain ⟨s', opens⟩ := outcome
      have hlater := @ih s' (opened opens) unmarked_opened
      rw [restarted_opened] at hlater
      cases held with
      | none => simp [collect, hmark, restarted, hlater]
      | some body =>
        have hread := @collect_unmarked _ _ _ mark h g s [] (f body)
          (a :: collect mark f (fun a => [a]) s' (opened opens) rest)
          (hf s body (hheld body rfl))
        simp only [collect, hmark, restarted, map_some, getD_some,
          Function.comp_apply, singleton_append]
        rw [hread, nil_append, collect, hmark]
        simp [hlater]
    | none =>
      cases held with
      | none =>
        have hrest := @ih s none (by simp)
        simp only [restarted, map_none] at hrest
        simp [collect, hmark, restarted, hrest]
      | some body =>
        have hgrown : ∀ grown ∈ some (body ++ [a]), Unmarked mark s grown := by
          rintro grown ⟨⟩
          exact (hheld body rfl).append hmark
        have hrest := ih hgrown
        simpa [collect, hmark, restarted] using hrest

/-- Rewriting a rewritten list changes nothing where rewritten bodies are fixed points. -/
theorem rewrite_twice (hf : KeepsUnmarked mark f) (htwice : ∀ body, f (f body) = f body) (s : σ)
    (xs : List α) : rewrite mark f s none (rewrite mark f s none xs) =
      rewrite mark f s none xs := by
  have hread := @collect_rewrite _ _ _ mark f hf f (fun a => [a]) s none (by simp) xs
  have hcomp : f ∘ f = f := funext htwice
  rw [hcomp] at hread
  exact hread

/-- The bodies of a rewritten list are the rewritten bodies. -/
theorem bodies_rewrite (hf : KeepsUnmarked mark f) (s : σ) (xs : List α) :
    bodies mark s none (rewrite mark f s none xs) = (bodies mark s none xs).map f := by
  have hread := @collect_rewrite _ _ _ mark f hf (fun body => [body]) (fun _ => []) s none
    (by simp) xs
  have hmap : ∀ (s : σ) (held : Option (List α)) (xs : List α),
      collect mark ((fun body => [body]) ∘ f) (fun _ => []) s held xs =
        (bodies mark s held xs).map f := by
    unfold bodies
    intro s held xs
    induction xs generalizing s held with
    | nil => cases held <;> simp [collect]
    | cons a rest ih =>
      cases hmark : mark s a with
      | some outcome =>
        cases held <;> simp [collect, hmark, ih]
      | none =>
        cases held <;> simp [collect, hmark, ih]
  rw [← hmap s none xs]
  exact hread

/-- An element of a rewritten list: as it was, or changed in the body of a section. -/
def Kept (r : α → α → Prop) (place : α × Bool) (b : α) : Prop :=
  b = place.1 ∨ (place.2 = true ∧ r place.1 b)

/-- Where rewriting a body changes its elements one by one, rewriting a list does. -/
theorem rewrite_kept {r : α → α → Prop}
    (hf : ∀ body, List.Forall₂ (fun a b => b = a ∨ r a b) body (f body)) (s : σ)
    (held : Option (List α)) (xs : List α) : List.Forall₂ (Kept r)
      ((held.getD []).map (fun a => (a, true)) ++ xs.zip (inBody mark s held.isSome xs))
      (rewrite mark f s held xs) := by
  have hbody : ∀ held : Option (List α), Forall₂ (Kept r)
      ((held.getD []).map fun a => (a, true)) ((held.map f).getD []) := by
    intro held
    cases held with
    | none => exact Forall₂.nil
    | some body =>
      rw [getD_some, map_some, getD_some, forall₂_map_left_iff]
      exact (hf body).imp fun a b hab => hab.imp id fun hr => ⟨rfl, hr⟩
  unfold rewrite
  induction xs generalizing s held with
  | nil => simpa [collect, inBody] using hbody held
  | cons a rest ih =>
    cases hmark : mark s a with
    | some outcome =>
      obtain ⟨s', opens⟩ := outcome
      have hlater := ih s' (opened opens)
      have hempty : ((opened (α := α) opens).getD []) = [] := by cases opens <;> rfl
      have hopen : (opened (α := α) opens).isSome = opens := by cases opens <;> rfl
      rw [hempty, hopen, map_nil, nil_append] at hlater
      simp only [collect, inBody, hmark]
      exact rel_append (hbody held) (Forall₂.cons (Or.inl rfl) hlater)
    | none =>
      cases held with
      | none =>
        have hrest := ih s none
        rw [collect, inBody, hmark]
        exact Forall₂.cons (Or.inl rfl) hrest
      | some body =>
        have hrest := ih s (some (body ++ [a]))
        rw [collect, inBody, hmark]
        simpa using hrest

end CodeSeeX.Sections
