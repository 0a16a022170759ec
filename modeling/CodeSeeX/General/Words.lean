import Mathlib.Data.List.Basic

/-!
# Words

A text is read as words between separators, and written with one separator between two words.
What is written so is read back, and the cut of such a text with words behind it is again one.
-/
namespace Words
open List

variable {α : Type*}

/-- The words of a text: what stands between two separators, if it is not empty. -/
def words (p : α → Bool) (text : List α) : List (List α) := (text.splitOnP p).filter (· ≠ [])

def IsWord (p : α → Bool) (word : List α) : Prop := word ≠ [] ∧ ∀ c ∈ word, p c = false

/-- The words with one separator between two of them. -/
def unwords (s : α) (ws : List (List α)) : List α := [s].intercalate ws

variable {p : α → Bool} {s : α} {ws vs : List (List α)}

/-! ## Reading -/

theorem words_append_sep {c : α} (hc : p c = true) (front back : List α) :
    words p (front ++ c :: back) = words p front ++ words p back := by
  rw [words, splitOnP_append_cons front back hc, filter_append]
  rfl

theorem words_of_isWord {word : List α} (h : IsWord p word) : words p word = [word] := by
  rw [words, splitOnP_eq_singleton h.2]
  exact filter_cons_of_pos (by simpa using h.1)

@[simp] theorem words_nil : words p ([] : List α) = [] := by
  rfl

theorem isWord_of_mem_words {text word : List α} (h : word ∈ words p text) : IsWord p word := by
  obtain ⟨hmem, hne⟩ := mem_filter.mp h
  refine ⟨by simpa using hne, ?_⟩
  clear h hne
  induction text generalizing word with
  | nil =>
    rw [splitOnP_nil, mem_singleton] at hmem
    subst hmem
    exact nofun
  | cons c text ih =>
    rw [splitOnP_cons_eq_if_modifyHead] at hmem
    split_ifs at hmem with hc
    · cases mem_cons.mp hmem with
      | inl hnil => exact hnil ▸ nofun
      | inr hmem => exact ih hmem
    · cases hparts : text.splitOnP p with
      | nil => exact absurd hparts (splitOnP_ne_nil p text)
      | cons first rest =>
        rw [hparts, modifyHead_cons] at hmem
        rw [hparts] at ih
        cases mem_cons.mp hmem with
        | inl hfirst =>
          subst hfirst
          intro d hd
          cases mem_cons.mp hd with
          | inl heq => exact heq ▸ Bool.eq_false_iff.mpr hc
          | inr hmem => exact ih mem_cons_self d hmem
        | inr hrest => exact ih (mem_cons_of_mem _ hrest)

/-- Lines are read one after the other. -/
theorem words_intercalate {n : α} (hn : p n = true) (lines : List (List α)) :
    words p ([n].intercalate lines) = lines.flatMap (words p) := by
  induction lines with
  | nil => exact words_nil
  | cons line lines ih =>
    cases lines with
    | nil => simp [intercalate]
    | cons next lines =>
      have hsplit : [n].intercalate (line :: next :: lines) =
          line ++ n :: [n].intercalate (next :: lines) := by
        simp [intercalate]
      rw [hsplit, words_append_sep hn, ih]
      rfl

/-! ## Writing -/

@[simp] theorem unwords_nil : unwords s ([] : List (List α)) = [] := rfl

@[simp] theorem unwords_singleton (w : List α) : unwords s [w] = w := by
  simp [unwords, intercalate]

theorem unwords_cons {w : List α} (hne : ws ≠ []) :
    unwords s (w :: ws) = w ++ s :: unwords s ws := by
  cases ws with
  | nil => exact absurd rfl hne
  | cons v ws => simp [unwords, intercalate]

theorem unwords_append (hws : ws ≠ []) (hvs : vs ≠ []) :
    unwords s (ws ++ vs) = unwords s ws ++ s :: unwords s vs := by
  induction ws with
  | nil => exact absurd rfl hws
  | cons w ws ih =>
    by_cases hnil : ws = []
    · subst hnil
      rw [singleton_append, unwords_cons hvs, unwords_singleton]
    · rw [cons_append, unwords_cons (by simp [hnil]), ih hnil, unwords_cons hnil,
        append_assoc, cons_append]

/-- What is written in words is read back. -/
theorem words_unwords (hs : p s = true) (hws : ∀ w ∈ ws, IsWord p w) :
    words p (unwords s ws) = ws := by
  rw [unwords, words_intercalate hs]
  induction ws with
  | nil => rfl
  | cons w ws ih =>
    rw [flatMap_cons, words_of_isWord (hws w mem_cons_self),
      ih fun v hv => hws v (mem_cons_of_mem w hv), singleton_append]

/-- What more words follow begins as it did. -/
theorem unwords_prefix_append (ws vs : List (List α)) :
    unwords s ws <+: unwords s (ws ++ vs) := by
  by_cases hws : ws = []
  · subst hws
    exact nil_prefix
  · by_cases hvs : vs = []
    · simp [hvs]
    · rw [unwords_append hws hvs]
      exact prefix_append _ _

/-- Behind a common beginning the rest decides. -/
theorem unwords_prefix_iff {front : List (List α)} (hws : ws ≠ []) (hvs : vs ≠ []) :
    unwords s (front ++ ws) <+: unwords s (front ++ vs) ↔ unwords s ws <+: unwords s vs := by
  cases front with
  | nil => exact Iff.rfl
  | cons w front =>
    rw [unwords_append (cons_ne_nil w front) hws,
      unwords_append (cons_ne_nil w front) hvs, prefix_append_right_inj,
      cons_prefix_cons]
    exact and_iff_right rfl

/-! ## Cutting -/

/-- A text written in words, cut anywhere and followed by words, is written in words. -/
theorem exists_words_take (hws : ∀ w ∈ ws, IsWord p w) (hvs : ∀ v ∈ vs, IsWord p v)
    (hne : vs ≠ []) (m : ℕ) :
    ∃ us, (∀ u ∈ us, IsWord p u) ∧ us ≠ [] ∧ (unwords s ws).take m ++ unwords s vs = unwords s us := by
  induction ws generalizing m with
  | nil => exact ⟨vs, hvs, hne, by rw [unwords_nil, take_nil, nil_append]⟩
  | cons w ws ih =>
    have hword := hws w mem_cons_self
    -- The cut is inside the first word, or behind it and its separator.
    have hinside : ∃ us, (∀ u ∈ us, IsWord p u) ∧ us ≠ [] ∧
        w.take m ++ unwords s vs = unwords s us := by
      cases vs with
      | nil => exact absurd rfl hne
      | cons v vs =>
        refine ⟨(w.take m ++ v) :: vs, ?_, cons_ne_nil _ _, ?_⟩
        · intro u hu
          cases mem_cons.mp hu with
          | inr hmem => exact hvs u (mem_cons_of_mem v hmem)
          | inl heq =>
            subst heq
            have hv := hvs v mem_cons_self
            refine ⟨by simp [hv.1], fun c hc => ?_⟩
            cases mem_append.mp hc with
            | inl hmem => exact hword.2 c (mem_of_mem_take hmem)
            | inr hmem => exact hv.2 c hmem
        · by_cases hnil : vs = []
          · subst hnil
            rw [unwords_singleton, unwords_singleton]
          · rw [unwords_cons hnil, unwords_cons hnil, append_assoc]
    by_cases hnil : ws = []
    · subst hnil
      rw [unwords_singleton]
      exact hinside
    · rw [unwords_cons hnil]
      by_cases hm : m ≤ w.length
      · rw [take_append_of_le_length hm]
        exact hinside
      · obtain ⟨us, hus, husne, heq⟩ :=
          ih (fun v hv => hws v (mem_cons_of_mem w hv)) (m - w.length - 1)
        refine ⟨w :: us, ?_, cons_ne_nil _ _, ?_⟩
        · intro u hu
          cases mem_cons.mp hu with
          | inl hfirst => exact hfirst ▸ hword
          | inr hmem => exact hus u hmem
        · have hcut : m - w.length = (m - w.length - 1) + 1 := by omega
          rw [unwords_cons husne, ← heq, take_append, take_of_length_le (by omega), hcut,
            take_succ_cons, append_assoc, cons_append, Nat.add_sub_cancel]

end Words
