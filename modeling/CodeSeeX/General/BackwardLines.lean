import Mathlib.Data.List.TakeWhile
import Mathlib.Tactic

/-!
# Reading lines from the end

A content is read backwards in chunks. Each chunk is put in front of the line that
the chunk behind it left unfinished, and cut at the separators; all lines but the
first are complete then, and the first is carried on. The lines met are those of
the content in reverse order, wherever the chunks are cut.
-/
namespace CodeSeeX.BackwardLines
open List

variable {α : Type*} [DecidableEq α] (separator : α)

theorem notMem_of_mem_splitOn {content line : List α} (h : line ∈ content.splitOn separator) :
    separator ∉ line := by
  induction content generalizing line with
  | nil =>
    obtain rfl : line = [] := by simpa using h
    exact not_mem_nil
  | cons a content ih =>
    rw [splitOn_cons_eq_if_modifyHead] at h
    split_ifs at h with ha
    · rcases mem_cons.mp h with rfl | hmem
      · exact not_mem_nil
      · exact ih hmem
    · cases hlines : content.splitOn separator with
      | nil => exact absurd hlines (splitOn_ne_nil _ _)
      | cons first lines =>
        rw [hlines, modifyHead_cons, mem_cons] at h
        rw [hlines] at ih
        rcases h with rfl | hmem
        · have hfirst := ih mem_cons_self
          have hne : separator ≠ a := fun heq => ha (by simp [heq])
          simp [hne, hfirst]
        · exact ih (mem_cons_of_mem _ hmem)

/-- What stands in front of a content is joined to its first line only. -/
theorem splitOn_append {front back first : List α} {lines : List (List α)}
    (h : back.splitOn separator = first :: lines) :
    (front ++ back).splitOn separator = (front ++ first).splitOn separator ++ lines := by
  induction front with
  | nil =>
    have hfirst : separator ∉ first :=
      notMem_of_mem_splitOn separator (h ▸ mem_cons_self)
    rw [nil_append, nil_append, h, splitOn_eq_singleton hfirst,
      singleton_append]
  | cons a front ih =>
    have hne := splitOn_ne_nil separator (front ++ first)
    rw [cons_append, cons_append, splitOn_cons_eq_if_modifyHead,
      splitOn_cons_eq_if_modifyHead, ih]
    split_ifs
    · rfl
    · cases hlines : (front ++ first).splitOn separator with
      | nil => exact absurd hlines hne
      | cons line rest => rfl

/-- The lines met from `offset` down to the start, the unfinished line behind `offset` being
`carry`. -/
def backward (chunkSize : ℕ+) (content : List α) (offset : ℕ) (carry : List α) :
    List (List α) :=
  if offset = 0 then []
  else
    let start := offset - min (chunkSize : ℕ) offset
    let parts := ((content.take offset).drop start ++ carry).splitOn separator
    if 0 < start then parts.tail.reverse ++ backward chunkSize content start (parts.headD [])
    else parts.reverse
termination_by offset
decreasing_by
  have hpos := chunkSize.pos
  omega

theorem backward_eq (chunkSize : ℕ+) (content : List α) {offset : ℕ} (h : 0 < offset)
    (carry : List α) :
    backward separator chunkSize content offset carry =
      ((content.take offset ++ carry).splitOn separator).reverse := by
  induction hn : offset using Nat.strong_induction_on generalizing offset carry with
  | _ n ih =>
    subst hn
    have hpos := chunkSize.pos
    rw [backward, if_neg (by omega)]
    dsimp only
    generalize hstart : offset - min (chunkSize : ℕ) offset = start
    have hcut : content.take offset = content.take start ++ (content.take offset).drop start := by
      have htake : (content.take offset).take start = content.take start := by
        rw [take_take, min_eq_left (by omega)]
      rw [← htake, take_append_drop]
    generalize hparts : ((content.take offset).drop start ++ carry).splitOn separator = parts
    cases parts with
    | nil => exact absurd hparts (splitOn_ne_nil _ _)
    | cons first lines =>
      have hwhole : (content.take offset ++ carry).splitOn separator =
          (content.take start ++ first).splitOn separator ++ lines := by
        rw [hcut, append_assoc]
        exact splitOn_append separator hparts
      split_ifs with hmore
      · rw [tail_cons, headD_cons, ih start (by omega) hmore first rfl, hwhole,
          reverse_append]
      · obtain rfl : start = 0 := by omega
        rw [drop_zero] at hparts
        rw [hparts]

/-- The lines of a reader that goes forward: what stands before a separator, as `trimLine` leaves
it, and behind the last separator what is left, if anything is. -/
def forward (trimLine : List α → List α) (content : List α) : List (List α) :=
  match _h : content.dropWhile (· ≠ separator) with
  | [] => if content = [] then [] else [content]
  | _ :: rest => trimLine (content.takeWhile (· ≠ separator)) :: forward trimLine rest
termination_by content.length
decreasing_by
  have hle := (dropWhile_sublist (l := content) fun a => decide (a ≠ separator)).length_le
  rw [_h, length_cons] at hle
  omega

/-- The pieces between separators and the lines of the forward reader are the same to a consumer
that ignores empty lines and what is trimmed. -/
theorem filterMap_splitOn {β : Type*} (trimLine : List α → List α) (visit : List α → Option β)
    (hempty : visit [] = none) (htrim : ∀ line, visit (trimLine line) = visit line)
    (content : List α) :
    (content.splitOn separator).filterMap visit =
      (forward separator trimLine content).filterMap visit := by
  fun_induction forward separator trimLine content with
  | case1 hnone => simp [hempty]
  | case2 content hnone hne =>
    have hnotMem : separator ∉ content := by
      intro hin
      simpa using dropWhile_eq_nil_iff.mp hnone separator hin
    rw [splitOn_eq_singleton hnotMem]
  | case3 content a rest hdrop ih =>
    obtain rfl : a = separator := by
      have hhead := head?_dropWhile_not (fun b => decide (b ≠ separator)) content
      rw [hdrop] at hhead
      simpa using hhead
    have hline : a ∉ content.takeWhile (· ≠ a) := by
      intro hin
      simpa using mem_takeWhile_imp hin
    have hcontent : content = content.takeWhile (· ≠ a) ++ a :: rest := by
      rw [← hdrop, takeWhile_append_dropWhile]
    conv_lhs => rw [hcontent, splitOn_append_cons_self_of_not_mem hline]
    rw [filterMap_cons, filterMap_cons, htrim, ih]

end CodeSeeX.BackwardLines
