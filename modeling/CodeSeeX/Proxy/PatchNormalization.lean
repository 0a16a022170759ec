import CodeSeeX.General.BackwardLines
import CodeSeeX.General.Sections
import CodeSeeX.Proxy.PatchRepair

/-!
# What normalization makes of a patch

The pass over blank context lines rewrites the hunks of updated files, each as a whole.
From this its results on lines follow: which lines normalization may change, and when a
second normalization finds nothing to do.
-/
namespace CodeSeeX.Native

open Sections List Option

variable (body : List Text) (line : Text) (inUpdateFile : Bool) (value : Text) (lines : List Text)

/-! ## Hunks -/

/-- The lines that end a hunk or begin one; the state is whether a file is being updated. -/
def patchMark : Marking Bool Text := fun inUpdateFile line =>
  if line.startsWith "*** Update File: " then some (true, false)
  else if line.startsWith "*** Add File: " || line.startsWith "*** Delete File: " ||
      line.startsWith "*** End Patch" then some (false, false)
  else if line.startsWith "*** Move to: " then some (inUpdateFile, false)
  else if inUpdateFile && line.startsWith "@@" then some (inUpdateFile, true)
  else none

/-- A line of a hunk that is neither blank nor context, addition or removal. -/
def isUnprefixed (line : Text) : Bool :=
  line ≠ [] ∧ line.head? ∉ [some ' ', some '+', some '-']

def repairBlank (line : Text) : Text := if line = [] then [' '] else line

/-- The lines of a hunk after its repair. -/
def repairBody (body : List Text) : List Text :=
  if body.any isUnprefixed then body else body.map repairBlank

/-- How many lines of a hunk are repaired. -/
def repairedBlanks (body : List Text) : ℕ := if body.any isUnprefixed then 0 else body.count []

@[simp] theorem repairBody_length : (repairBody body).length = body.length := by
  rw [repairBody]
  split_ifs <;> simp

theorem repairBlank_ne_nil : repairBlank line ≠ [] := by
  rw [repairBlank]
  split_ifs with h
  · simp
  · exact h

theorem isUnprefixed_repairBlank :
    isUnprefixed (repairBlank line) = isUnprefixed line := by
  rw [repairBlank]
  split_ifs with h
  · subst h
    decide
  · rfl

theorem any_repairBody :
    (repairBody body).any isUnprefixed = body.any isUnprefixed := by
  rw [repairBody]
  split_ifs
  · rfl
  · rw [List.any_map]
    exact congrArg (any body) (funext isUnprefixed_repairBlank)

theorem repairBody_twice : repairBody (repairBody body) = repairBody body := by
  by_cases h : body.any isUnprefixed
  · have hsame : repairBody body = body := if_pos h
    rw [hsame, hsame]
  · have hmap : repairBody body = body.map repairBlank := if_neg h
    have hagain : repairBody (repairBody body) = (repairBody body).map repairBlank :=
      if_neg (by rwa [any_repairBody])
    rw [hagain, hmap, List.map_map]
    refine map_congr_left fun line _ => ?_
    exact if_neg (repairBlank_ne_nil line)

theorem repairedBlanks_repairBody : repairedBlanks (repairBody body) = 0 := by
  rw [repairedBlanks, any_repairBody]
  split_ifs with h
  · rfl
  · rw [repairBody, if_neg h, count_eq_zero]
    intro hmem
    obtain ⟨line, _, hline⟩ := mem_map.mp hmem
    exact repairBlank_ne_nil line hline

theorem patchMark_space : patchMark inUpdateFile [' '] = none := by
  cases inUpdateFile <;> decide

theorem repairBody_keepsUnmarked : KeepsUnmarked patchMark repairBody := by
  intro inUpdateFile body hbody line hline
  rw [repairBody] at hline
  split_ifs at hline
  · exact hbody line hline
  · obtain ⟨earlier, hearlier, rfl⟩ := mem_map.mp hline
    rw [repairBlank]
    split_ifs
    · exact patchMark_space inUpdateFile
    · exact hbody earlier hearlier

/-- The lines of a patch after the pass over its hunks. -/
def repairHunks (lines : List Text) : List Text := rewrite patchMark repairBody false none lines

/-- The lines of its hunks. -/
def hunkBodies (lines : List Text) : List (List Text) := bodies patchMark false none lines

/-- Which lines are in a hunk of an updated file, behind the line that begins the hunk. -/
def inHunk (lines : List Text) : List Bool := inBody patchMark false false lines

/-! ## The pass -/

/-- The indexes of the blank lines of a hunk that begins at an index. -/
def blankIndexes : ℕ → List Text → List ℕ
  | _, [] => []
  | start, line :: body =>
      if line = [] then start :: blankIndexes (start + 1) body else blankIndexes (start + 1) body

theorem blankIndexes_append (start : ℕ) (body : List Text) (line : Text) :
    blankIndexes start (body ++ [line]) =
      blankIndexes start body ++ if line = [] then [start + body.length] else [] := by
  induction body generalizing start with
  | nil => simp [blankIndexes]
  | cons first body ih =>
    rw [cons_append, blankIndexes, blankIndexes, ih, length_cons]
    have hsum : start + 1 + body.length = start + (body.length + 1) := by omega
    rw [hsum]
    split_ifs <;> simp

namespace BlankLinePass

/-- The pass behind the lines `out` and the lines of the open hunk. -/
def behind (out : List Text) (held : Option (List Text)) (rest : List Text) (inUpdateFile : Bool)
    (repaired : ℕ) : BlankLinePass where
  lines := out ++ held.getD [] ++ rest
  inUpdateFile := inUpdateFile
  hunkRepair := held.map fun body => ⟨blankIndexes out.length body, body.any isUnprefixed⟩
  repaired := repaired

/-- The repair of the collected lines. -/
theorem repair_fold (out body rest : List Text) (pass : BlankLinePass)
    (hlines : pass.lines = out ++ body ++ rest) :
    (blankIndexes out.length body).foldl (fun (pass : BlankLinePass) index =>
      if pass.lines[index]? = some [] then
        { pass with lines := pass.lines.set index [' '], repaired := pass.repaired + 1 }
      else pass) pass =
    { pass with
      lines := out ++ body.map repairBlank ++ rest, repaired := pass.repaired + body.count [] } := by
  induction body generalizing out pass with
  | nil =>
    simp only [blankIndexes, foldl_nil, map_nil, count_nil, Nat.add_zero]
    rw [← hlines]
  | cons line body ih =>
    have hlength : out.length + 1 = (out ++ [repairBlank line]).length := by simp
    by_cases hline : line = []
    · subst hline
      have hget : pass.lines[out.length]? = some [] := by
        rw [hlines]
        simp
      have hset : pass.lines.set out.length [' '] = out ++ [repairBlank []] ++ body ++ rest := by
        rw [hlines]
        simp [repairBlank]
      rw [blankIndexes, if_pos rfl, foldl_cons, if_pos hget, hlength, ih _ _ hset]
      simp
      omega
    · have hshape : pass.lines = out ++ [repairBlank line] ++ body ++ rest := by
        rw [hlines, repairBlank, if_neg hline]
        simp
      rw [blankIndexes, if_neg hline, hlength, ih _ _ hshape]
      simp [hline]

section
variable (out : List Text) (held : Option (List Text))
include held

theorem finish_behind (rest : List Text)
    (inUpdateFile : Bool) (repaired : ℕ) :
    (behind out held rest inUpdateFile repaired).finishHunkBlankRepair =
      behind (out ++ (held.map repairBody).getD []) none rest inUpdateFile
        (repaired + (held.map repairedBlanks).getD 0) := by
  cases held with
  | none => simp [behind, finishHunkBlankRepair]
  | some body =>
    simp only [behind, finishHunkBlankRepair, map_some, getD_some]
    by_cases hany : body.any isUnprefixed
    · simp [hany, repairBody, repairedBlanks]
    · rw [if_neg hany, repair_fold out body rest _ rfl]
      simp [hany, repairBody, repairedBlanks]

/-- One line of the pass: a mark finishes the open hunk, another line joins it. -/
theorem step_behind (rest : List Text) (inUpdateFile : Bool) (repaired : ℕ) :
    (behind out held (line :: rest) inUpdateFile repaired).step (out ++ held.getD []).length =
      match patchMark inUpdateFile line with
      | some (inUpdateFile', opens) =>
          behind (out ++ (held.map repairBody).getD [] ++ [line]) (opened opens) rest inUpdateFile'
            (repaired + (held.map repairedBlanks).getD 0)
      | none =>
          match held with
          | some body => behind out (some (body ++ [line])) rest inUpdateFile repaired
          | none => behind (out ++ [line]) none rest inUpdateFile repaired := by
  have hline : (behind out held (line :: rest) inUpdateFile repaired).lines.getD
      (out ++ held.getD []).length [] = line := by
    simp [behind]
  have hflag : (behind out held (line :: rest) inUpdateFile repaired).inUpdateFile =
      inUpdateFile := rfl
  have hfinish := finish_behind out held (line :: rest) inUpdateFile repaired
  simp only [step, hline, hflag, patchMark]
  by_cases hupdate : line.startsWith "*** Update File: " = true
  · simp only [hupdate, if_true, hfinish]
    simp [behind, opened]
  by_cases hclose : (line.startsWith "*** Add File: " || line.startsWith "*** Delete File: " ||
      line.startsWith "*** End Patch") = true
  · simp only [hupdate, hclose, if_true, hfinish]
    simp [behind, opened]
  by_cases hmove : line.startsWith "*** Move to: " = true
  · simp only [hupdate, hclose, hmove, if_true, hfinish]
    simp [behind, opened]
  by_cases hheader : (inUpdateFile && line.startsWith "@@") = true
  · simp only [hupdate, hclose, hmove, hheader, if_true, hfinish]
    simp [behind, opened, blankIndexes]
  simp only [hupdate, hclose, hmove, hheader]
  cases held with
  | none => simp [behind]
  | some body =>
    simp only [behind, map_some, getD_some, blankIndexes_append, any_append]
    by_cases hblank : line = []
    · subst hblank
      simp [isUnprefixed]
    · by_cases hprefixed : line.head? ∈ [some ' ', some '+', some '-']
      · have hunprefixed : isUnprefixed line = false := by simp [isUnprefixed, hprefixed]
        rw [if_neg hblank, if_pos hprefixed]
        simp [hblank, hunprefixed]
      · have hunprefixed : isUnprefixed line = true := by simp [isUnprefixed, hblank, hprefixed]
        rw [if_neg hblank, if_neg hprefixed]
        simp [hblank, hunprefixed]

/-- The whole pass, from any point on. -/
theorem steps_behind (rest : List Text)
    (inUpdateFile : Bool) (repaired : ℕ) :
    let pass := ((range' (out ++ held.getD []).length rest.length).foldl step
      (behind out held rest inUpdateFile repaired)).finishHunkBlankRepair
    pass.lines = out ++ rewrite patchMark repairBody inUpdateFile held rest ∧
      pass.repaired = repaired +
        ((bodies patchMark inUpdateFile held rest).map repairedBlanks).sum := by
  induction rest generalizing out held inUpdateFile repaired with
  | nil =>
    simp only [length_nil, range'_zero, foldl_nil, finish_behind]
    cases held <;> simp [behind, rewrite, bodies, collect]
  | cons line rest ih =>
    rw [length_cons, range'_succ, foldl_cons, step_behind]
    cases hmark : patchMark inUpdateFile line with
    | some outcome =>
      obtain ⟨inUpdateFile', opens⟩ := outcome
      have hempty : (opened (α := Text) opens).getD [] = [] := by cases opens <;> rfl
      have hnext := ih (out ++ (held.map repairBody).getD [] ++ [line]) (opened opens)
        inUpdateFile' (repaired + (held.map repairedBlanks).getD 0)
      have hlength : (out ++ (held.map repairBody).getD [] ++ [line] ++
          (opened (α := Text) opens).getD []).length = (out ++ held.getD []).length + 1 := by
        cases held <;> simp [hempty, Nat.add_assoc]
      rw [hlength] at hnext
      simp only [hnext]
      cases held <;> simp [rewrite, bodies, collect, hmark, Nat.add_assoc]
    | none =>
      cases held with
      | none =>
        have hnext := ih (out ++ [line]) none inUpdateFile repaired
        have hlength : (out ++ [line] ++ (none : Option (List Text)).getD []).length =
            (out ++ (none : Option (List Text)).getD []).length + 1 := by simp
        rw [hlength] at hnext
        simp only [hnext]
        simp [rewrite, bodies, collect, hmark]
      | some body =>
        have hnext := ih out (some (body ++ [line])) inUpdateFile repaired
        have hlength : (out ++ (some (body ++ [line])).getD []).length =
            (out ++ (some body).getD []).length + 1 := by simp [Nat.add_assoc]
        rw [hlength] at hnext
        simp only [hnext]
        simp [rewrite, bodies, collect, hmark]

end

end BlankLinePass

/-- The pass rewrites the hunks and counts what it repaired. -/
theorem repairUpdateHunk_eq :
    repairUpdateHunkBlankContextLinesWithCount value =
      (Text.join ['\n'] (repairHunks (value.splitOn '\n')),
        ((hunkBodies (value.splitOn '\n')).map repairedBlanks).sum) := by
  have hpass := BlankLinePass.steps_behind [] none (value.splitOn '\n') false 0
  have hstart : BlankLinePass.behind [] none (value.splitOn '\n') false 0 =
      { lines := value.splitOn '\n' } := rfl
  simp only [hstart, nil_append, getD_none, length_nil, Nat.zero_add,
    ← range_eq_range'] at hpass
  rw [repairUpdateHunkBlankContextLinesWithCount, repairHunks, hunkBodies, ← hpass.1, ← hpass.2]

/-! ## Lines -/

/-- A text with line feeds as its only line endings. -/
def unixNewlines (value : Text) : Text :=
  Text.replace ['\r'] ['\n'] (Text.replace ['\r', '\n'] ['\n'] value)

/-- The lines of a patch, whatever their endings are. -/
def patchLines (value : Text) : List Text := (unixNewlines value).splitOn '\n'

/-- What follows the ranges of a unified hunk header. -/
def hunkTail (line : Text) : Option Text := do
  let rest ← stripStart "@@ -" line
  let (_, rest) ← takeUnifiedRange rest
  let rest ← stripStart " +" rest
  let (_, rest) ← takeUnifiedRange rest
  (stripStart " @@" rest).map Text.trimStart

def isUnifiedHunkHeader (line : Text) : Bool := (hunkTail line).isSome

/-- The header of a patch for what followed a unified hunk header. -/
def hunkHeader (tail : Text) : Text := if tail = [] then "@@" else ("@@ " : Text) ++ tail

/-- The line that a normalized patch has for a line. -/
def normalLine (line : Text) : Text := (normalizeUnifiedHunkHeader line).getD line

theorem normalizeUnifiedHunkHeader_eq :
    normalizeUnifiedHunkHeader line = (hunkTail line).map hunkHeader := by
  simp only [normalizeUnifiedHunkHeader, hunkTail, bind_eq_bind, map_eq_bind,
    bind_assoc, Function.comp_def, bind_some]
  refine congrArg _ (funext fun rest => congrArg _ (funext fun range => congrArg _
    (funext fun rest => congrArg _ (funext fun range => congrArg _ (funext fun rest => ?_)))))
  rw [hunkHeader]
  split_ifs <;> rfl

theorem takeUnifiedRange_suffix {value range rest : Text}
    (h : takeUnifiedRange value = some (range, rest)) : rest <:+ value := by
  simp only [takeUnifiedRange] at h
  split_ifs at h with hdigits
  have hdrop : ∀ n, value.drop n <:+ value := fun n => drop_suffix n value
  split at h
  · rename_i digitsRest hcomma
    split_ifs at h with hcount
    obtain ⟨_, rfl⟩ := Prod.mk.inj (some.inj h)
    have hbehind : digitsRest <:+ value := by
      refine IsSuffix.trans ?_ (hdrop (value.takeWhile Char.isDigit).length)
      rw [hcomma]
      exact suffix_cons _ _
    exact (drop_suffix _ _).trans hbehind
  · obtain ⟨_, rfl⟩ := Prod.mk.inj (some.inj h)
    exact hdrop _

/-- A unified hunk header begins as the headers of a patch do, and ends with its tail. -/
theorem hunkTail_eq_some {line tail : Text} (h : hunkTail line = some tail) :
    ("@@ -" : Text) <+: line ∧ tail <:+ line := by
  simp only [hunkTail, bind_eq_bind, bind_eq_some_iff, map_eq_some_iff,
    Prod.exists] at h
  obtain ⟨first, hfirst, oldRange, second, hold, third, hthird, newRange, fourth, hnew, fifth,
    hfifth, rfl⟩ := h
  have hline := stripStart_eq_some hfirst
  refine ⟨hline ▸ prefix_append _ _, ?_⟩
  have hsteps : fifth <:+ line := by
    have hthird' : third <:+ second := stripStart_eq_some hthird ▸ suffix_append _ _
    have hfifth' : fifth <:+ fourth := stripStart_eq_some hfifth ▸ suffix_append _ _
    have hfirst' : first <:+ line := hline ▸ suffix_append _ _
    exact hfifth'.trans ((takeUnifiedRange_suffix hnew).trans
      (hthird'.trans ((takeUnifiedRange_suffix hold).trans hfirst')))
  exact (dropWhile_suffix _).trans hsteps

theorem normalLine_of_none {line : Text} (h : hunkTail line = none) : normalLine line = line := by
  rw [normalLine, normalizeUnifiedHunkHeader_eq, h]
  rfl

theorem normalLine_of_some {line tail : Text} (h : hunkTail line = some tail) :
    normalLine line = hunkHeader tail := by
  rw [normalLine, normalizeUnifiedHunkHeader_eq, h]
  rfl

theorem starts_hunkHeader (tail : Text) : ("@@" : Text) <+: hunkHeader tail := by
  rw [hunkHeader]
  split_ifs
  · exact prefix_refl _
  · have hsplit : ("@@ " : Text) = ("@@" : Text) ++ [' '] := by decide
    rw [hsplit, append_assoc]
    exact prefix_append _ _

/-- What is the same of all hunk headers is the same of a line and of its normal form. -/
theorem read_normalLine {α : Type} {read : Text → α} {value : α}
    (hheader : ∀ header : Text, ("@@" : Text) <+: header → read header = value) (line : Text) :
    read (normalLine line) = read line := by
  cases htail : hunkTail line with
  | none => rw [normalLine_of_none htail]
  | some tail =>
    have hline : ("@@" : Text) <+: line :=
      IsPrefix.trans (by decide) (hunkTail_eq_some htail).1
    rw [normalLine_of_some htail, hheader _ (starts_hunkHeader tail), hheader _ hline]

theorem patchMark_normalLine (line : Text) :
    patchMark inUpdateFile (normalLine line) = patchMark inUpdateFile line := by
  have hheader : ∀ header : Text, ("@@" : Text) <+: header → patchMark inUpdateFile header =
      if inUpdateFile then some (inUpdateFile, true) else none := by
    rintro header ⟨rest, rfl⟩
    have hstart : ("@@" : Text) ++ rest = '@' :: '@' :: rest := rfl
    rw [hstart, patchMark]
    simp [Text.startsWith, Text.lit]
  exact read_normalLine hheader line

theorem notMem_normalLine {line : Text} {c : Char} (hc : c ∉ ("@@ " : Text)) (h : c ∉ line) :
    c ∉ normalLine line := by
  cases htail : hunkTail line with
  | none => rwa [normalLine_of_none htail]
  | some tail =>
    have hbehind : c ∉ tail := fun hmem => h ((hunkTail_eq_some htail).2.subset hmem)
    rw [normalLine_of_some htail, hunkHeader]
    split_ifs
    · exact fun hmem => hc (by simpa [Text.lit] using mem_append_left [' '] hmem)
    · exact fun hmem => (mem_append.mp hmem).elim hc hbehind

/-- How a normalized line may differ from the line of the hunk pass. -/
def BlankMadeContext (line out : Text) : Prop := line = [] ∧ out = [' ']

theorem repairHunks_kept :
    List.Forall₂ (Kept BlankMadeContext) (lines.zip (inHunk lines)) (repairHunks lines) := by
  have hbody : ∀ body : List Text, Forall₂ (fun line out => out = line ∨
      BlankMadeContext line out) body (repairBody body) := by
    intro body
    rw [repairBody]
    split_ifs
    · exact forall₂_same.mpr fun line _ => .inl rfl
    · rw [forall₂_map_right_iff]
      refine forall₂_same.mpr fun line _ => ?_
      rw [repairBlank]
      split_ifs with hline
      · exact .inr ⟨hline, rfl⟩
      · exact .inl rfl
  exact rewrite_kept hbody false none lines

/-- The lines behind the pass over the hunks, through a function that does not tell a blank
line from a space. -/
theorem map_repairHunks {β : Type*} (g : Text → β) (hg : g [' '] = g []) (lines : List Text) :
    (repairHunks lines).map g = lines.map g := by
  have hsame : Forall₂ (fun place out => g (Prod.fst place) = g out)
      (lines.zip (inHunk lines)) (repairHunks lines) := by
    refine (repairHunks_kept lines).imp fun place out hkept => ?_
    rcases hkept with rfl | ⟨_, hblank, rfl⟩
    · rfl
    · rw [hblank, hg]
  have hmaps : Forall₂ Eq ((lines.zip (inHunk lines)).map fun place => g place.1)
      ((repairHunks lines).map g) := by
    rw [forall₂_map_left_iff, forall₂_map_right_iff]
    exact hsame
  rw [forall₂_eq_eq_eq] at hmaps
  have hfirst : (lines.zip (inHunk lines)).map Prod.fst = lines :=
    map_fst_zip (by simp [inHunk])
  rw [← hmaps, ← Function.comp_def g Prod.fst, ← List.map_map, hfirst]

theorem normalizeUnifiedHunkHeaders_eq :
    normalizeUnifiedHunkHeadersWithCount value =
      (Text.join ['\n'] ((value.splitOn '\n').map normalLine),
        (value.splitOn '\n').countP isUnifiedHunkHeader) := by
  have hcount : (fun line => (normalizeUnifiedHunkHeader line).isSome) = isUnifiedHunkHeader := by
    funext line
    rw [normalizeUnifiedHunkHeader_eq, isSome_map, isUnifiedHunkHeader]
  rw [normalizeUnifiedHunkHeadersWithCount, hcount]
  rfl

theorem notMem_replace {c d : Char} (hne : c ≠ d) (value : Text) :
    c ∉ Text.replace [c] [d] value := by
  fun_induction Text.replace [c] [d] value with
  | case1 _ hnil => simp at hnil
  | case2 value _ hnone =>
    have hinfix := Infix.splitFirst_eq_none.mp hnone
    exact fun hmem => hinfix ((singleton_infix_iff _ _).mpr hmem)
  | case3 value _ before rest hsome ih =>
    have hbefore := Infix.splitFirst_not_infix (by simp) hsome
    simp only [mem_append, not_or]
    refine ⟨⟨?_, by simpa using hne⟩, ih⟩
    exact fun hmem => hbefore ((singleton_infix_iff _ _).mpr hmem)

/-- A text without carriage returns keeps its line endings. -/
theorem unixNewlines_of_notMem {value : Text} (h : '\r' ∉ value) : unixNewlines value = value := by
  have hnone : ∀ pat : Text, '\r' ∈ pat → ∀ by_, Text.replace pat by_ value = value :=
    fun pat hpat by_ => Text.replace_of_not_infix (ne_nil_of_mem hpat)
      (Infix.not_infix_of_notMem hpat h) by_
  rw [unixNewlines, hnone _ (by simp), hnone _ (by simp)]

theorem notMem_join {c : Char} (hc : c ≠ '\n') {lines : List Text} :
    c ∉ Text.join ['\n'] lines ↔ ∀ line ∈ lines, c ∉ line := by
  have hread := @Infix.infix_intercalate_iff _ [c] '\n' lines (by simp) (by simpa using hc.symm)
  simp only [singleton_infix_iff] at hread
  rw [Text.join, hread]
  simp

theorem notMem_patchLines {value line : Text} (h : line ∈ patchLines value) :
    '\n' ∉ line ∧ '\r' ∉ line := by
  refine ⟨BackwardLines.notMem_of_mem_splitOn '\n' h, ?_⟩
  have hjoin : Text.join ['\n'] (patchLines value) = unixNewlines value :=
    intercalate_splitOn '\n'
  have hnone : '\r' ∉ Text.join ['\n'] (patchLines value) := by
    rw [hjoin]
    exact notMem_replace (by decide) _
  exact (notMem_join (by decide)).mp hnone line h

/-- The lines of a normalized patch. -/
def normalLines (value : Text) : List Text := repairHunks ((patchLines value).map normalLine)

theorem normalLines_ne_nil : normalLines value ≠ [] := by
  intro hnil
  have hlines := map_repairHunks (fun _ => ()) rfl ((patchLines value).map normalLine)
  rw [← normalLines, hnil, map_nil, eq_comm, map_eq_nil_iff, map_eq_nil_iff] at hlines
  exact splitOn_ne_nil _ _ hlines

theorem notMem_normalLines {value line : Text} (h : line ∈ normalLines value) :
    '\n' ∉ line ∧ '\r' ∉ line := by
  have hsame : ∀ c, c ≠ ' ' → (normalLines value).map (fun line => decide (c ∉ line)) =
      ((patchLines value).map normalLine).map fun line => decide (c ∉ line) := by
    intro c hc
    exact map_repairHunks _ (by simpa using hc) _
  have hnone : ∀ c, c ≠ ' ' → c ∉ ("@@ " : Text) → (∀ line ∈ patchLines value, c ∉ line) →
      c ∉ line := by
    intro c hspace hheader hlines
    have hmem := mem_map_of_mem (f := fun line => decide (c ∉ line)) h
    rw [hsame c hspace] at hmem
    obtain ⟨normal, hnormal, heq⟩ := mem_map.mp hmem
    obtain ⟨source, hsource, rfl⟩ := mem_map.mp hnormal
    have hfree := notMem_normalLine hheader (hlines source hsource)
    simpa [hfree] using heq.symm
  exact ⟨hnone '\n' (by decide) (by decide) fun line hline => (notMem_patchLines hline).1,
    hnone '\r' (by decide) (by decide) fun line hline => (notMem_patchLines hline).2⟩

/-- What normalization gives, and what it counts. -/
theorem normalizePatch_eq :
    let normalized := normalizePatchNewlinesWithDiagnostic value
    normalized.input = Text.join ['\n'] (normalLines value) ∧
      normalized.unifiedHunkHeadersRepaired = (patchLines value).countP isUnifiedHunkHeader ∧
      normalized.blankContextLinesRepaired =
        ((hunkBodies ((patchLines value).map normalLine)).map repairedBlanks).sum := by
  have hsplit : (Text.join ['\n'] ((patchLines value).map normalLine)).splitOn '\n' =
      (patchLines value).map normalLine := by
    refine splitOn_intercalate '\n' (fun line hline => ?_) ?_
    · obtain ⟨source, hsource, rfl⟩ := mem_map.mp hline
      exact notMem_normalLine (by decide) (notMem_patchLines hsource).1
    · exact fun hnil => splitOn_ne_nil _ _ (map_eq_nil_iff.mp hnil)
  simp only [normalizePatchNewlinesWithDiagnostic, normalizeUnifiedHunkHeaders_eq,
    repairUpdateHunk_eq]
  rw [← unixNewlines, ← patchLines, hsplit]
  exact ⟨rfl, rfl, rfl⟩

/-- The lines of a normalized patch are read back from it. -/
theorem patchLines_normalized :
    patchLines (normalizePatchNewlinesWithDiagnostic value).input = normalLines value := by
  have hreturn : '\r' ∉ Text.join ['\n'] (normalLines value) :=
    (notMem_join (by decide)).mpr fun line hline => (notMem_normalLines hline).2
  rw [(normalizePatch_eq value).1, patchLines, unixNewlines_of_notMem hreturn]
  exact splitOn_intercalate '\n' (fun line hline => (notMem_normalLines hline).1)
    (normalLines_ne_nil value)

/-! ## A second normalization -/

/-- A unified hunk header whose tail is not the rest of another. -/
def NoHeaderInTail (line : Text) : Prop :=
  ∀ tail, hunkTail line = some tail → hunkTail (("@@ " : Text) ++ tail) = none

theorem hunkTail_normalLine_iff :
    hunkTail (normalLine line) = none ↔ NoHeaderInTail line := by
  have hempty : ∀ header ∈ [("@@" : Text), ("@@ " : Text)], hunkTail header = none := by decide
  rw [forall_mem_cons] at hempty
  cases htail : hunkTail line with
  | none => simp [normalLine_of_none htail, htail, NoHeaderInTail]
  | some tail =>
    rw [normalLine_of_some htail, hunkHeader, NoHeaderInTail, htail]
    split_ifs with hnil
    · subst hnil
      simp [hempty.1, hempty.2]
    · simp

theorem normalizePatch_twice_iff :
    let normalized := normalizePatchNewlinesWithDiagnostic value
    let again := normalizePatchNewlinesWithDiagnostic normalized.input
    (again.input = normalized.input ∧ again.unifiedHunkHeadersRepaired = 0 ∧
      again.blankContextLinesRepaired = 0) ↔ ∀ line ∈ patchLines value, NoHeaderInTail line := by
  intro normalized again
  obtain ⟨hinput, hheaders, hblank⟩ := normalizePatch_eq normalized.input
  have hlines : patchLines normalized.input = normalLines value := patchLines_normalized value
  have htails : (normalLines value).map hunkTail =
      ((patchLines value).map normalLine).map hunkTail := map_repairHunks hunkTail (by decide) _
  have hcount : again.unifiedHunkHeadersRepaired = 0 ↔
      ∀ line ∈ patchLines value, NoHeaderInTail line := by
    have hread : again.unifiedHunkHeadersRepaired =
        ((normalLines value).map hunkTail).countP Option.isSome := by
      rw [countP_map]
      exact hlines ▸ hheaders
    rw [hread, htails, List.countP_eq_zero, List.forall_mem_map, List.forall_mem_map]
    refine forall₂_congr fun line _ => ?_
    rw [← hunkTail_normalLine_iff, Bool.not_eq_true, isSome_eq_false_iff,
      isNone_iff_eq_none]
  constructor
  · intro h
    exact hcount.mp h.2.1
  · intro h
    have hplain : ∀ line ∈ normalLines value, hunkTail line = none := by
      intro line hline
      have hmem := mem_map_of_mem (f := hunkTail) hline
      rw [htails, List.map_map] at hmem
      obtain ⟨source, hsource, heq⟩ := mem_map.mp hmem
      rw [← heq]
      exact (hunkTail_normalLine_iff source).mpr (h source hsource)
    have hsame : (normalLines value).map normalLine = normalLines value :=
      (map_congr_left fun line hline => normalLine_of_none (hplain line hline)).trans
        (map_id _)
    have hagain : normalLines normalized.input = normalLines value := by
      rw [normalLines, hlines, hsame]
      exact rewrite_twice repairBody_keepsUnmarked repairBody_twice false _
    refine ⟨?_, hcount.mpr h, ?_⟩
    · rw [hinput, hagain, (normalizePatch_eq value).1]
    · have hbodies : hunkBodies (normalLines value) =
          (hunkBodies ((patchLines value).map normalLine)).map repairBody :=
        bodies_rewrite repairBody_keepsUnmarked false _
      rw [hblank, hlines, hsame, hbodies, List.map_map, sum_eq_zero_iff]
      intro count hmem
      obtain ⟨body, _, rfl⟩ := mem_map.mp hmem
      exact repairedBlanks_repairBody body

/-- How normalization may change a line, given whether the line is in a hunk. -/
def LineKept (place : Text × Bool) (out : Text) : Prop :=
  out = place.1 ∨ normalizeUnifiedHunkHeader place.1 = some out ∨
    (place.2 = true ∧ place.1 = [] ∧ out = [' '])

theorem inHunk_map_normalLine :
    inHunk (lines.map normalLine) = inHunk lines := by
  have hread : ∀ inUpdateFile isOpen, inBody patchMark inUpdateFile isOpen (lines.map normalLine) =
      inBody patchMark inUpdateFile isOpen lines := by
    induction lines with
    | nil => simp [inBody]
    | cons line lines ih =>
      intro inUpdateFile isOpen
      rw [map_cons, inBody, inBody, patchMark_normalLine]
      cases patchMark inUpdateFile line with
      | none => simp only [ih]
      | some outcome => simp only [ih]
  exact hread false false

/-- Normalization keeps the number of lines, and all lines but unified hunk headers and blank
lines of hunks. -/
theorem normalLines_kept :
    (normalLines value).length = (patchLines value).length ∧
      List.Forall₂ LineKept ((patchLines value).zip (inHunk (patchLines value)))
        (normalLines value) := by
  have hkept := repairHunks_kept ((patchLines value).map normalLine)
  rw [inHunk_map_normalLine, zip_map_left, forall₂_map_left_iff, ← normalLines] at hkept
  constructor
  · simpa [inHunk] using hkept.length_eq.symm
  · refine hkept.imp fun place out hplace => ?_
    rcases hplace with hsame | ⟨hin, hblank, hspace⟩
    · cases htail : normalizeUnifiedHunkHeader place.1 with
      | none =>
        refine .inl (hsame.trans ?_)
        simp [normalLine, htail]
      | some header =>
        refine .inr (.inl ?_)
        rw [htail, hsame]
        simp [normalLine, htail]
    · refine .inr (.inr ⟨hin, ?_, hspace⟩)
      have hnormal : normalLine place.1 = [] := hblank
      cases htail : hunkTail place.1 with
      | none => rwa [normalLine_of_none htail] at hnormal
      | some tail =>
        have hstart := starts_hunkHeader tail
        rw [← normalLine_of_some htail, hnormal] at hstart
        exact absurd hstart (by decide)

/-! ## Calls -/

section Calls
variable (fromStr : Text → Option Value)

/-- The patch that the arguments of a call wrap in JSON. -/
def wrappedPatch (arguments : Text) : Option Text :=
  (fromStr arguments).bind fun value => (value.getStr "patch").or (value.getStr "input")

/-- The patch text of the arguments of a call. -/
def heldPatch (arguments : Text) : Text := (wrappedPatch fromStr arguments).getD arguments

/-- What the proofs use of a JSON parser: line endings are blanks, no line of a JSON text begins
with a mark of a patch, and a string is shorter than the text that holds it. -/
structure ReadsJson : Prop where
  newlines : ∀ t, fromStr (unixNewlines t) = fromStr t
  starts : ∀ t value, fromStr t = some value → ∀ line ∈ patchLines t,
    line.head? ≠ some '*' ∧ line.head? ≠ some '@'
  shorter : ∀ t value key s, fromStr t = some value → value.getStr key = some s →
    s.length < t.length

variable {fromStr}

theorem normalizeApplyPatch_eq (arguments : Text) :
    normalizeApplyPatchResponseInputWithDiagnostic fromStr arguments =
      normalizePatchNewlinesWithDiagnostic (heldPatch fromStr arguments) := by
  rw [normalizeApplyPatchResponseInputWithDiagnostic, heldPatch, wrappedPatch]
  cases fromStr arguments with
  | none => rfl
  | some value =>
    simp only [bind_some]
    cases value.getStr "patch" with
    | some patch => rfl
    | none => cases value.getStr "input" <;> rfl

/-- A line that no JSON text has: it begins as the marks of a patch do. -/
def beginsMark (line : Text) : Bool := line.head? = some '*' ∨ line.head? = some '@'

theorem beginsMark_normalLine : beginsMark (normalLine line) = beginsMark line := by
  have hheader : ∀ header : Text, ("@@" : Text) <+: header → beginsMark header = true := by
    rintro header ⟨rest, rfl⟩
    rfl
  exact read_normalLine hheader line

theorem patchMark_of_not_beginsMark {line : Text} (h : beginsMark line = false)
    (inUpdateFile : Bool) : patchMark inUpdateFile line = none := by
  have hstart : ∀ start ∈ [("*** Update File: " : Text), "*** Add File: ", "*** Delete File: ",
      "*** End Patch", "*** Move to: ", "@@"], line.startsWith start = false := by
    intro start hmem
    have hmark : beginsMark start = true := by
      revert start
      decide
    by_contra hpre
    rw [Bool.not_eq_false] at hpre
    obtain ⟨rest, rfl⟩ := of_decide_eq_true hpre
    cases start with
    | nil => simp [beginsMark] at hmark
    | cons c start => exact absurd (h.symm.trans hmark) (by decide)
  simp only [forall_mem_cons] at hstart
  obtain ⟨hupdate, hadd, hdelete, hend, hmove, hheader, _⟩ := hstart
  simp [patchMark, hupdate, hadd, hdelete, hend, hmove, hheader]

/-- A normalized text is read as the text was. -/
theorem fromStr_normalized (hread : ReadsJson fromStr) (value : Text) :
    fromStr (normalizePatchNewlinesWithDiagnostic value).input = fromStr value := by
  by_cases hmark : ∃ line ∈ patchLines value, beginsMark line = true
  · have hunread : ∀ t, (∃ line ∈ patchLines t, beginsMark line = true) → fromStr t = none := by
      intro t ht
      obtain ⟨line, hline, hbegins⟩ := ht
      cases hparse : fromStr t with
      | none => rfl
      | some parsed =>
        have hstarts := hread.starts t parsed hparse line hline
        simp [beginsMark, hstarts.1, hstarts.2] at hbegins
    rw [hunread value hmark]
    apply hunread
    obtain ⟨line, hline, hbegins⟩ := hmark
    have hmem : true ∈ (normalLines value).map beginsMark := by
      rw [normalLines, map_repairHunks beginsMark (by decide), List.map_map]
      refine mem_map.mpr ⟨line, hline, ?_⟩
      rw [Function.comp_apply, beginsMark_normalLine, hbegins]
    rw [patchLines_normalized]
    exact mem_map.mp hmem
  · have hnone : ∀ line ∈ patchLines value, beginsMark line = false := by
      intro line hline
      by_contra hbegins
      exact hmark ⟨line, hline, by simpa using hbegins⟩
    have hplain : (patchLines value).map normalLine = patchLines value := by
      refine (map_congr_left fun line hline => ?_).trans (map_id _)
      refine normalLine_of_none ?_
      by_contra htail
      obtain ⟨tail, htail⟩ := ne_none_iff_exists'.mp htail
      obtain ⟨rest, hrest⟩ := (hunkTail_eq_some htail).1
      have hfalse := hnone line hline
      have htrue : beginsMark (("@@ -" : Text) ++ rest) = true := rfl
      rw [← hrest, htrue] at hfalse
      exact absurd hfalse (by decide)
    have hlines : normalLines value = patchLines value := by
      rw [normalLines, hplain]
      exact rewrite_unmarked fun line hline => patchMark_of_not_beginsMark (hnone line hline) false
    rw [(normalizePatch_eq value).1, hlines, ← hread.newlines value]
    exact congrArg fromStr (intercalate_splitOn '\n')

/-- A second normalization unwraps what the first one unwrapped, if that is a wrapper itself. -/
theorem wrappedPatch_normalized (hread : ReadsJson fromStr) (value : Text) :
    wrappedPatch fromStr (normalizePatchNewlinesWithDiagnostic value).input =
      wrappedPatch fromStr value := by
  rw [wrappedPatch, wrappedPatch, fromStr_normalized hread]

/-- A wrapper is no normal form of the patch in it. -/
theorem normalized_ne_of_wrapped (hread : ReadsJson fromStr) {value inner : Text}
    (h : wrappedPatch fromStr value = some inner) :
    (normalizePatchNewlinesWithDiagnostic inner).input ≠
      (normalizePatchNewlinesWithDiagnostic value).input := by
  intro hsame
  have hinner : fromStr inner = fromStr value := by
    rw [← fromStr_normalized hread inner, hsame, fromStr_normalized hread]
  obtain ⟨parsed, hparsed, hstring⟩ := bind_eq_some_iff.mp h
  rw [← hinner] at hparsed
  have hshort : ∃ key, parsed.getStr key = some inner := by
    rcases or_eq_some_iff.mp hstring with hpatch | ⟨_, hinput⟩
    · exact ⟨_, hpatch⟩
    · exact ⟨_, hinput⟩
  obtain ⟨key, hkey⟩ := hshort
  exact absurd (hread.shorter inner parsed key inner hparsed hkey) (lt_irrefl _)

/-- A second normalization changes and counts nothing exactly if the patch is no wrapper itself
and no tail of a unified hunk header continues as one. In any case normalization keeps the lines
of the patch, but for unified hunk headers and blank lines of hunks. -/
theorem normalization_settles_iff (hread : ReadsJson fromStr) (arguments : Text) :
    let normalized := normalizeApplyPatchResponseInputWithDiagnostic fromStr arguments
    let again := normalizeApplyPatchResponseInputWithDiagnostic fromStr normalized.input
    let patch := heldPatch fromStr arguments
    ((again.input = normalized.input ∧ again.unifiedHunkHeadersRepaired = 0 ∧
        again.blankContextLinesRepaired = 0) ↔
      wrappedPatch fromStr patch = none ∧ ∀ line ∈ patchLines patch, NoHeaderInTail line) ∧
    (normalized.input.splitOn '\n').length = (patchLines patch).length ∧
    Forall₂ LineKept ((patchLines patch).zip (inHunk (patchLines patch)))
      (normalized.input.splitOn '\n') := by
  intro normalized again patch
  have hnormalized : normalized = normalizePatchNewlinesWithDiagnostic patch :=
    normalizeApplyPatch_eq arguments
  have hwrapped : wrappedPatch fromStr normalized.input = wrappedPatch fromStr patch := by
    rw [hnormalized, wrappedPatch_normalized hread]
  have hlines : normalized.input.splitOn '\n' = normalLines patch := by
    rw [hnormalized, (normalizePatch_eq patch).1]
    exact splitOn_intercalate '\n' (fun line hline => (notMem_normalLines hline).1)
      (normalLines_ne_nil patch)
  refine ⟨?_, ?_⟩
  · have hagain : again = normalizePatchNewlinesWithDiagnostic
        ((wrappedPatch fromStr patch).getD normalized.input) := by
      rw [← hwrapped]
      exact normalizeApplyPatch_eq normalized.input
    cases hinner : wrappedPatch fromStr patch with
    | none =>
      rw [hinner, getD_none] at hagain
      have htwice := normalizePatch_twice_iff patch
      simp only [← hnormalized, ← hagain] at htwice
      rw [htwice]
      simp
    | some inner =>
      rw [hinner, getD_some] at hagain
      constructor
      · intro h
        refine absurd ?_ (normalized_ne_of_wrapped hread hinner)
        rw [← hagain, ← hnormalized]
        exact h.1
      · intro h
        exact absurd h.1 (by simp)
  · rw [hlines]
    exact normalLines_kept patch

end Calls

/-- A parser that reads no text. -/
def readsNothing : Text → Option Value := fun _ => none

theorem readsNothing_readsJson : ReadsJson readsNothing where
  newlines := fun _ => rfl
  starts := by simp [readsNothing]
  shorter := by simp [readsNothing]

theorem plainHeader_settles :
    let normalized := normalizeApplyPatchResponseInputWithDiagnostic readsNothing "@@ -1 +1 @@ x"
    (normalizeApplyPatchResponseInputWithDiagnostic readsNothing normalized.input).input =
      normalized.input :=
  ((normalization_settles_iff readsNothing_readsJson "@@ -1 +1 @@ x").1.mpr
    ⟨rfl, by
      have hlines : patchLines (heldPatch readsNothing "@@ -1 +1 @@ x") = ["@@ -1 +1 @@ x"] := by
        decide +kernel
      rw [hlines]
      intro line hline tail htail
      obtain rfl := mem_singleton.mp hline
      have htext : hunkTail "@@ -1 +1 @@ x" = some "x" := by decide
      obtain rfl := some.inj (htext.symm.trans htail)
      decide⟩).1

/-- The tail of one header reads as another. -/
theorem doubledHeader_unsettled :
    let normalized :=
      normalizeApplyPatchResponseInputWithDiagnostic readsNothing "@@ -1 +1 @@ -2 +2 @@"
    (normalizeApplyPatchResponseInputWithDiagnostic readsNothing normalized.input).input ≠
      normalized.input := by
  decide +kernel

end CodeSeeX.Native
