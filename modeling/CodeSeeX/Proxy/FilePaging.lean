import CodeSeeX.General.LinePages
import CodeSeeX.Text

/-!
# Reading a file page by page

`read_forward_page` reads a UTF-8 file line by line from its beginning, skips the lines
before `start` and appends the others to the page until the line limit or the character
cap is reached. `next_start` and `next_column` say where the next page begins.
-/
namespace CodeSeeX.FilePages
open LinePages List Text

def maxReadTextChars : ℕ := 7000

def maxReadScanBytes : ℕ := 64 * 1024 * 1024

structure ReadPage where
  start : ℕ
  endLine : ℕ
  nextStart : Option ℕ
  nextColumn : Option ℕ
  hasBom : Bool
  text : Text
  truncated : Bool
  truncationReason : Option Text
deriving DecidableEq

variable {page : ReadPage} {start lineLimit : ℕ} (startColumn : ℕ)

/-- The file can be read and is UTF-8, so the two other errors do not arise. -/
inductive ReadPageError where
  | scanLimitReached
deriving DecidableEq

inductive ReadAppend where
  | complete
  | partialAt (nextColumn : ℕ)
  | noCapacity
deriving DecidableEq

def charSliceFrom (value : Text) (startColumn : ℕ) : Text :=
  if startColumn = 0 then value
  else match value[startColumn]? with
    | none => []
    | some _ => value.drop startColumn

def trimLineEnding (value : Text) : Text := value.rdropWhile fun c => c == '\r' || c == '\n'

def stripUtf8Bom (text : Text) : Text × Bool :=
  match text with
  | '\uFEFF' :: stripped => (stripped, true)
  | _ => (text, false)

/-- The outcome, and the output it leaves. -/
def appendReadText (output line : Text) (startColumn : ℕ) : ReadAppend × Text :=
  let line := charSliceFrom line startColumn
  let separator := if output.isEmpty then [] else ['\n']
  let capacity := maxReadTextChars - output.length
  let separatorChars := separator.length
  if capacity ≤ separatorChars then (.noCapacity, output)
  else
    let available := capacity - separatorChars
    let lineChars := line.length
    if lineChars ≤ available then (.complete, output ++ separator ++ line)
    else (.partialAt (startColumn + available), output ++ separator ++ line.take available)

/-- What the loop carries from line to line. -/
structure ReadState where
  lineNumber : ℕ
  scannedBytes : ℕ
  text : Text
  endLine : ℕ
  hasBom : Bool
  included : ℕ

def visibleLine (lineNumber : ℕ) (line : Text) : Text :=
  if lineNumber = 1 then (stripUtf8Bom (trimLineEnding line)).1 else trimLineEnding line

/-- One turn of the loop: it goes on, or the page is complete. -/
def readStep (start lineLimit startColumn : ℕ) (s : ReadState) (line : Text) :
    Except ReadPageError (ReadState ⊕ ReadPage) :=
  let scannedBytes := s.scannedBytes + utf8Len line
  if maxReadScanBytes < scannedBytes then .error .scanLimitReached
  else
    let lineNumber := s.lineNumber + 1
    let hasBom := if lineNumber = 1 then line.head? == some '\uFEFF' else s.hasBom
    if lineNumber < start then .ok (.inl
      { s with lineNumber := lineNumber, scannedBytes := scannedBytes, hasBom := hasBom })
    else if lineLimit ≤ s.included then .ok (.inr
      { start := start, endLine := s.endLine, nextStart := some lineNumber, nextColumn := some 0
        hasBom := hasBom, text := s.text, truncated := true
        truncationReason := some (lit "line_limit") })
    else
      let column := if lineNumber = start then startColumn else 0
      match appendReadText s.text (visibleLine lineNumber line) column with
      | (.complete, text) => .ok (.inl
          { lineNumber := lineNumber, scannedBytes := scannedBytes, text := text
            endLine := lineNumber, hasBom := hasBom, included := s.included + 1 })
      | (.partialAt nextColumn, text) => .ok (.inr
          { start := start, endLine := lineNumber, nextStart := some lineNumber
            nextColumn := some nextColumn, hasBom := hasBom, text := text, truncated := true
            truncationReason := some (lit "output_limit") })
      | (.noCapacity, text) => .ok (.inr
          { start := start, endLine := lineNumber - 1, nextStart := some lineNumber
            nextColumn := some column, hasBom := hasBom, text := text, truncated := true
            truncationReason := some (lit "output_limit") })

def readLoop (start lineLimit startColumn : ℕ) :
    ReadState → List Text → Except ReadPageError ReadPage
  | s, [] => .ok
      { start := start, endLine := s.endLine, nextStart := none, nextColumn := none
        hasBom := s.hasBom, text := s.text, truncated := false, truncationReason := none }
  | s, line :: rest =>
      match readStep start lineLimit startColumn s line with
      | .error error => .error error
      | .ok (.inl s) => readLoop start lineLimit startColumn s rest
      | .ok (.inr page) => .ok page

/-- `read_line` returns the lines with their endings. -/
def readForwardPage (content : Text) (start lineLimit startColumn : ℕ) :
    Except ReadPageError ReadPage :=
  readLoop start lineLimit startColumn
    { lineNumber := 0, scannedBytes := 0, text := [], endLine := start - 1, hasBom := false
      included := 0 } (splitInclusive content)

/-! ## The lines of a file -/

/-- The visible content of lines, the first of which has the number `lineNumber`. -/
def visibleFrom : ℕ → List Text → List Text
  | _, [] => []
  | lineNumber, line :: lines => visibleLine lineNumber line :: visibleFrom (lineNumber + 1) lines

def visibleLines (content : Text) : List Text := visibleFrom 1 (splitInclusive content)

@[simp] theorem length_visibleFrom (lineNumber : ℕ) (lines : List Text) :
    (visibleFrom lineNumber lines).length = lines.length := by
  induction lines generalizing lineNumber with
  | nil => rfl
  | cons line lines ih => rw [visibleFrom, length_cons, ih, length_cons]

theorem visibleFrom_append (lineNumber : ℕ) (front back : List Text) :
    visibleFrom lineNumber (front ++ back) =
      visibleFrom lineNumber front ++ visibleFrom (lineNumber + front.length) back := by
  induction front generalizing lineNumber with
  | nil => rfl
  | cons line front ih =>
    rw [cons_append, visibleFrom, ih, visibleFrom, cons_append, length_cons]
    congr 3
    omega

theorem charSliceFrom_eq (value : Text) (startColumn : ℕ) :
    charSliceFrom value startColumn = value.drop startColumn := by
  rw [charSliceFrom]
  split_ifs with hzero
  · rw [hzero, drop_zero]
  · cases hget : value[startColumn]? with
    | none => exact (drop_eq_nil_of_le (getElem?_eq_none_iff.mp hget)).symm
    | some c => rfl

theorem notMem_trimLineEnding {line : Text} (hline : '\n' ∉ line) :
    '\n' ∉ trimLineEnding line ∧ '\n' ∉ trimLineEnding (line ++ ['\n']) := by
  have hends : trimLineEnding (line ++ ['\n']) = trimLineEnding line :=
    rdropWhile_concat_pos _ _ _ rfl
  have hsub : ∀ c ∈ trimLineEnding line, c ∈ line :=
    fun c hc => ( rdropWhile_prefix _ line).subset hc
  rw [hends]
  exact ⟨fun h => hline (hsub _ h), fun h => hline (hsub _ h)⟩

theorem notMem_visibleLine {line : Text} (h : '\n' ∉ trimLineEnding line) (lineNumber : ℕ) :
    '\n' ∉ visibleLine lineNumber line := by
  rw [visibleLine]
  split_ifs
  · intro hmem
    have hsub : ∀ t : Text, (stripUtf8Bom t).1 <:+ t := by
      intro t
      rw [stripUtf8Bom.eq_def]
      split
      · exact suffix_cons _ _
      · exact suffix_rfl
    exact h ((hsub _).subset hmem)
  · exact h

/-- Visible lines hold no newline. -/
theorem notMem_visibleFrom {lines : List Text} (h : Text.RawLines lines) (lineNumber : ℕ) :
    ∀ line ∈ visibleFrom lineNumber lines, '\n' ∉ line := by
  induction h generalizing lineNumber with
  | nil =>
    intro line hmem
    exact absurd hmem not_mem_nil
  | last _ hline =>
    intro line hmem
    rw [mem_singleton.mp hmem]
    exact notMem_visibleLine (notMem_trimLineEnding hline).1 _
  | cons hline _ ih =>
    intro line hmem
    obtain rfl | hmem := mem_cons.mp hmem
    · exact notMem_visibleLine (notMem_trimLineEnding hline).2 _
    · exact ih _ line hmem

/-! ## What a page holds -/

/-- The visible lines from a position on. -/
def linesFrom (content : Text) (start column : ℕ) : List Text :=
  dropFirst column ((visibleLines content).drop (start - 1))

/-- What a page says of the lines from the number `first` on, given how it was filled. -/
structure PageOf (start first column : ℕ) (lines : List Text) (filled : Text × ℕ × ℕ)
    (page : ReadPage) : Prop where
  start_eq : page.start = start
  text_eq : page.text = filled.1
  end_eq : page.endLine + 1 = first + filled.2.1 + if filled.2.2 = 0 then 0 else 1
  next_start : page.nextStart =
    if filled.2.1 = lines.length then none else some (first + filled.2.1)
  next_column : page.nextColumn = if filled.2.1 = lines.length then none
    else some ((if filled.2.1 = 0 then column else 0) + filled.2.2)

/-- How a line is appended, in the terms of a page being filled. -/
theorem appendReadText_eq (output line : Text) (startColumn : ℕ) :
    appendReadText output line startColumn =
      if maxReadTextChars - output.length ≤ (if output.isEmpty then 0 else 1) then
        (.noCapacity, output)
      else if (line.drop startColumn).length ≤
          maxReadTextChars - output.length - (if output.isEmpty then 0 else 1) then
        (.complete, glue '\n' output (line.drop startColumn))
      else
        (.partialAt (startColumn + (maxReadTextChars - output.length - if output.isEmpty then 0 else 1)),
          glue '\n' output ((line.drop startColumn).take
            (maxReadTextChars - output.length - if output.isEmpty then 0 else 1))) := by
  rw [appendReadText, charSliceFrom_eq]
  cases output with
  | nil => rfl
  | cons c output => simp [glue]

section Steps
variable {start lineLimit startColumn : ℕ} {s : ReadState} {line : Text} {rest : List Text}

/-- What a turn of the loop can do. A page that ends here says where the next one begins. -/
theorem readStep_cases (start lineLimit startColumn : ℕ) (s : ReadState) (line : Text) :
    readStep start lineLimit startColumn s line = .error .scanLimitReached ∨
    s.scannedBytes + utf8Len line ≤ maxReadScanBytes ∧
      ((∃ s', readStep start lineLimit startColumn s line = .ok (.inl s') ∧
          s'.scannedBytes = s.scannedBytes + utf8Len line) ∨
        ∃ page n, readStep start lineLimit startColumn s line = .ok (.inr page) ∧
          page.nextStart = some n) := by
  rw [readStep]
  dsimp only
  generalize (if s.lineNumber + 1 = 1 then line.head? == some '\uFEFF' else s.hasBom) = hasBom
  generalize (if s.lineNumber + 1 = start then startColumn else 0) = column
  split_ifs with hscan hskip hlimit
  · exact .inl rfl
  · exact .inr ⟨Nat.le_of_not_lt hscan, .inl ⟨_, rfl, rfl⟩⟩
  · exact .inr ⟨Nat.le_of_not_lt hscan, .inr ⟨_, _, rfl, rfl⟩⟩
  · refine .inr ⟨Nat.le_of_not_lt hscan, ?_⟩
    split
    · exact .inl ⟨_, rfl, rfl⟩
    · exact .inr ⟨_, _, rfl, rfl⟩
    · exact .inr ⟨_, _, rfl, rfl⟩

/-- A file that is read to its end is within the scan limit. -/
theorem readLoop_scanned (hread : readLoop start lineLimit startColumn s rest = .ok page)
    (hnext : page.nextStart = none) (hs : s.scannedBytes ≤ maxReadScanBytes) :
    s.scannedBytes + utf8Len rest.flatten ≤ maxReadScanBytes := by
  induction rest generalizing s with
  | nil => exact hs
  | cons line rest ih =>
    rw [readLoop] at hread
    rw [flatten_cons, utf8Len_append, ← Nat.add_assoc]
    obtain hstep | ⟨hscan, ⟨s', hstep, hbytes⟩ | ⟨_, n, hstep, hsome⟩⟩ :=
      readStep_cases start lineLimit startColumn s line
    · rw [hstep] at hread
      cases hread
    · rw [hstep] at hread
      rw [← hbytes] at hscan ⊢
      exact ih hread hscan
    · rw [hstep] at hread
      cases hread
      rw [hnext] at hsome
      cases hsome

theorem readStep_skip (startColumn lineLimit : ℕ)
    (hscan : s.scannedBytes + utf8Len line ≤ maxReadScanBytes)
    (hskip : s.lineNumber + 1 < start) :
    ∃ hasBom, readStep start lineLimit startColumn s line = .ok (.inl
      { s with lineNumber := s.lineNumber + 1, scannedBytes := s.scannedBytes + utf8Len line
               hasBom := hasBom }) := by
  rw [readStep]
  rw [if_neg (Nat.not_lt_of_le hscan), if_pos hskip]
  exact ⟨_, rfl⟩

/-- The lines before `start` are only counted. -/
theorem readLoop_skip {front back : List Text} (hskip : s.lineNumber + front.length < start)
    (hscan : s.scannedBytes + utf8Len front.flatten ≤ maxReadScanBytes) :
    ∃ hasBom, readLoop start lineLimit startColumn s (front ++ back) =
      readLoop start lineLimit startColumn
        { s with lineNumber := s.lineNumber + front.length
                 scannedBytes := s.scannedBytes + utf8Len front.flatten
                 hasBom := hasBom } back := by
  induction front generalizing s with
  | nil => exact ⟨s.hasBom, rfl⟩
  | cons line front ih =>
    rw [flatten_cons, utf8Len_append, ← Nat.add_assoc] at hscan ⊢
    rw [length_cons, Nat.add_comm front.length, ← Nat.add_assoc] at hskip ⊢
    obtain ⟨hasBom, hstep⟩ := @readStep_skip start s line startColumn lineLimit (by omega)
      (by omega)
    rw [cons_append, readLoop, hstep]
    exact ih hskip hscan

/-- From `start` on the loop fills a page. -/
theorem readLoop_page {column : ℕ} (hcolumn : column = if s.included = 0 then startColumn else 0)
    (hincluded : s.lineNumber + 1 = start + s.included)
    (hend : s.endLine = s.lineNumber) (hlimit : s.included < lineLimit ∨ 0 < s.included)
    (hscan : s.scannedBytes + utf8Len rest.flatten ≤ maxReadScanBytes) :
    ∃ page, readLoop start lineLimit startColumn s rest = .ok page ∧
      PageOf start (s.lineNumber + 1) column (dropFirst column (visibleFrom (s.lineNumber + 1) rest))
        (fill '\n' maxReadTextChars (lineLimit - s.included) s.text
          (dropFirst column (visibleFrom (s.lineNumber + 1) rest))) page := by
  induction rest generalizing s column with
  | nil =>
    refine ⟨_, rfl, ?_⟩
    rw [visibleFrom, dropFirst, fill]
    exact ⟨rfl, rfl, by simp [hend], rfl, rfl⟩
  | cons line rest ih =>
    rw [flatten_cons, utf8Len_append, ← Nat.add_assoc] at hscan
    have hsame : (if s.lineNumber + 1 = start then startColumn else 0) = column := by
      rw [hcolumn]
      congr 1
      rw [eq_iff_iff]
      omega
    rw [readLoop, readStep]
    dsimp only
    rw [if_neg (by omega), if_neg (by omega), hsame, appendReadText_eq, visibleFrom, dropFirst]
    generalize (if s.lineNumber + 1 = 1 then line.head? == some '\uFEFF' else s.hasBom) = hasBom
    by_cases hfull : lineLimit ≤ s.included
    · have hzero : lineLimit - s.included = 0 := by omega
      have hfirst : column = 0 := by
        rw [hcolumn, if_neg (by omega)]
      rw [if_pos hfull, hzero, fill]
      refine ⟨_, rfl, ?_⟩
      exact ⟨rfl, rfl, by simp [hend], by simp, by simp [hfirst]⟩
    · obtain ⟨limit, hsucc⟩ : ∃ limit, lineLimit - s.included = limit + 1 :=
        ⟨lineLimit - s.included - 1, by omega⟩
      rw [if_neg hfull, hsucc, fill]
      generalize (if s.text.isEmpty then 0 else 1) = width
      split_ifs with hroom hfits
      · refine ⟨_, rfl, ?_⟩
        exact ⟨rfl, rfl, by simp, by simp, by simp⟩
      · obtain ⟨page, hread, hpage⟩ := @ih
          { lineNumber := s.lineNumber + 1, scannedBytes := s.scannedBytes + utf8Len line
            text := glue '\n' s.text ((visibleLine (s.lineNumber + 1) line).drop column)
            endLine := s.lineNumber + 1, hasBom := hasBom, included := s.included + 1 } 0 rfl
          (by show s.lineNumber + 1 + 1 = start + (s.included + 1); omega) rfl
          (.inr (Nat.succ_pos _)) hscan
        have hlimit' : lineLimit - (s.included + 1) = limit := by omega
        have hdrop : dropFirst 0 (visibleFrom (s.lineNumber + 1 + 1) rest) =
            visibleFrom (s.lineNumber + 1 + 1) rest := by
          cases rest with
          | nil => rfl
          | cons next rest => rfl
        dsimp only at hpage
        rw [hlimit', hdrop] at hpage
        refine ⟨page, hread, ?_⟩
        generalize fill '\n' maxReadTextChars limit
          (glue '\n' s.text ((visibleLine (s.lineNumber + 1) line).drop column))
          (visibleFrom (s.lineNumber + 1 + 1) rest) = filled at hpage
        have hnext := hpage.next_start
        have hnextColumn := hpage.next_column
        have hlast := hpage.end_eq
        exact
          { start_eq := hpage.start_eq
            text_eq := hpage.text_eq
            end_eq := by
              show page.endLine + 1 =
                s.lineNumber + 1 + (filled.2.1 + 1) + if filled.2.2 = 0 then 0 else 1
              rw [hlast]
              omega
            next_start := by
              rw [hnext]
              simp only [length_cons, Nat.add_right_cancel_iff]
              congr 2
              omega
            next_column := by
              rw [hnextColumn]
              simp }
      · refine ⟨_, rfl, ?_⟩
        have hne : maxReadTextChars - s.text.length - width ≠ 0 := by omega
        exact ⟨rfl, rfl, by simp [hne], by simp, by simp⟩

end Steps

theorem length_visibleLines (content : Text) :
    (visibleLines content).length = (splitInclusive content).length :=
  length_visibleFrom _ _

theorem notMem_linesFrom (content : Text) (start column : ℕ) :
    ∀ line ∈ linesFrom content start column, '\n' ∉ line := by
  have hvisible : ∀ line ∈ (visibleLines content).drop (start - 1), '\n' ∉ line :=
    fun line hmem =>
      notMem_visibleFrom (rawLines_splitInclusive content) 1 line (mem_of_mem_drop hmem)
  rw [linesFrom]
  intro line hmem
  cases hdrop : (visibleLines content).drop (start - 1) with
  | nil =>
    rw [hdrop] at hmem
    exact absurd hmem not_mem_nil
  | cons first rest =>
    rw [hdrop] at hmem hvisible
    obtain rfl | hmem := mem_cons.mp hmem
    · exact fun h => hvisible first mem_cons_self (mem_of_mem_drop h)
    · exact hvisible line (mem_cons_of_mem first hmem)

variable {content : Text}

/-- Within the scan limit every request for lines is served by a filled page. -/
theorem readForwardPage_page (hstart : 1 ≤ start) (hlimit : 1 ≤ lineLimit)
    (hscan : utf8Len content ≤ maxReadScanBytes) :
    ∃ page, readForwardPage content start lineLimit startColumn = .ok page ∧
      PageOf start start startColumn (linesFrom content start startColumn)
        (fill '\n' maxReadTextChars lineLimit [] (linesFrom content start startColumn)) page := by
  rw [readForwardPage]
  have hlines := length_visibleLines content
  rw [← splitInclusive_flatten content] at hscan
  rw [linesFrom, visibleLines] at *
  generalize splitInclusive content = rawLines at hscan hlines
  by_cases hshort : start - 1 ≤ rawLines.length
  · have hfront : (rawLines.take (start - 1)).length = start - 1 := length_take_of_le hshort
    rw [← take_append_drop (start - 1) rawLines] at hscan ⊢
    rw [flatten_append, utf8Len_append] at hscan
    generalize rawLines.take (start - 1) = front at hscan hfront
    generalize rawLines.drop (start - 1) = back at hscan
    obtain ⟨hasBom, hskip⟩ := @readLoop_skip start lineLimit startColumn
      { lineNumber := 0, scannedBytes := 0, text := [], endLine := start - 1, hasBom := false
        included := 0 } front back (by show 0 + front.length < start; omega)
      (by show 0 + utf8Len front.flatten ≤ maxReadScanBytes; omega)
    have hdrop : (visibleFrom 1 (front ++ back)).drop (start - 1) = visibleFrom start back := by
      rw [visibleFrom_append, drop_left' (by rw [length_visibleFrom, hfront]), hfront]
      congr 1
      omega
    obtain ⟨page, hread, hpage⟩ := @readLoop_page start lineLimit startColumn
      { lineNumber := 0 + front.length, scannedBytes := 0 + utf8Len front.flatten, text := []
        endLine := start - 1, hasBom := hasBom, included := 0 } back startColumn rfl
      (by show 0 + front.length + 1 = start + 0; omega)
      (by show start - 1 = 0 + front.length; omega) (.inl hlimit)
      (by show 0 + utf8Len front.flatten + utf8Len back.flatten ≤ maxReadScanBytes; omega)
    have hnumber : 0 + front.length + 1 = start := by omega
    rw [hnumber] at hpage
    rw [hskip, hread, hdrop]
    exact ⟨page, rfl, hpage⟩
  · -- Every line of the file is skipped.
    obtain ⟨hasBom, hskip⟩ := @readLoop_skip start lineLimit startColumn
      { lineNumber := 0, scannedBytes := 0, text := [], endLine := start - 1, hasBom := false
        included := 0 } rawLines [] (by show 0 + rawLines.length < start; omega)
      (by show 0 + utf8Len rawLines.flatten ≤ maxReadScanBytes; omega)
    rw [append_nil] at hskip
    rw [hskip, drop_eq_nil_of_le (by rw [length_visibleFrom]; omega), dropFirst, fill]
    refine ⟨_, rfl, rfl, rfl, ?_, rfl, rfl⟩
    show start - 1 + 1 = start + 0 + 0
    omega

/-! ## Exact paging -/

/-- What a page should show of a line: from the column on in its first line, up to the next
column in the line the next page goes on with. -/
def shownPart (page : ReadPage) (startColumn lineNumber : ℕ) (line : Text) : Text :=
  let upTo := if page.nextStart = some lineNumber then line.take (page.nextColumn.getD 0) else line
  if lineNumber = page.start then upTo.drop startColumn else upTo

/-- The lines `start..end` of a page. -/
def shownLines (content : Text) (startColumn : ℕ) (page : ReadPage) : List Text :=
  (((visibleLines content).drop (page.start - 1)).take (page.endLine + 1 - page.start)).mapIdx
    fun i line => shownPart page startColumn (page.start + i) line

/-- The text of a page splits into the lines it says it shows. -/
def ShowsLines (content : Text) (startColumn : ℕ) (page : ReadPage) : Prop :=
  if shownLines content startColumn page = [] then page.text = []
  else page.text.splitOn '\n' = shownLines content startColumn page

/-- The pages read by following the next position. -/
inductive Follows (content : Text) (lineLimit : ℕ) : ℕ → ℕ → List ReadPage → Prop where
  | last {start column : ℕ} {page : ReadPage}
      (hread : readForwardPage content start lineLimit column = .ok page)
      (hnext : page.nextStart = none) : Follows content lineLimit start column [page]
  | more {start column nextStart nextColumn : ℕ} {page : ReadPage} {pages : List ReadPage}
      (hread : readForwardPage content start lineLimit column = .ok page)
      (hstart : page.nextStart = some nextStart) (hcolumn : page.nextColumn = some nextColumn)
      (hrest : Follows content lineLimit nextStart nextColumn pages) :
      Follows content lineLimit start column (page :: pages)

/-- The requested page shows its lines, and the pages from the beginning deliver the file. -/
def PagingExact (content : Text) (start lineLimit startColumn : ℕ) : Prop :=
  (∃ page, readForwardPage content start lineLimit startColumn = .ok page ∧ page.start = start ∧
    ShowsLines content startColumn page) ∧
  ∃ pages, Follows content lineLimit 1 0 pages ∧
    (pages.flatMap ReadPage.text).filter (· ≠ '\n') = (visibleLines content).flatten

theorem shownPart_whole {startColumn i : ℕ} (line : Text)
    (h : page.nextStart ≠ some (page.start + i)) :
    shownPart page startColumn (page.start + i) line =
      if i = 0 then line.drop startColumn else line := by
  rw [shownPart, if_neg h]
  simp

theorem shownPart_cut {startColumn i cut : ℕ} (line : Text)
    (h : page.nextStart = some (page.start + i))
    (hcolumn : page.nextColumn = some ((if i = 0 then startColumn else 0) + cut)) :
    shownPart page startColumn (page.start + i) line =
      (if i = 0 then line.drop startColumn else line).take cut := by
  rw [shownPart, if_pos h, hcolumn]
  cases i with
  | zero => simp [drop_take]
  | succ i => simp

/-- The lines a page says it shows are the lines it was filled with. -/
theorem shownLines_eq {start startColumn limit : ℕ} {filled : Text × ℕ × ℕ}
    (hfilled : IsPage '\n' limit [] (linesFrom content start startColumn) filled)
    (hpage : PageOf start start startColumn (linesFrom content start startColumn) filled page) :
    shownLines content startColumn page =
      delivered (linesFrom content start startColumn) filled.2.1 filled.2.2 := by
  have hend := hpage.end_eq
  have hnext := hpage.next_start
  have hnextColumn := hpage.next_column
  have hwhole := hfilled.whole_le
  have hinside := hfilled.cut_inside
  obtain ⟨text, whole, cut⟩ := filled
  obtain rfl : page.start = start := hpage.start_eq
  dsimp only at hend hnext hnextColumn hwhole hinside ⊢
  ext i line : 2
  rw [getElem?_delivered hwhole, shownLines, getElem?_mapIdx, linesFrom, getElem?_dropFirst]
  by_cases hi : i < whole
  · have hother : page.nextStart ≠ some (page.start + i) := by
      rw [hnext]
      split_ifs
      · exact Option.some_ne_none _ ∘ Eq.symm
      · intro h
        have hsame := Option.some_inj.mp h
        omega
    rw [if_pos hi, getElem?_take_of_lt (by omega)]
    simp only [shownPart_whole _ hother]
  · by_cases hlast : i = whole ∧ cut ≠ 0
    · obtain ⟨rfl, hcut⟩ := hlast
      obtain ⟨next, rest, hdrop, _⟩ := hinside hcut
      have hmore : i ≠ (linesFrom content page.start startColumn).length := by
        intro h
        rw [h, drop_length] at hdrop
        cases hdrop
      rw [if_neg hmore] at hnext hnextColumn
      rw [if_neg hcut] at hend
      rw [if_neg hi, if_pos ⟨rfl, hcut⟩, getElem?_take_of_lt (by omega), Option.map_map]
      simp only [shownPart_cut _ hnext hnextColumn]
      rfl
    · have hpast : page.endLine + 1 - page.start ≤ i := by
        split_ifs at hend
        · omega
        · omega
      rw [if_neg hi, if_neg hlast, getElem?_take, if_neg (Nat.not_lt_of_le hpast)]
      rfl

/-- A page shows its lines but for an empty line before another one at its beginning. -/
theorem showsLines_iff {start startColumn lineLimit : ℕ} (hlimit : 1 ≤ lineLimit)
    (hpage : PageOf start start startColumn (linesFrom content start startColumn)
      (fill '\n' maxReadTextChars lineLimit [] (linesFrom content start startColumn)) page) :
    ShowsLines content startColumn page ↔
      ∀ first second rest, linesFrom content start startColumn = first :: second :: rest →
        2 ≤ lineLimit → first ≠ [] := by
  have hcapacity : 0 < maxReadTextChars := by decide
  have hfree := notMem_linesFrom content start startColumn
  have hshown := shownLines_eq (fill_isPage ..) hpage
  have htext := hpage.text_eq
  rw [ShowsLines, hshown, htext]
  generalize linesFrom content start startColumn = lines at hfree
  cases lines with
  | nil =>
    rw [fill, if_pos (by simp [delivered])]
    exact iff_of_true rfl (fun _ _ _ h => by cases h)
  | cons line lines =>
    rw [if_neg (delivered_ne_nil hcapacity hlimit (cons_ne_nil line lines))]
    obtain ⟨limit, rfl⟩ := Nat.exists_eq_add_of_le' hlimit
    rw [splitOn_fill_iff hcapacity hfree]
    constructor
    · intro h first second rest heq htwo
      cases heq
      obtain hne | hzero | hnil := h
      · exact hne
      · omega
      · cases hnil
    · intro h
      by_cases hlimits : limit = 0
      · exact .inr (.inl hlimits)
      · cases lines with
        | nil => exact .inr (.inr rfl)
        | cons next lines => exact .inl (h line next lines rfl (by omega))

/-- Where the next page begins, the lines the page left begin. -/
theorem linesFrom_next {start startColumn : ℕ} (hstart : 1 ≤ start) (whole cut : ℕ) :
    linesFrom content (start + whole) ((if whole = 0 then startColumn else 0) + cut) =
      left (linesFrom content start startColumn) whole cut := by
  have hindex : start + whole - 1 = start - 1 + whole := by omega
  rw [linesFrom, linesFrom, dropFirst_drop, drop_drop, hindex]

/-- A page delivers the lines from its start on, or leaves some of them to a later position. -/
theorem readForwardPage_step (hstart : 1 ≤ start) (hlimit : 1 ≤ lineLimit)
    (hscan : utf8Len content ≤ maxReadScanBytes) :
    ∃ page, readForwardPage content start lineLimit startColumn = .ok page ∧
      (page.nextStart = none ∧
          page.text.filter (· ≠ '\n') = (linesFrom content start startColumn).flatten ∨
        ∃ next column, page.nextStart = some next ∧ page.nextColumn = some column ∧ start ≤ next ∧
          page.text.filter (· ≠ '\n') ++ (linesFrom content next column).flatten =
            (linesFrom content start startColumn).flatten ∧
          weight (linesFrom content next column) < weight (linesFrom content start startColumn)) := by
  have hcapacity : 0 < maxReadTextChars := by decide
  obtain ⟨page, hread, hpage⟩ := readForwardPage_page startColumn hstart hlimit hscan
  have hless := @weight_left_lt _ '\n' (linesFrom content start startColumn) _ _ hcapacity hlimit
  have hfilled := @fill_isPage _ '\n' maxReadTextChars lineLimit []
    (linesFrom content start startColumn)
  generalize fill '\n' maxReadTextChars lineLimit [] (linesFrom content start startColumn) = filled
    at hpage hless hfilled
  obtain ⟨text, whole, cut⟩ := filled
  have hfree := notMem_linesFrom content start startColumn
  have htext : page.text.filter (· ≠ '\n') =
      (delivered (linesFrom content start startColumn) whole cut).flatten := by
    rw [hpage.text_eq, hfilled.text_eq, filter_glueAll (notMem_delivered hfree whole cut)]
    rfl
  have hparts := delivered_flatten_append (linesFrom content start startColumn) whole cut
  rw [← htext] at hparts
  have hnext := hpage.next_start
  have hnextColumn := hpage.next_column
  refine ⟨page, hread, ?_⟩
  by_cases hdone : whole = (linesFrom content start startColumn).length
  · rw [if_pos hdone] at hnext
    rw [left, hdone, drop_length, dropFirst, flatten_nil, append_nil] at hparts
    exact .inl ⟨hnext, hparts⟩
  · have hsome : linesFrom content start startColumn ≠ [] := by
      intro hnil
      have hle := hfilled.whole_le
      rw [hnil] at hdone hle
      exact hdone (Nat.le_zero.mp hle)
    rw [if_neg hdone] at hnext hnextColumn
    rw [← linesFrom_next hstart] at hparts hless
    exact .inr ⟨_, _, hnext, hnextColumn, Nat.le_add_right start whole, hparts, hless hsome⟩

/-- The pages from a position on deliver the lines from there on. -/
theorem exists_follows {lineLimit : ℕ} (hlimit : 1 ≤ lineLimit)
    (hscan : utf8Len content ≤ maxReadScanBytes) {start column : ℕ} (hstart : 1 ≤ start) :
    ∃ pages, Follows content lineLimit start column pages ∧
      (pages.flatMap ReadPage.text).filter (· ≠ '\n') = (linesFrom content start column).flatten := by
  induction hweight : weight (linesFrom content start column) using Nat.strong_induction_on
    generalizing start column with
  | _ n ih =>
    obtain ⟨page, hread, ⟨hnone, hchars⟩ | ⟨next, column', hnext, hcolumn, hle, hchars, hless⟩⟩ :=
      readForwardPage_step column hstart hlimit hscan
    · exact ⟨[page], .last hread hnone, by rw [flatMap_singleton, hchars]⟩
    · obtain ⟨pages, hpages, hrest⟩ := ih _ (hweight ▸ hless) (hstart.trans hle) rfl
      refine ⟨page :: pages, .more hread hnext hcolumn hpages, ?_⟩
      rw [flatMap_cons, filter_append, hrest, hchars]

theorem Follows.scanned {lineLimit start column : ℕ} {pages : List ReadPage}
    (h : Follows content lineLimit start column pages) :
    utf8Len content ≤ maxReadScanBytes := by
  induction h with
  | last hread hnext =>
    have hscan := readLoop_scanned hread hnext (Nat.zero_le _)
    rwa [splitInclusive_flatten, Nat.zero_add] at hscan
  | more _ _ _ _ ih => exact ih

/-- Paging is exact exactly for a file within the scan limit whose requested lines do not begin
with an empty one before another line of the page. -/
theorem pagingExact_iff {content : Text} {start lineLimit startColumn : ℕ} (hstart : 1 ≤ start)
    (hlimit : 1 ≤ lineLimit) :
    PagingExact content start lineLimit startColumn ↔
      utf8Len content ≤ maxReadScanBytes ∧
        ∀ first second rest, (visibleLines content).drop (start - 1) = first :: second :: rest →
          2 ≤ lineLimit → startColumn < first.length := by
  have hlines : (∀ first second rest, linesFrom content start startColumn = first :: second :: rest →
      2 ≤ lineLimit → first ≠ []) ↔
      ∀ first second rest, (visibleLines content).drop (start - 1) = first :: second :: rest →
        2 ≤ lineLimit → startColumn < first.length := by
    rw [linesFrom]
    cases (visibleLines content).drop (start - 1) with
    | nil => simp [dropFirst]
    | cons line lines =>
      simp only [dropFirst, cons.injEq, and_imp]
      constructor
      · intro h first second rest hfirst hrest htwo
        have hne := h (line.drop startColumn) second rest rfl hrest htwo
        rw [← hfirst]
        exact Nat.lt_of_not_le fun hle => hne (drop_eq_nil_of_le hle)
      · intro h first second rest hfirst hrest htwo hnil
        have hlt := h line second rest rfl hrest htwo
        rw [← hfirst, drop_eq_nil_iff] at hnil
        omega
  rw [← hlines]
  constructor
  · rintro ⟨⟨page, hread, -, hshows⟩, pages, hpages, -⟩
    have hscan := hpages.scanned
    obtain ⟨page', hread', hpage⟩ := readForwardPage_page startColumn hstart hlimit hscan
    obtain rfl := Except.ok.inj (hread.symm.trans hread')
    exact ⟨hscan, (showsLines_iff hlimit hpage).mp hshows⟩
  · rintro ⟨hscan, hfirst⟩
    obtain ⟨page, hread, hpage⟩ := readForwardPage_page startColumn hstart hlimit hscan
    refine ⟨⟨page, hread, hpage.start_eq, (showsLines_iff hlimit hpage).mpr hfirst⟩, ?_⟩
    obtain ⟨pages, hpages, hchars⟩ := @exists_follows content lineLimit hlimit hscan 1 0 le_rfl
    refine ⟨pages, hpages, ?_⟩
    have hall : linesFrom content 1 0 = visibleLines content := by
      rw [linesFrom]
      cases visibleLines content with
      | nil => rfl
      | cons line lines => rfl
    rw [hchars, hall]

theorem pagingExact_oneLine : PagingExact (lit "\uFEFFab\r\n\r\ncd") 1 2 1 := by
  refine (pagingExact_iff (by decide) (by decide)).mpr ⟨by decide, ?_⟩
  intro first second rest heq _
  cases heq
  decide

/-- The blank line before `abc` is lost from a page that says it shows both lines. -/
theorem blankLine_lost : ¬ PagingExact (lit "\nabc") 1 2 0 := by
  intro h
  obtain ⟨page, hread, _, hshows⟩ := h.1
  have hpage : readForwardPage (lit "\nabc") 1 2 0 = .ok
      { start := 1, endLine := 2, nextStart := none, nextColumn := none, hasBom := false
        text := lit "abc", truncated := false, truncationReason := none } := rfl
  obtain rfl := Except.ok.inj (hpage.symm.trans hread)
  revert hshows
  rw [ShowsLines]
  decide

end CodeSeeX.FilePages
