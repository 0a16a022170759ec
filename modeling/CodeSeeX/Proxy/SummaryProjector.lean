import CodeSeeX.Text

/-!
# The summary of a reasoning text

What a client renders of the provider's reasoning. Every projection is the front part of
the text. Offsets into a text count its characters; the budget counts bytes.
-/
namespace CodeSeeX
open List

inductive ReasoningSummaryMode where
  | none
  | smart
  | fixed
  | full
  deriving DecidableEq

def ReasoningSummaryMode.budget : ReasoningSummaryMode → Option ℕ
  | smart => some 400
  | fixed => some 400
  | none => Option.none
  | full => Option.none

namespace Summary

/-- `.` ends a sentence only in front of a space. -/
def isBoundary (character : Char) (followedBySpace : Bool) : Bool :=
  if character ∈ ['\n', '!', '?', '\u3002', '\uff01', '\uff1f'] then true
  else if character = '.' then followedBySpace
  else false

def touchesBoundary (delta : Text) : Bool :=
  delta.any fun character =>
    character ∈ ['\n', '.', '!', '?', '\u3002', '\uff01', '\uff1f']

/-- `index` characters of `byteIndex` bytes have been passed. -/
def lastBoundaryWithin.loop (limit : ℕ) : ℕ → ℕ → Option ℕ → Text → Option ℕ
  | _, _, boundary, [] => boundary
  | index, byteIndex, boundary, character :: characters =>
      if limit < byteIndex + character.utf8Size then boundary
      else
        let followedBySpace := (characters.head?.map Text.isWhitespace).getD true
        loop limit (index + 1) (byteIndex + character.utf8Size)
          (if isBoundary character followedBySpace then some (index + 1) else boundary) characters

/-- The end of the last sentence or line that finishes within `limit` bytes. -/
def lastBoundaryWithin (text : Text) (limit : ℕ) : Option ℕ :=
  lastBoundaryWithin.loop limit 0 0 none text

/-- The number of whole characters in the first `limit` bytes. -/
def floorCharBoundary : Text → ℕ → ℕ
  | [], _ => 0
  | character :: characters, limit =>
      if character.utf8Size ≤ limit then
        floorCharBoundary characters (limit - character.utf8Size) + 1
      else 0

def trimToBudget (text : Text) (mode : ReasoningSummaryMode) : Text :=
  match mode.budget with
  | none => text
  | some budget =>
      if text.utf8Len ≤ budget then text
      else match lastBoundaryWithin text budget with
        | some stop => text.take stop
        | none => text.take (floorCharBoundary text budget)

/-- Line breaks right before the end do not count. -/
def trimLineEnd (text : Text) (stop : ℕ) : ℕ :=
  ((text.take stop).rdropWhile fun c => c = '\n' ∨ c = '\r').length

def firstParagraphEnd.loop (text : Text) : ℕ → List Text → ℕ
  | _, [] => trimLineEnd text text.length
  | offset, line :: lines =>
      if line.isBlank then trimLineEnd text offset else loop text (offset + line.length) lines

def firstParagraphEnd (text : Text) : ℕ := firstParagraphEnd.loop text 0 (Text.splitInclusive text)

def opensList (paragraph : Text) : Bool :=
  let trimmed := paragraph.trimEnd
  trimmed.endsWith [':'] || trimmed.endsWith ['\uff1a']

def isListItem (trimmed : Text) : Bool :=
  if trimmed.startsWith "- " || trimmed.startsWith "* " || trimmed.startsWith "+ " then true
  else
    let digits := (trimmed.takeWhile Char.isDigit).length
    if digits = 0 then false
    else
      let rest : Text := trimmed.drop digits
      rest.startsWith ". " || rest.startsWith ") "

def extendList.loop (start : ℕ) : ℕ → Bool → List Text → ℕ
  | stop, seenItem, [] => if seenItem then stop else start
  | stop, seenItem, line :: lines =>
      let trimmed := line.trim
      if trimmed = [] then
        if seenItem then stop else loop start (stop + line.length) seenItem lines
      else if !isListItem trimmed then if seenItem then stop else start
      else loop start (stop + line.length) true lines

def extendList (text : Text) (start : ℕ) : ℕ :=
  extendList.loop start start false (Text.splitInclusive (text.drop start))

/-- The first paragraph, with the list that it opens. -/
def smartStart (text : Text) : Text :=
  let paragraphEnd := firstParagraphEnd text
  if opensList (text.take paragraphEnd) then
    text.take (trimLineEnd text (extendList text paragraphEnd))
  else text.take paragraphEnd

def project (text : Text) : ReasoningSummaryMode → Text
  | .none => []
  | .full => text
  | .fixed => trimToBudget text .fixed
  | .smart => trimToBudget (smartStart text) .smart

def streamableLen (text : Text) (mode : ReasoningSummaryMode) : ℕ :=
  if mode = .none then 0
  else if mode = .full then text.length
  else (lastBoundaryWithin text (project text mode).utf8Len).getD 0

/-! ## A projection is a front part -/

theorem smartStart_isPrefix (text : Text) : smartStart text <+: text := by
  unfold smartStart
  dsimp only
  split
  · exact take_prefix _ _
  · exact take_prefix _ _

theorem trimToBudget_isPrefix (text : Text) (mode : ReasoningSummaryMode) :
    trimToBudget text mode <+: text := by
  unfold trimToBudget
  cases mode.budget with
  | none => exact prefix_refl _
  | some budget =>
    dsimp only
    split
    · exact prefix_refl _
    · split
      · exact take_prefix _ _
      · exact take_prefix _ _

theorem project_isPrefix (text : Text) (mode : ReasoningSummaryMode) :
    project text mode <+: text := by
  cases mode with
  | none => exact nil_prefix
  | full => exact prefix_refl _
  | fixed => exact trimToBudget_isPrefix text .fixed
  | smart => exact (trimToBudget_isPrefix _ .smart).trans (smartStart_isPrefix text)

end Summary

structure SummaryProjector where
  mode : ReasoningSummaryMode
  text : Text := []
  emitted : ℕ := 0
  finished : Bool := false

namespace SummaryProjector
open Summary

def new (mode : ReasoningSummaryMode) : SummaryProjector := { mode }

def emitUpTo (p : SummaryProjector) (target : ℕ) : Option Text × SummaryProjector :=
  if target ≤ p.emitted then (none, p)
  else (some ((p.text.take target).drop p.emitted), { p with emitted := target })

def push (p : SummaryProjector) (delta : Text) : Option Text × SummaryProjector :=
  if p.finished then (none, p)
  else
    let p := { p with text := p.text ++ delta }
    if p.mode ≠ .full ∧ touchesBoundary delta = false then (none, p)
    else p.emitUpTo (streamableLen p.text p.mode)

def finish (p : SummaryProjector) : Option Text × SummaryProjector :=
  if p.finished then (none, p)
  else
    let p := { p with finished := true }
    p.emitUpTo (project p.text p.mode).length

def summary (p : SummaryProjector) : Text := p.text.take p.emitted

end SummaryProjector
end CodeSeeX
