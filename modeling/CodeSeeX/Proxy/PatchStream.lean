import CodeSeeX.Proxy.PatchRepair

/-!
# The patch in the arguments of a streamed call

The arguments of an `apply_patch` call are a JSON object, and the patch is one of its strings.
While they arrive, an extractor follows the strings of the object character by character and
decodes the one that is the patch; behind it a normalizer gives out the lines of the patch as far
as they cannot change any more.
-/
namespace CodeSeeX.PatchStream
open Native

/-! ## Strings of a JSON text -/

structure JsonStringDecoder where
  escaped : Bool := false
  unicodeEscape : Option Text := none

inductive JsonStringStatus where
  | continuing
  | ended
  deriving DecidableEq

def isAsciiHexdigit (ch : Char) : Bool :=
  ch.isDigit || ('a' ≤ ch && ch ≤ 'f') || ('A' ≤ ch && ch ≤ 'F')

def hexDigit (ch : Char) : ℕ :=
  if ch.isDigit then ch.toNat - '0'.toNat
  else if 'a' ≤ ch then ch.toNat - 'a'.toNat + 10
  else ch.toNat - 'A'.toNat + 10

/-- `u32::from_str_radix(hex, 16)` for hexadecimal digits. -/
def fromHex (hex : Text) : ℕ := hex.foldl (fun value ch => value * 16 + hexDigit ch) 0

/-- `char::from_u32`: no character for a surrogate. -/
def charFromU32 (value : ℕ) : Option Char :=
  if h : value.isValidChar then some (Char.ofNatAux value h) else none

/-- The character that a backslash and this one stand for, `u` apart. -/
def unescape : Char → Char
  | 'b' => Char.ofNat 8
  | 'f' => Char.ofNat 12
  | 'n' => '\n'
  | 'r' => '\r'
  | 't' => '\t'
  | other => other

/-- One character of a string: the decoder behind it, whether the string ends here, and what was
decoded. -/
def JsonStringDecoder.feed (decoder : JsonStringDecoder) (ch : Char) :
    JsonStringDecoder × JsonStringStatus × Text :=
  match decoder.unicodeEscape with
  | some hex =>
      if isAsciiHexdigit ch then
        let hex := hex ++ [ch]
        if hex.length = 4 then
          ({ decoder with unicodeEscape := none }, .continuing, (charFromU32 (fromHex hex)).toList)
        else ({ decoder with unicodeEscape := some hex }, .continuing, [])
      else ({ decoder with unicodeEscape := none }, .continuing, [ch])
  | none =>
      if decoder.escaped then
        if ch = 'u' then ({ escaped := false, unicodeEscape := some [] }, .continuing, [])
        else ({ decoder with escaped := false }, .continuing, [unescape ch])
      else if ch = '"' then (decoder, .ended, [])
      else if ch = '\\' then ({ decoder with escaped := true }, .continuing, [])
      else (decoder, .continuing, [ch])

/-! ## The string that is the patch -/

inductive JsonFieldMode where
  | seekingKey
  | inKey
  | afterKey
  | beforeValue
  | inTargetValue
  | inIgnoredString
  deriving DecidableEq

structure JsonStringFieldExtractor where
  mode : JsonFieldMode := .seekingKey
  decoder : JsonStringDecoder := {}
  currentKey : Text := []
  pendingKey : Text := []

def targetKeys : List Text := ["patch", "input"]

namespace JsonStringFieldExtractor

/-- One character of the arguments: the extractor behind it and what it adds to the patch. -/
def feedChar (extractor : JsonStringFieldExtractor) (ch : Char) :
    JsonStringFieldExtractor × Text :=
  match extractor.mode with
  | .seekingKey =>
      if ch = '"' then ({ extractor with currentKey := [], decoder := {}, mode := .inKey }, [])
      else (extractor, [])
  | .inKey =>
      let (decoder, status, decoded) := extractor.decoder.feed ch
      if status = .ended then
        ({ extractor with
          decoder := decoder, pendingKey := extractor.currentKey, mode := .afterKey }, [])
      else
        ({ extractor with
          decoder := decoder, currentKey := extractor.currentKey ++ decoded }, [])
  | .afterKey =>
      if Text.isWhitespace ch then (extractor, [])
      else if ch = ':' then ({ extractor with mode := .beforeValue }, [])
      else ({ extractor with mode := .seekingKey }, [])
  | .beforeValue =>
      if Text.isWhitespace ch then (extractor, [])
      else if ch = '"' then
        ({ extractor with
          decoder := {}
          mode := if extractor.pendingKey ∈ targetKeys then .inTargetValue else .inIgnoredString },
          [])
      else ({ extractor with mode := .seekingKey }, [])
  | .inTargetValue =>
      let (decoder, status, decoded) := extractor.decoder.feed ch
      if status = .ended then ({ extractor with decoder := decoder, mode := .seekingKey }, [])
      else ({ extractor with decoder := decoder }, decoded)
  | .inIgnoredString =>
      let (decoder, status, _) := extractor.decoder.feed ch
      if status = .ended then ({ extractor with decoder := decoder, mode := .seekingKey }, [])
      else ({ extractor with decoder := decoder }, [])

def feed (extractor : JsonStringFieldExtractor) : Text → JsonStringFieldExtractor × Text
  | [] => (extractor, [])
  | ch :: chunk =>
      let (extractor, output) := extractor.feedChar ch
      let (extractor, rest) := feed extractor chunk
      (extractor, output ++ rest)

end JsonStringFieldExtractor

/-! ## The lines of the patch -/

structure StreamHunkBuffer where
  lines : List Text
  blankLines : List ℕ := []
  hasNonemptyUnprefixedLine : Bool := false

structure PatchStreamNormalizer where
  line : Text := []
  pendingCr : Bool := false
  inUpdateFile : Bool := false
  hunkBuffer : Option StreamHunkBuffer := none

def normalizePatchLine (line : Text) : Text := (normalizeUnifiedHunkHeader line).getD line

/-- The lines, each with its line feed. -/
def linesText (lines : List Text) : Text := (lines.map fun line => line ++ ['\n']).flatten

def StreamHunkBuffer.repaired (hunk : StreamHunkBuffer) : List Text :=
  if hunk.hasNonemptyUnprefixedLine then hunk.lines
  else hunk.blankLines.foldl (fun lines index => lines.set index [' ']) hunk.lines

def StreamHunkBuffer.push (hunk : StreamHunkBuffer) (line : Text) : StreamHunkBuffer where
  lines := hunk.lines ++ [line]
  blankLines := if line = [] then hunk.blankLines ++ [hunk.lines.length] else hunk.blankLines
  hasNonemptyUnprefixedLine := hunk.hasNonemptyUnprefixedLine ||
    decide (line ≠ [] ∧ line.head? ∉ [some ' ', some '+', some '-'])

namespace PatchStreamNormalizer

variable (normalizer : PatchStreamNormalizer)

def flushHunkBuffer : PatchStreamNormalizer × Text :=
  match normalizer.hunkBuffer with
  | none => (normalizer, [])
  | some hunk => ({ normalizer with hunkBuffer := none }, linesText hunk.repaired)

/-- A line that ends a hunk or begins one; `none` stands for `false`. -/
def handleBoundaryLine (line : Text) : Option (PatchStreamNormalizer × Text) :=
  let (flushed, output) := normalizer.flushHunkBuffer
  if line.startsWith "*** Update File: " then
    some ({ flushed with inUpdateFile := true }, output ++ linesText [line])
  else if line.startsWith "*** Add File: " || line.startsWith "*** Delete File: " ||
      line.startsWith "*** End Patch" then
    some ({ flushed with inUpdateFile := false }, output ++ linesText [line])
  else if line.startsWith "*** Move to: " then some (flushed, output ++ linesText [line])
  else if normalizer.inUpdateFile && line.startsWith "@@" then
    some ({ flushed with hunkBuffer := some { lines := [line] } }, output)
  else none

def pushLine : PatchStreamNormalizer × Text :=
  let line := normalizePatchLine normalizer.line
  match normalizer.handleBoundaryLine line with
  | some outcome => outcome
  | none =>
      match normalizer.hunkBuffer with
      | some hunk => ({ normalizer with hunkBuffer := some (hunk.push line) }, [])
      | none => (normalizer, linesText [line])

def flushLine : PatchStreamNormalizer × Text :=
  let (normalizer, output) := normalizer.pushLine
  ({ normalizer with line := [] }, output)

def feedChar (ch : Char) : PatchStreamNormalizer × Text :=
  if normalizer.pendingCr && ch = '\n' then ({ normalizer with pendingCr := false }, [])
  else
    let normalizer := { normalizer with pendingCr := false }
    if ch = '\r' then
      let (normalizer, output) := normalizer.flushLine
      ({ normalizer with pendingCr := true }, output)
    else if ch = '\n' then normalizer.flushLine
    else ({ normalizer with line := normalizer.line ++ [ch] }, [])

def feed (normalizer : PatchStreamNormalizer) : Text → PatchStreamNormalizer × Text
  | [] => (normalizer, [])
  | ch :: chunk =>
      let (normalizer, output) := normalizer.feedChar ch
      let (normalizer, rest) := feed normalizer chunk
      (normalizer, output ++ rest)

/-- What is left when the call is complete. -/
def finish : PatchStreamNormalizer × Text :=
  if normalizer.line = [] then normalizer.flushHunkBuffer
  else
    let (normalizer, output) := normalizer.pushLine
    ({ normalizer with line := [] },
      if output.getLast? = some '\n' then output.dropLast else output)

/-- Where the patch is cut does not matter to the normalizer. -/
theorem feed_append (normalizer : PatchStreamNormalizer) (front back : Text) :
    normalizer.feed (front ++ back) =
      (((normalizer.feed front).1.feed back).1,
        (normalizer.feed front).2 ++ ((normalizer.feed front).1.feed back).2) := by
  induction front generalizing normalizer with
  | nil => simp [feed]
  | cons ch front ih => simp [feed, ih]

end PatchStreamNormalizer

end CodeSeeX.PatchStream
