import CodeSeeX.Proxy.Sse

/-!
# Repair of `apply_patch` calls

The client executes only patches in its own grammar. The patch text of a call is
normalized, unified hunk headers and blank context lines first of all, and three paths
deliver the result: one frame of a stream, a buffered body, and the item of a chat call.
-/
namespace CodeSeeX.Native

structure ApplyPatchInputNormalization where
  input : Text
  inputChars : ℕ
  unifiedHunkHeadersRepaired : ℕ
  blankContextLinesRepaired : ℕ

structure ApplyPatchRepairTally where
  unifiedHunkHeaders : ℕ := 0
  blankContextLines : ℕ := 0
  deriving DecidableEq

namespace ApplyPatchRepairTally

def fromNormalization (normalization : ApplyPatchInputNormalization) : ApplyPatchRepairTally where
  unifiedHunkHeaders := normalization.unifiedHunkHeadersRepaired
  blankContextLines := normalization.blankContextLinesRepaired

def merge (tally other : ApplyPatchRepairTally) : ApplyPatchRepairTally where
  unifiedHunkHeaders := tally.unifiedHunkHeaders + other.unifiedHunkHeaders
  blankContextLines := tally.blankContextLines + other.blankContextLines

def isEmpty (tally : ApplyPatchRepairTally) : Bool :=
  tally.unifiedHunkHeaders = 0 ∧ tally.blankContextLines = 0

end ApplyPatchRepairTally

/-! ### Patch texts -/

/-- A line number, or a line number and a count, and what follows it. -/
def takeUnifiedRange (value : Text) : Option (Text × Text) :=
  let digits := value.takeWhile Char.isDigit
  if digits = [] then none
  else match value.drop digits.length with
    | ',' :: rest =>
        let count := rest.takeWhile Char.isDigit
        if count = [] then none else some (digits ++ ',' :: count, rest.drop count.length)
    | rest => some (digits, rest)

def normalizeUnifiedHunkHeader (line : Text) : Option Text := do
  let rest ← stripStart "@@ -" line
  let (_, rest) ← takeUnifiedRange rest
  let rest ← stripStart " +" rest
  let (_, rest) ← takeUnifiedRange rest
  let tail ← (stripStart " @@" rest).map Text.trimStart
  if tail = [] then some "@@" else some (("@@ " : Text) ++ tail)

def normalizeUnifiedHunkHeadersWithCount (value : Text) : Text × ℕ :=
  let lines := value.splitOn '\n'
  (Text.join ['\n'] (lines.map fun line => (normalizeUnifiedHunkHeader line).getD line),
    lines.countP fun line => (normalizeUnifiedHunkHeader line).isSome)

structure HunkBlankRepair where
  blankLines : List ℕ := []
  hasNonemptyUnprefixedLine : Bool := false

/-- The mutable variables of the pass over the lines of a patch. -/
structure BlankLinePass where
  lines : List Text
  inUpdateFile : Bool := false
  hunkRepair : Option HunkBlankRepair := none
  repaired : ℕ := 0

namespace BlankLinePass

def finishHunkBlankRepair (pass : BlankLinePass) : BlankLinePass :=
  match pass.hunkRepair with
  | none => pass
  | some repair =>
      if repair.hasNonemptyUnprefixedLine then { pass with hunkRepair := none }
      else repair.blankLines.foldl (fun pass index =>
        if pass.lines[index]? = some [] then
          { pass with lines := pass.lines.set index [' '], repaired := pass.repaired + 1 }
        else pass) { pass with hunkRepair := none }

def step (pass : BlankLinePass) (index : ℕ) : BlankLinePass :=
  let line := pass.lines.getD index []
  if line.startsWith "*** Update File: " then
    { pass.finishHunkBlankRepair with inUpdateFile := true }
  else if line.startsWith "*** Add File: " || line.startsWith "*** Delete File: " ||
      line.startsWith "*** End Patch" then
    { pass.finishHunkBlankRepair with inUpdateFile := false }
  else if line.startsWith "*** Move to: " then pass.finishHunkBlankRepair
  else if pass.inUpdateFile && line.startsWith "@@" then
    { pass.finishHunkBlankRepair with hunkRepair := some {} }
  else match pass.hunkRepair with
    | none => pass
    | some repair =>
        if line = [] then
          { pass with hunkRepair := some { repair with blankLines := repair.blankLines ++ [index] } }
        else if line.head? ∈ [some ' ', some '+', some '-'] then pass
        else { pass with hunkRepair := some { repair with hasNonemptyUnprefixedLine := true } }

end BlankLinePass

def repairUpdateHunkBlankContextLinesWithCount (value : Text) : Text × ℕ :=
  let lines := value.splitOn '\n'
  let pass := ((List.range lines.length).foldl BlankLinePass.step { lines }).finishHunkBlankRepair
  (Text.join ['\n'] pass.lines, pass.repaired)

def normalizePatchNewlinesWithDiagnostic (value : Text) : ApplyPatchInputNormalization :=
  let newlines := Text.replace ['\r'] ['\n'] (Text.replace ['\r', '\n'] ['\n'] value)
  let (normalized, unifiedHunkHeadersRepaired) := normalizeUnifiedHunkHeadersWithCount newlines
  let (input, blankContextLinesRepaired) := repairUpdateHunkBlankContextLinesWithCount normalized
  { input, inputChars := input.length, unifiedHunkHeadersRepaired, blankContextLinesRepaired }

/-! ### Calls -/

section
variable (fromStr : Text → Option Value)

def normalizeApplyPatchResponseInputWithDiagnostic (arguments : Text) :
    ApplyPatchInputNormalization :=
  match fromStr arguments with
  | none => normalizePatchNewlinesWithDiagnostic arguments
  | some value =>
      match value.getStr "patch" with
      | some patch => normalizePatchNewlinesWithDiagnostic patch
      | none =>
          match value.getStr "input" with
          | some input => normalizePatchNewlinesWithDiagnostic input
          | none => normalizePatchNewlinesWithDiagnostic arguments

/-- The client's item of a chat call; `id` is the fresh item id. -/
def nativeApplyPatchResponseItemFromChatCallWithId (callId arguments itemId : Text) : Value :=
  .object [("call_id", .string callId), ("id", .string itemId),
    ("input", .string (normalizeApplyPatchResponseInputWithDiagnostic fromStr arguments).input),
    ("name", .string "apply_patch"), ("status", .string "completed"),
    ("type", .string "custom_tool_call")]

def normalizeApplyPatchItemInput (item : Value) : Value × ApplyPatchRepairTally :=
  if item.getStr "type" ≠ some "custom_tool_call" ∨ item.getStr "name" ≠ some "apply_patch" then
    (item, {})
  else match item.getStr "input" with
    | none => (item, {})
    | some input =>
        let normalized := normalizeApplyPatchResponseInputWithDiagnostic fromStr input
        if normalized.input = input then (item, {})
        else (item.set "input" (.string normalized.input),
          ApplyPatchRepairTally.fromNormalization normalized)

/-- The item of an output item event. -/
def normalizeEventItem (payload : Value) : Value × ApplyPatchRepairTally :=
  match payload.get "item" with
  | some (.object fields) =>
      let (item, tally) := normalizeApplyPatchItemInput fromStr (.object fields)
      (payload.set "item" item, tally)
  | _ => (payload, {})

/-- The output items of a response event. -/
def normalizeEventOutput (payload : Value) : Value × ApplyPatchRepairTally :=
  match payload.get "response" with
  | some response =>
      match response.get "output" with
      | some (.array items) =>
          let normalized := items.map (normalizeApplyPatchItemInput fromStr)
          (payload.set "response" (response.set "output" (.array (normalized.map Prod.fst))),
            (normalized.map Prod.snd).foldl ApplyPatchRepairTally.merge {})
      | _ => (payload, {})
  | none => (payload, {})

def normalizeApplyPatchEventPayload (payload : Value) : Value × ApplyPatchRepairTally :=
  let (payload, itemTally) := normalizeEventItem fromStr payload
  let (payload, outputTally) := normalizeEventOutput fromStr payload
  (payload, itemTally.merge outputTally)

def normalizeApplyPatchSseFrame (frameText : Text) : Option (Bytes × ApplyPatchRepairTally) :=
  if !frameText.contains "custom_tool_call" then none
  else do
    let payload ← fromStr (frameData frameText).trim
    let (payload, tally) := normalizeApplyPatchEventPayload fromStr payload
    if tally.isEmpty then none
    else some (rewriteSseDataLines frameText payload.print, tally)

/-- The loop over `text.split_inclusive("\n\n")`: the output, and whether a frame changed. -/
def normalizeApplyPatchSseBody.loop (text : Text) : Bytes × Bool :=
  match _h : Infix.splitFirst ['\n', '\n'] text with
  | none =>
      if text = [] then ([], false)
      else match normalizeApplyPatchSseFrame fromStr text with
        | some (rewritten, _) => (rewritten, true)
        | none => (Text.bytes text, false)
  | some (frame, rest) =>
      let later := loop (rest.drop 2)
      match normalizeApplyPatchSseFrame fromStr frame with
      | some (rewritten, _) => (rewritten ++ lfDelimiter ++ later.1, true)
      | none => (Text.bytes frame ++ lfDelimiter ++ later.1, later.2)
termination_by text.length
decreasing_by
  have happ := congrArg List.length (Infix.splitFirst_append _h)
  have hpre := (Infix.splitFirst_starts _h).length_le
  simp only [List.length_append, List.length_drop, List.length_cons, List.length_nil] at *
  omega

def normalizeApplyPatchSseBody (body : Bytes) : Bytes :=
  match fromUtf8 body with
  | none => body
  | some text =>
      if !text.contains "custom_tool_call" then body
      else
        let (output, changed) := normalizeApplyPatchSseBody.loop fromStr text
        if changed then output else body

end

end CodeSeeX.Native
