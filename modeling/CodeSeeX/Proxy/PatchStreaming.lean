import CodeSeeX.Proxy.PatchNormalization
import CodeSeeX.Proxy.PatchStream

/-!
# A streamed patch is never taken back

The normalizer of a stream gives out the lines of a patch while they arrive and holds back every
hunk of an updated file until its end. What it has given out, and what it owes for the lines it
has read, are together the normalized patch; so nothing given out has to change later.
-/
namespace CodeSeeX.PatchStream

open Native Sections List

variable {owing : Text} {lines : List Text}

/-! ## Line endings -/

/-- The text with line feeds only, read from left to right; the flag says that the last character
read is a carriage return. -/
def unixFeed : Bool → Text → Text
  | _, [] => []
  | pendingCr, ch :: rest =>
      if pendingCr && ch = '\n' then unixFeed false rest
      else if ch = '\r' then '\n' :: unixFeed true rest
      else ch :: unixFeed false rest

theorem replace_return (value : Text) :
    Text.replace ['\r'] ['\n'] value = value.map fun ch => if ch = '\r' then '\n' else ch := by
  induction value with
  | nil => simp [Text.replace_eq, Infix.splitFirst]
  | cons ch rest ih =>
    rw [Text.replace_cons (by simp), map_cons]
    by_cases hch : ch = '\r'
    · subst hch
      simp [ih]
    · simp [hch, Ne.symm hch, ih]

/-- The text behind a line feed in front of it. -/
def skipFeed : Text → Text
  | '\n' :: rest => rest
  | value => value

theorem unixNewlines_cons (ch : Char) (rest : Text) : unixNewlines (ch :: rest) =
    if ch = '\r' then '\n' :: unixNewlines (skipFeed rest) else ch :: unixNewlines rest := by
  simp only [unixNewlines, replace_return]
  rw [Text.replace_cons (by simp)]
  by_cases hch : ch = '\r'
  · subst hch
    cases rest with
    | nil => simp [skipFeed]
    | cons next rest =>
      by_cases hnext : next = '\n'
      · subst hnext
        simp [skipFeed]
      · have hskip : skipFeed (next :: rest) = next :: rest := by
          rw [skipFeed]
          exact fun later heq => hnext (cons.inj heq).1
        simp [hskip, Ne.symm hnext]
  · simp [hch, Ne.symm hch]

theorem unixFeed_eq (pendingCr : Bool) (value : Text) :
    unixFeed pendingCr value = unixNewlines (if pendingCr then skipFeed value else value) := by
  induction value generalizing pendingCr with
  | nil => cases pendingCr <;> simp [unixFeed, unixNewlines, skipFeed, Text.replace_eq,
      Infix.splitFirst]
  | cons ch rest ih =>
    rw [unixFeed]
    by_cases hfeed : pendingCr = true ∧ ch = '\n'
    · obtain ⟨rfl, rfl⟩ := hfeed
      simp [ih, skipFeed]
    · have hskip : (if pendingCr then skipFeed (ch :: rest) else ch :: rest) = ch :: rest := by
        cases pendingCr with
        | false => rfl
        | true =>
          rw [if_pos rfl, skipFeed]
          exact fun later heq => hfeed ⟨rfl, (cons.inj heq).1⟩
      rw [if_neg (by simpa using hfeed), hskip, unixNewlines_cons, ih, ih]
      rfl

/-! ## What is owed -/

/-- The hunk that is held back behind its first line. -/
def buffered (header : Text) (body : List Text) : StreamHunkBuffer where
  lines := header :: body
  blankLines := blankIndexes 1 body
  hasNonemptyUnprefixedLine := body.any isUnprefixed

/-- The normalizer as the pass over whole lines sees it: `held` are the lines of the open hunk
behind its first line `header`. -/
structure Reading (normalizer : PatchStreamNormalizer) (held : Option (List Text))
    (header : Text) : Prop where
  hunk : normalizer.hunkBuffer = held.map (buffered header)
  line : '\n' ∉ normalizer.line

/-- The lines that are still to be given out when the lines `later` end the patch. -/
def owed (inUpdateFile : Bool) (held : Option (List Text)) (header : Text) (later : List Text) :
    List Text :=
  (held.map fun _ => header).toList ++ rewrite patchMark repairBody inUpdateFile held later

theorem linesText_append (front back : List Text) :
    linesText (front ++ back) = linesText front ++ linesText back := by
  simp [linesText]

theorem repaired_fold (front body : List Text) :
    (blankIndexes front.length body).foldl (fun lines index => lines.set index [' '])
      (front ++ body) = front ++ body.map repairBlank := by
  induction body generalizing front with
  | nil => rfl
  | cons line body ih =>
    have hlater := ih (front ++ [repairBlank line])
    rw [blankIndexes]
    by_cases hline : line = []
    · subst hline
      simpa [repairBlank] using hlater
    · simpa [repairBlank, hline] using hlater

theorem buffered_repaired (header : Text) (body : List Text) :
    (buffered header body).repaired = header :: repairBody body := by
  rw [StreamHunkBuffer.repaired, repairBody]
  show (if body.any isUnprefixed then header :: body else _) = _
  split_ifs
  · rfl
  · exact repaired_fold [header] body

theorem buffered_push (header : Text) (body : List Text) (line : Text) :
    (buffered header body).push line = buffered header (body ++ [line]) := by
  simp only [StreamHunkBuffer.push, buffered, blankIndexes_append, any_append]
  have hindex : 1 + body.length = (header :: body).length := by
    rw [length_cons]
    omega
  rw [hindex]
  split_ifs with hline <;> simp [isUnprefixed, hline]

namespace PatchStreamNormalizer

variable {normalizer : PatchStreamNormalizer} {held : Option (List Text)} {header : Text}

theorem flush_reading (h : Reading normalizer held header) :
    normalizer.flushHunkBuffer = ({ normalizer with hunkBuffer := none },
      linesText ((held.map fun _ => header).toList ++ (held.map repairBody).getD [])) := by
  obtain ⟨line, pendingCr, inUpdateFile, hunk⟩ := normalizer
  obtain rfl : hunk = held.map (buffered header) := h.hunk
  cases held with
  | none => rfl
  | some body => simp [flushHunkBuffer, buffered_repaired]

/-- A line ends or begins a hunk exactly if it is a mark of the pass. -/
theorem handleBoundaryLine_eq (h : Reading normalizer held header) (line : Text) :
    normalizer.handleBoundaryLine line =
      (patchMark normalizer.inUpdateFile line).map fun mark =>
        ({ normalizer with
            inUpdateFile := mark.1, hunkBuffer := (opened mark.2).map (buffered line) },
          linesText ((held.map fun _ => header).toList ++ (held.map repairBody).getD []) ++
            if mark.2 then [] else linesText [line]) := by
  rw [handleBoundaryLine, flush_reading h, patchMark]
  split_ifs <;> simp [opened, buffered, blankIndexes]

/-- A line is read: what was owed is given out or still owed. -/
theorem pushLine_reading (h : Reading normalizer held header) (later : List Text) :
    ∃ held' header', Reading normalizer.pushLine.1 held' header' ∧
      normalizer.pushLine.1.pendingCr = normalizer.pendingCr ∧
      linesText (owed normalizer.inUpdateFile held header (normalLine normalizer.line :: later)) =
        normalizer.pushLine.2 ++
          linesText (owed normalizer.pushLine.1.inUpdateFile held' header' later) := by
  have hline : normalizePatchLine normalizer.line = normalLine normalizer.line := rfl
  rw [pushLine, hline, handleBoundaryLine_eq h]
  cases hmark : patchMark normalizer.inUpdateFile (normalLine normalizer.line) with
  | some mark =>
    obtain ⟨inUpdateFile, opens⟩ := mark
    refine ⟨opened opens, normalLine normalizer.line, ⟨rfl, h.line⟩, rfl, ?_⟩
    cases opens <;> cases held <;> simp [owed, opened, rewrite, collect, hmark, linesText]
  | none =>
    cases held with
    | none =>
      obtain ⟨line, pendingCr, inUpdateFile, hunk⟩ := normalizer
      obtain rfl : hunk = none := h.hunk
      exact ⟨none, header, ⟨rfl, h.line⟩, rfl, by simp [owed, rewrite, collect, hmark, linesText]⟩
    | some body =>
      obtain ⟨line, pendingCr, inUpdateFile, hunk⟩ := normalizer
      obtain rfl : hunk = some (buffered header body) := h.hunk
      refine ⟨some (body ++ [normalLine line]), header, ⟨?_, h.line⟩, rfl, ?_⟩
      · simp [buffered_push]
      · simp [owed, rewrite, collect, hmark]

/-- What the normalizer owes for the rest of the patch. -/
def Owes (normalizer : PatchStreamNormalizer) (rest owing : Text) : Prop :=
  ∃ held header, Reading normalizer held header ∧ owing =
    linesText (owed normalizer.inUpdateFile held header
      (((normalizer.line ++ unixFeed normalizer.pendingCr rest).splitOn '\n').map normalLine))

theorem splitOn_line {line : Text} (h : '\n' ∉ line) (rest : Text) :
    (line ++ '\n' :: rest).splitOn '\n' = line :: rest.splitOn '\n' := by
  have hback : ('\n' :: rest).splitOn '\n' = [] :: rest.splitOn '\n' := by
    simp [splitOn_cons_eq_if_modifyHead]
  rw [BackwardLines.splitOn_append '\n' hback, append_nil, splitOn_eq_singleton h]
  rfl

/-- A line end gives out what is not owed any more. -/
theorem flushLine_owes (h : Reading normalizer held header) (pendingCr : Bool) (rest : Text) :
    ∃ owing, Owes { normalizer.flushLine.1 with pendingCr := pendingCr } rest owing ∧
      linesText (owed normalizer.inUpdateFile held header
        (((normalizer.line ++ '\n' :: unixFeed pendingCr rest).splitOn '\n').map normalLine)) =
      normalizer.flushLine.2 ++ owing := by
  rw [splitOn_line h.line, map_cons]
  obtain ⟨held', header', hread, _, heq⟩ :=
    pushLine_reading h (((unixFeed pendingCr rest).splitOn '\n').map normalLine)
  exact ⟨_, ⟨held', header', ⟨hread.hunk, not_mem_nil⟩, rfl⟩, heq⟩

theorem feedChar_owes (ch : Char) (rest : Text) (h : normalizer.Owes (ch :: rest) owing) :
    ∃ owing', (normalizer.feedChar ch).1.Owes rest owing' ∧
      owing = (normalizer.feedChar ch).2 ++ owing' := by
  obtain ⟨held, header, hread, rfl⟩ := h
  have hplain : Reading { normalizer with pendingCr := false } held header := ⟨hread.hunk, hread.line⟩
  rw [feedChar, unixFeed]
  by_cases hfeed : (normalizer.pendingCr && ch = '\n') = true
  · rw [if_pos hfeed, if_pos hfeed]
    exact ⟨_, ⟨held, header, hplain, rfl⟩, rfl⟩
  rw [if_neg hfeed, if_neg hfeed]
  by_cases hreturn : ch = '\r'
  · subst hreturn
    exact flushLine_owes hplain true rest
  by_cases hnewline : ch = '\n'
  · subst hnewline
    obtain ⟨_, _, _, hpending, _⟩ := pushLine_reading hplain []
    have hsame : { flushLine { normalizer with pendingCr := false } |>.1 with pendingCr := false } =
        (flushLine { normalizer with pendingCr := false }).1 := by
      simp [flushLine, hpending]
    have howes := flushLine_owes hplain false rest
    rwa [hsame] at howes
  · simp only [hreturn, hnewline, if_false]
    refine ⟨_, ⟨held, header, ⟨hread.hunk, ?_⟩, rfl⟩, by simp⟩
    simp [hread.line, Ne.symm hnewline]

theorem feed_owes (front rest : Text) (h : normalizer.Owes (front ++ rest) owing) :
    ∃ owing', (normalizer.feed front).1.Owes rest owing' ∧
      owing = (normalizer.feed front).2 ++ owing' := by
  induction front generalizing normalizer owing with
  | nil => exact ⟨owing, h, rfl⟩
  | cons ch front ih =>
    obtain ⟨owing', hread, rfl⟩ := feedChar_owes ch (front ++ rest) h
    obtain ⟨owing'', hread', rfl⟩ := ih hread
    exact ⟨owing'', hread', by simp [feed]⟩

theorem linesText_ends (h : lines ≠ []) :
    (linesText lines).getLast? = some '\n' := by
  rw [← dropLast_concat_getLast h, linesText_append]
  simp [linesText]

theorem Owes.ends {owing rest : Text} (h : normalizer.Owes rest owing) :
    owing.getLast? = some '\n' := by
  obtain ⟨held, header, _, rfl⟩ := h
  apply linesText_ends
  cases held with
  | some body => simp [owed]
  | none =>
    cases hlines : (normalizer.line ++ unixFeed normalizer.pendingCr rest).splitOn '\n' with
    | nil => exact absurd hlines (splitOn_ne_nil _ _)
    | cons line lines =>
      rw [owed, rewrite, map_cons, collect]
      cases patchMark normalizer.inUpdateFile (normalLine line) <;> simp

theorem repairBody_blank (body : List Text) :
    ∃ blank, repairBody (body ++ [[]]) = repairBody body ++ [blank] := by
  have hany : (body ++ [([] : Text)]).any isUnprefixed = body.any isUnprefixed := by
    simp [isUnprefixed]
  rw [repairBody, repairBody, hany]
  split_ifs
  · exact ⟨[], rfl⟩
  · exact ⟨repairBlank [], map_append⟩

/-- Behind the whole patch, `finish` gives out a part of what is owed, and never the line feed at
its end. -/
theorem finish_owes (h : normalizer.Owes [] owing) :
    normalizer.finish.2 <+: owing ∧ normalizer.finish.2 ≠ owing := by
  have hends := h.ends
  obtain ⟨held, header, hread, rfl⟩ := h
  rw [finish]
  by_cases hline : normalizer.line = []
  · have hmark : patchMark normalizer.inUpdateFile [] = none := by
      cases normalizer.inUpdateFile <;> decide
    have hlater : ∃ blank, rewrite patchMark repairBody normalizer.inUpdateFile held [[]] =
        (held.map repairBody).getD [] ++ [blank] := by
      cases held with
      | none => exact ⟨[], by simp [rewrite, collect, hmark]⟩
      | some body => simpa [rewrite, collect, hmark] using repairBody_blank body
    obtain ⟨blank, hblank⟩ := hlater
    have hnil : normalLine [] = [] := by decide
    rw [if_pos hline, flush_reading hread, owed, hline, unixFeed, append_nil,
      splitOn_nil, map_singleton, hnil, hblank, ← append_assoc,
      linesText_append _ [blank]]
    exact ⟨prefix_append _ _, by simp [linesText]⟩
  · rw [if_neg hline]
    have hlines : (normalizer.line ++ unixFeed normalizer.pendingCr []).splitOn '\n' =
        [normalizer.line] := by
      rw [unixFeed, append_nil, splitOn_eq_singleton hread.line]
    obtain ⟨held', header', _, _, heq⟩ := pushLine_reading hread []
    rw [hlines, map_singleton, heq] at hends ⊢
    dsimp only
    split_ifs with hlast
    · have hne : normalizer.pushLine.2 ≠ [] := by
        intro hnil
        simp [hnil] at hlast
      refine ⟨( dropLast_prefix _).trans (prefix_append _ _), fun hsame => ?_⟩
      have hlength := congrArg length hsame
      have hpos := length_pos_iff.mpr hne
      rw [length_dropLast, length_append] at hlength
      omega
    · refine ⟨prefix_append _ _, fun hsame => hlast ?_⟩
      exact (congrArg getLast? hsame).trans hends

/-- The chunks of a stream one after the other. -/
def feedChunks (normalizer : PatchStreamNormalizer) : List Text → PatchStreamNormalizer × Text
  | [] => (normalizer, [])
  | chunk :: chunks =>
      let (normalizer, output) := normalizer.feed chunk
      let (normalizer, rest) := feedChunks normalizer chunks
      (normalizer, output ++ rest)

theorem feedChunks_eq (normalizer : PatchStreamNormalizer) (chunks : List Text) :
    normalizer.feedChunks chunks = normalizer.feed chunks.flatten := by
  induction chunks generalizing normalizer with
  | nil => rfl
  | cons chunk chunks ih => simp [feedChunks, feed_append, ih]

end PatchStreamNormalizer

open PatchStreamNormalizer

theorem linesText_eq (h : lines ≠ []) :
    linesText lines = Text.join ['\n'] lines ++ ['\n'] := by
  induction lines with
  | nil => exact absurd rfl h
  | cons line lines ih =>
    cases lines with
    | nil => simp [linesText, Text.join]
    | cons next lines =>
      have hlater := ih (cons_ne_nil _ _)
      have hcons : linesText (line :: next :: lines) =
          line ++ '\n' :: linesText (next :: lines) := by simp [linesText]
      rw [hcons, hlater]
      simp [Text.join, intercalate]

/-- Before its first character, the normalizer owes the normalized patch and a line feed. -/
theorem fresh_owes (value : Text) : Owes {} value
    ((normalizePatchNewlinesWithDiagnostic value).input ++ ['\n']) := by
  refine ⟨none, [], ⟨rfl, not_mem_nil⟩, ?_⟩
  have hlines : (unixFeed false value).splitOn '\n' = patchLines value := by
    rw [unixFeed_eq]
    rfl
  rw [(normalizePatch_eq value).1, ← linesText_eq (normalLines_ne_nil value)]
  show _ = linesText (rewrite patchMark repairBody false none
    (((unixFeed false value).splitOn '\n').map normalLine))
  rw [hlines]
  rfl

/-- What a stream has given out of a patch is the beginning of the normalized patch, at any time
and also when it is finished. -/
theorem streamed_beginsNormalized (chunks : List Text) :
    let normalized := (normalizePatchNewlinesWithDiagnostic chunks.flatten).input
    (∀ sent, sent <+: chunks → (feedChunks {} sent).2 <+: normalized) ∧
      (feedChunks {} chunks).2 ++ (feedChunks {} chunks).1.finish.2 <+: normalized := by
  intro normalized
  have hcut : ∀ given : Text, given <+: normalized ++ ['\n'] → given ≠ normalized ++ ['\n'] →
      given <+: normalized := by
    intro given hgiven hne
    obtain hlast | hbefore := prefix_concat_iff.mp hgiven
    · exact absurd hlast hne
    · exact hbefore
  constructor
  · rintro sent ⟨later, rfl⟩
    have howes := fresh_owes (sent ++ later).flatten
    rw [flatten_append] at howes
    obtain ⟨owing, hlater, heq⟩ := feed_owes sent.flatten later.flatten howes
    rw [← flatten_append] at heq
    rw [feedChunks_eq]
    refine hcut _ ⟨owing, heq.symm⟩ fun hall => ?_
    have hnil : owing = [] := self_eq_append_right.mp (hall.trans heq)
    have hends := hlater.ends
    simp [hnil] at hends
  · have howes := fresh_owes chunks.flatten
    rw [← append_nil chunks.flatten] at howes
    obtain ⟨owing, hlater, heq⟩ := feed_owes chunks.flatten [] howes
    obtain ⟨hbegins, hne⟩ := finish_owes hlater
    rw [append_nil] at heq
    rw [feedChunks_eq]
    refine hcut _ ?_ fun hall => hne ?_
    · rw [heq]
      exact (prefix_append_right_inj _).mpr hbegins
    · exact append_cancel_left (hall.trans heq)

end CodeSeeX.PatchStream
