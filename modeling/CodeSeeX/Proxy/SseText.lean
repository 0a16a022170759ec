import CodeSeeX.Proxy.Sse

/-!
# The text of a frame

Bytes and characters of a frame, its raw lines, and what is read from a frame whose data
has been rewritten.
-/
namespace CodeSeeX
open List

variable {c : Char} {data : Text}

namespace Native

/-! ## Bytes -/

theorem fromUtf8_bytes (t : Text) : fromUtf8 (Text.bytes t) = some t := by
  have hbytes : (⟨(Text.bytes t).toArray⟩ : ByteArray) = t.utf8Encode := by
    apply ByteArray.ext
    rw [utf8Encode, data_toByteArray]
    rfl
  rw [fromUtf8, hbytes, utf8Decode?_utf8Encode]
  simp

end Native

/-! ## Printed values -/

namespace Value

/-- A character that a printed value may hold. -/
def Printable (c : Char) : Prop := 32 ≤ c.toNat

theorem printable_of_digit (h : c.isDigit = true) : Printable c := by
  have hle : 48 ≤ c.toNat := (Char.isDigit_iff_toNat.mp h).1
  show 32 ≤ c.toNat
  omega

theorem printable_of_all {t : Text} (h : (t.all fun c => 32 ≤ c.toNat) = true) :
    ∀ c ∈ t, Printable c := by
  intro c hc
  show 32 ≤ c.toNat
  simpa using all_eq_true.mp h c hc

theorem printable_escapeChar (c : Char) : ∀ d ∈ escapeChar c, Printable d := by
  have hhex : ∀ n < 32, ((("\\u" : Text) ++ (Nat.toDigits 16 n).leftpad 4 '0').all fun d =>
      32 ≤ d.toNat) = true := by decide +kernel
  have hescape : ∀ t ∈ [("\\\"" : Text), "\\\\", "\\b", "\\t", "\\n", "\\f", "\\r"],
      (t.all fun d => 32 ≤ d.toNat) = true := by decide +kernel
  simp only [forall_mem_cons] at hescape
  obtain ⟨hquote, hslash, hb, ht, hn, hf, hr, _⟩ := hescape
  simp only [escapeChar]
  split_ifs with h1 h2 h3 h4 h5 h6 h7 h8
  · exact printable_of_all hquote
  · exact printable_of_all hslash
  · exact printable_of_all hb
  · exact printable_of_all ht
  · exact printable_of_all hn
  · exact printable_of_all hf
  · exact printable_of_all hr
  · exact printable_of_all (hhex c.toNat h8)
  · intro d hd
    rw [mem_singleton.mp hd]
    exact not_lt.mp h8

theorem printable_quote (s : Text) : ∀ c ∈ quote s, Printable c := by
  intro c hc
  simp only [quote, mem_append, mem_singleton, mem_flatMap] at hc
  rcases hc with (rfl | ⟨d, _, hc⟩) | rfl
  · show 32 ≤ _
    decide
  · exact printable_escapeChar d c hc
  · show 32 ≤ _
    decide

/-- The characters of a number are digits or among a few others. -/
theorem mem_numberText {n : Number} (h : c ∈ numberText n) :
    c.isDigit = true ∨ c ∈ ['+', '-', '.', 'e'] := by
  cases n with
  | posInt n => exact .inl (Nat.isDigit_of_mem_toDigits (by decide) (by decide) h)
  | negInt n =>
    have hrepr : ∀ k : ℕ, ∀ d ∈ (Nat.repr k).toList, d.isDigit = true := by
      intro k d hd
      rw [Nat.toList_repr] at hd
      exact Nat.isDigit_of_mem_toDigits (by decide) (by decide) hd
    have hint : c ∈ (Int.repr n.toInt).toList := h
    cases hn : n.toInt with
    | ofNat k =>
      rw [hn] at hint
      exact .inl (hrepr k c hint)
    | negSucc k =>
      rw [hn] at hint
      simp only [Int.repr, String.toList_append, mem_append] at hint
      rcases hint with hint | hint
      · have hminus : c = '-' := by simpa using hint
        simp [hminus]
      · exact .inl (hrepr _ c hint)
  | float d => exact d.shortest_chars c h

theorem printable_numberText (n : Number) : ∀ c ∈ numberText n, Printable c := by
  intro c hc
  have hothers : ∀ d ∈ ['+', '-', '.', 'e'], Printable d := printable_of_all (by decide)
  rcases mem_numberText hc with hdigit | hother
  · exact printable_of_digit hdigit
  · exact hothers c hother

theorem printable_join {sep : Char} (hsep : Printable sep) {parts : List Text}
    (h : ∀ part ∈ parts, ∀ c ∈ part, Printable c) : ∀ c ∈ Text.join [sep] parts, Printable c := by
  induction parts with
  | nil => simp [Text.join, intercalate]
  | cons part parts ih =>
    rw [forall_mem_cons] at h
    cases parts with
    | nil => simpa [Text.join, intercalate] using h.1
    | cons next parts =>
      intro c hc
      rcases mem_append.mp hc with hc | hc
      · exact h.1 c hc
      · rcases mem_cons.mp hc with rfl | hc
        · exact hsep
        · exact ih h.2 c hc

theorem printable_enclosed {first last : Char} (hfirst : Printable first) (hlast : Printable last)
    {inner : Text} (h : ∀ c ∈ inner, Printable c) :
    ∀ c ∈ [first] ++ inner ++ [last], Printable c := by
  intro c hc
  simp only [mem_append, mem_singleton] at hc
  rcases hc with (rfl | hc) | rfl
  · exact hfirst
  · exact h c hc
  · exact hlast

mutual
theorem printable_print : ∀ v : Value, ∀ c ∈ print v, Printable c
  | null => printable_of_all (t := "null") (by decide)
  | bool true => printable_of_all (t := "true") (by decide)
  | bool false => printable_of_all (t := "false") (by decide)
  | number n => by
      rw [print]
      exact printable_numberText n
  | string s => by
      rw [print]
      exact printable_quote s
  | array items => by
      rw [print]
      exact printable_enclosed (by unfold Printable; decide) (by unfold Printable; decide)
        (printable_join (by unfold Printable; decide) (printable_printItems items))
  | object fields => by
      rw [print]
      exact printable_enclosed (by unfold Printable; decide) (by unfold Printable; decide)
        (printable_join (by unfold Printable; decide) (printable_printFields fields))

theorem printable_printItems : ∀ items : List Value, ∀ part ∈ printItems items,
    ∀ c ∈ part, Printable c
  | [] => by simp [printItems]
  | v :: vs => by
      rw [printItems, forall_mem_cons]
      exact ⟨printable_print v, printable_printItems vs⟩

theorem printable_printFields : ∀ fields : List (Text × Value), ∀ part ∈ printFields fields,
    ∀ c ∈ part, Printable c
  | [] => by simp [printFields]
  | (k, v) :: fields => by
      rw [printFields, forall_mem_cons]
      refine ⟨fun c hc => ?_, printable_printFields fields⟩
      simp only [mem_append, mem_singleton] at hc
      rcases hc with (hc | rfl) | hc
      · exact printable_quote k c hc
      · show 32 ≤ _
        decide
      · exact printable_print v c hc
end

/-- A printed value neither begins nor ends with a space. -/
theorem trim_print (v : Value) : Text.trimStart v.print = v.print ∧ Text.trim v.print = v.print := by
  have hends : ∀ (first last : Char) (inner : Text), Text.isWhitespace first = false →
      Text.isWhitespace last = false → Text.trimStart ([first] ++ inner ++ [last]) =
        [first] ++ inner ++ [last] ∧ Text.trim ([first] ++ inner ++ [last]) =
          [first] ++ inner ++ [last] := by
    intro first last inner hfirst hlast
    refine Text.trim_of_ends (fun c hc => ?_) (fun c hc => ?_)
    · have hc' : first = c := by simpa using hc
      rw [← hc']
      exact hfirst
    · have hc' : last = c := by
        rw [getLast?_append] at hc
        simpa using hc
      rw [← hc']
      exact hlast
  have hnumber : ∀ (n : Number), ∀ c ∈ numberText n, Text.isWhitespace c = false := by
    intro n c hc
    have hothers : ∀ d ∈ ['+', '-', '.', 'e'], Text.isWhitespace d = false := by
      simp only [forall_mem_cons]
      exact ⟨by decide, by decide, by decide, by decide, by simp⟩
    rcases mem_numberText hc with hdigit | hother
    · have hlow : 48 ≤ c.toNat := (Char.isDigit_iff_toNat.mp hdigit).1
      have hhigh : c.toNat ≤ 57 := (Char.isDigit_iff_toNat.mp hdigit).2
      simp only [Text.isWhitespace, decide_eq_false_iff_not]
      omega
    · exact hothers c hother
  cases v with
  | null => decide +kernel
  | bool b => cases b <;> decide +kernel
  | number n =>
    refine Text.trim_of_ends (fun c hc => ?_) (fun c hc => ?_)
    · exact hnumber n c (mem_of_mem_head? hc)
    · exact hnumber n c (mem_of_mem_getLast? hc)
  | string s =>
    exact hends _ _ _ (by decide) (by decide)
  | array items =>
    exact hends _ _ _ (by decide) (by decide)
  | object fields =>
    exact hends _ _ _ (by decide) (by decide)

end Value

namespace Native

open Text (RawLines rawLines_splitInclusive splitInclusive_of_rawLines)

/-! ## Rewritten data -/

theorem stripLast_append (c : Char) (t : Text) : stripLast c (t ++ [c]) = some t := by
  simp [stripLast]

theorem stripLast_of_notMem {t : Text} (h : c ∉ t) : stripLast c t = none := by
  rw [stripLast, if_neg]
  intro hlast
  exact h (mem_of_getLast? hlast)

/-- The line that a raw line holds. -/
def lineOf (rawLine : Text) : Text :=
  match stripLast '\n' rawLine with
  | some line => (stripLast '\r' line).getD line
  | none => rawLine

theorem lines_eq (frame : Text) : lines frame = (Text.splitInclusive frame).map lineOf := rfl

theorem splitEnding_fst (rawLine : Text) : (splitEnding rawLine).1 = lineOf rawLine := by
  simp only [splitEnding, lineOf]
  cases stripLast '\n' rawLine with
  | none => rfl
  | some line =>
    simp only
    cases stripLast '\r' line <;> rfl

/-- The data that a raw line holds, if it is a data line. -/
def lineData (rawLine : Text) : Option Text := stripStart "data:" (lineOf rawLine)

/-- The raw lines of a rewritten frame. -/
def rewrittenLines (serializedData : Text) : Bool → List Text → List Text
  | _, [] => []
  | replaced, rawLine :: rawLines =>
      if (lineData rawLine).isSome then
        if replaced then rewrittenLines serializedData true rawLines
        else (("data: " : Text) ++ serializedData ++ (splitEnding rawLine).2) ::
          rewrittenLines serializedData true rawLines
      else rawLine :: rewrittenLines serializedData replaced rawLines

theorem loop_eq_flatten (serializedData : Text) (replaced : Bool) (rawLines : List Text) :
    rewriteSseDataLines.loop serializedData replaced rawLines =
      (rewrittenLines serializedData replaced rawLines).flatten := by
  induction rawLines generalizing replaced with
  | nil => rfl
  | cons rawLine rawLines ih =>
    have hdata : stripStart "data:" (splitEnding rawLine).1 = lineData rawLine := by
      rw [splitEnding_fst, lineData]
    simp only [rewriteSseDataLines.loop, rewrittenLines, hdata]
    split_ifs
    · exact ih true
    · rw [flatten_cons, ih]
    · rw [flatten_cons, ih]

/-- A raw line that a line feed ends keeps its ending. -/
theorem splitEnding_line (line : Text) : (splitEnding (line ++ ['\n'])).2 = ['\r', '\n'] ∨
    (splitEnding (line ++ ['\n'])).2 = ['\n'] := by
  simp only [splitEnding, stripLast_append]
  cases stripLast '\r' line with
  | none => exact .inr rfl
  | some body => exact .inl rfl

/-- Serialized data is one line. -/
def OneLine (data : Text) : Prop := '\n' ∉ data ∧ '\r' ∉ data

theorem rewrittenLines_raw (hdata : OneLine data) (replaced : Bool) {rawLines : List Text}
    (h : RawLines rawLines) :
    RawLines (rewrittenLines data replaced rawLines) := by
  have hfront : ∀ tail : Text, '\n' ∉ tail → '\n' ∉ ("data: " : Text) ++ data ++ tail := by
    intro tail htail
    have hstart : '\n' ∉ ("data: " : Text) := by decide
    simp only [mem_append, not_or]
    exact ⟨⟨hstart, hdata.1⟩, htail⟩
  induction h generalizing replaced with
  | nil => exact .nil
  | @last line hne hline =>
    simp only [rewrittenLines]
    split_ifs
    · exact .nil
    · have hending : (splitEnding line).2 = [] := by
        simp only [splitEnding, stripLast_of_notMem hline]
      rw [hending]
      exact .last (by simp) (hfront [] not_mem_nil)
    · exact .last hne hline
  | @cons line rawLines hline _ ih =>
    simp only [rewrittenLines]
    split_ifs
    · exact ih true
    · rcases splitEnding_line line with hsplit | hsplit
      · rw [hsplit]
        have hshape : ("data: " : Text) ++ data ++ ['\r', '\n'] =
            (("data: " : Text) ++ data ++ ['\r']) ++ ['\n'] := by simp
        rw [hshape]
        exact .cons (hfront ['\r'] (by decide)) (ih true)
      · rw [hsplit]
        have hshape : ("data: " : Text) ++ data ++ ['\n'] =
            (("data: " : Text) ++ data ++ []) ++ ['\n'] := by simp
        rw [hshape]
        exact .cons (hfront [] not_mem_nil) (ih true)
    · exact .cons hline (ih replaced)

theorem lineOf_of_notMem {line : Text} (hline : '\n' ∉ line) : lineOf line = line := by
  rw [lineOf, stripLast_of_notMem hline]

theorem lineOf_ending {line : Text} (hcr : '\r' ∉ line) :
    lineOf (line ++ ['\n']) = line ∧ lineOf (line ++ ['\r', '\n']) = line := by
  constructor
  · simp only [lineOf, stripLast_append, stripLast_of_notMem hcr, Option.getD_none]
  · have hshape : line ++ ['\r', '\n'] = (line ++ ['\r']) ++ ['\n'] := by simp
    rw [hshape]
    simp only [lineOf, stripLast_append, Option.getD_some]

/-- The replaced line holds the serialized data. -/
theorem lineData_replaced (hdata : OneLine data) {ending : Text}
    (hending : ending ∈ [[], ['\n'], ['\r', '\n']]) :
    lineData (("data: " : Text) ++ data ++ ending) = some (' ' :: data) := by
  have hstart : ∀ c ∈ ['\n', '\r'], c ∉ ("data: " : Text) := by
    simp only [forall_mem_cons]
    exact ⟨by decide, by decide, by simp⟩
  have hline : '\n' ∉ ("data: " : Text) ++ data := by
    simp only [mem_append, not_or]
    exact ⟨hstart _ (by simp), hdata.1⟩
  have hcr : '\r' ∉ ("data: " : Text) ++ data := by
    simp only [mem_append, not_or]
    exact ⟨hstart _ (by simp), hdata.2⟩
  have hlineOf : lineOf (("data: " : Text) ++ data ++ ending) = ("data: " : Text) ++ data := by
    simp only [mem_cons, not_mem_nil, or_false] at hending
    rcases hending with rfl | rfl | rfl
    · rw [append_nil, lineOf_of_notMem hline]
    · exact (lineOf_ending hcr).1
    · exact (lineOf_ending hcr).2
  have hshape : ("data: " : Text) ++ data = ("data:" : Text) ++ (' ' :: data) := by
    have hsplit : ("data: " : Text) = ("data:" : Text) ++ [' '] := by decide
    simp [hsplit]
  rw [lineData, hlineOf, hshape, stripStart, if_pos (prefix_append _ _)]
  simp

theorem splitEnding_snd (rawLine : Text) : (splitEnding rawLine).2 ∈ [[], ['\n'], ['\r', '\n']] := by
  simp only [splitEnding]
  cases stripLast '\n' rawLine with
  | none => simp
  | some line =>
    simp only
    cases stripLast '\r' line <;> simp

theorem lineData_rewritten (hdata : OneLine data) (replaced : Bool) (rawLines : List Text) :
    (rewrittenLines data replaced rawLines).filterMap lineData =
      if !replaced && rawLines.any (fun rawLine => (lineData rawLine).isSome) then [' ' :: data]
      else [] := by
  induction rawLines generalizing replaced with
  | nil => simp [rewrittenLines]
  | cons rawLine rawLines ih =>
    simp only [rewrittenLines]
    cases hsome : (lineData rawLine).isSome with
    | true =>
      cases replaced with
      | true => simp [ih]
      | false =>
        have hline := lineData_replaced hdata (splitEnding_snd rawLine)
        have hlater : (rewrittenLines data true rawLines).filterMap lineData = [] := by
          rw [ih true]
          rfl
        simp only [Bool.false_eq_true, if_true, if_false]
        rw [filterMap_cons_some hline, hlater]
        simp [hsome]
    | false =>
      have hnone : lineData rawLine = none := by simpa using hsome
      simp [hnone, ih]

/-- The text of a rewritten frame. -/
theorem fromUtf8_rewriteSseDataLines (frame data : Text) :
    fromUtf8 (rewriteSseDataLines frame data) =
      some (rewriteSseDataLines.loop data false (Text.splitInclusive frame)) :=
  fromUtf8_bytes _

/-- A frame with data lines is read back with the data that it was given. -/
theorem frameData_rewritten (hdata : OneLine data) (htrim : Text.trimStart data = data)
    (frame : Text) : frameData (rewriteSseDataLines.loop data false (Text.splitInclusive frame)) =
      if (lines frame).any (fun line => (stripStart "data:" line).isSome) then data else [] := by
  have hraw := rewrittenLines_raw hdata false (rawLines_splitInclusive frame)
  have hany : ((lines frame).any fun line => (stripStart "data:" line).isSome) =
      (Text.splitInclusive frame).any fun rawLine => (lineData rawLine).isSome := by
    rw [lines_eq, any_map]
    rfl
  rw [frameData, lines_eq, loop_eq_flatten, splitInclusive_of_rawLines hraw, filterMap_map]
  have hmap : ((rewrittenLines data false (Text.splitInclusive frame)).filterMap
      (stripStart "data:" ∘ lineOf)) = if (Text.splitInclusive frame).any
        (fun rawLine => (lineData rawLine).isSome) then [' ' :: data] else [] := by
    have hread := lineData_rewritten hdata false (Text.splitInclusive frame)
    exact hread
  rw [hmap, hany]
  split_ifs
  · have hspace : Text.trimStart (' ' :: data) = data := by
      exact htrim
    simp [Text.join, hspace, intercalate]
  · rfl

theorem oneLine_print (v : Value) : OneLine v.print := by
  constructor
  · intro hc
    have hle := Value.printable_print v _ hc
    exact absurd hle (by unfold Value.Printable; decide)
  · intro hc
    have hle := Value.printable_print v _ hc
    exact absurd hle (by unfold Value.Printable; decide)

/-- A frame that held data is read back with the value that was printed into it. -/
theorem frameData_printed {frame : Text} (h : frameData frame ≠ []) (v : Value) :
    frameData (rewriteSseDataLines.loop v.print false (Text.splitInclusive frame)) = v.print := by
  rw [frameData_rewritten (oneLine_print v) (Value.trim_print v).1, if_pos]
  by_contra hno
  apply h
  have hnone : (lines frame).filterMap (stripStart "data:") = [] := by
    rw [filterMap_eq_nil_iff]
    intro line hline
    by_contra hsome
    apply hno
    rw [any_eq_true]
    exact ⟨line, hline, Option.isSome_iff_ne_none.mpr hsome⟩
  rw [frameData, hnone]
  rfl

/-! ### Frames as a whole -/

/-- A raw line that is no data line. -/
def isOther (rawLine : Text) : Bool := (lineData rawLine).isNone

/-- The lines that hold no data stand in a rewritten frame as they stood. -/
theorem others_rewritten (hdata : OneLine data) (replaced : Bool) (rawLines : List Text) :
    (rewrittenLines data replaced rawLines).filter isOther = rawLines.filter isOther := by
  induction rawLines generalizing replaced with
  | nil => rfl
  | cons rawLine rawLines ih =>
    simp only [rewrittenLines]
    cases hsome : (lineData rawLine).isSome with
    | true =>
      have hother : isOther rawLine = false := by
        simpa [isOther, Option.isSome_iff_ne_none] using hsome
      rw [if_pos rfl, filter_cons_of_neg (by simp [hother])]
      cases replaced with
      | true => exact ih true
      | false =>
        have hline := lineData_replaced hdata (splitEnding_snd rawLine)
        rw [if_neg Bool.false_ne_true, filter_cons_of_neg (by rw [isOther, hline]; simp)]
        exact ih true
    | false =>
      have hother : isOther rawLine = true := by simpa [isOther] using hsome
      rw [if_neg Bool.false_ne_true, filter_cons_of_pos hother,
        filter_cons_of_pos hother, ih replaced]

/-- A frame with data is read back with the payload that was printed into it, and its other
lines are kept. `parse` is the JSON parser behind `serde_json::from_str`. -/
theorem rewritten_frame_faithful (parse : Text → Option Value) (frame : Text) (payload : Value)
    (hparse : parse payload.print = some payload) : ∃ rewritten : Text,
      fromUtf8 (rewriteSseDataLines frame payload.print) = some rewritten ∧
      ((∃ line ∈ lines frame, (stripStart "data:" line).isSome = true) →
        parse (frameData rewritten).trim = some payload) ∧
      (Text.splitInclusive rewritten).filter isOther =
        (Text.splitInclusive frame).filter isOther := by
  have hone := oneLine_print payload
  refine ⟨_, fromUtf8_rewriteSseDataLines frame payload.print, ?_, ?_⟩
  · intro hdata
    have hread := frameData_rewritten hone (Value.trim_print payload).1 frame
    rw [if_pos (any_eq_true.mpr hdata)] at hread
    rw [hread, (Value.trim_print payload).2]
    exact hparse
  · rw [loop_eq_flatten, splitInclusive_of_rawLines
      (rewrittenLines_raw hone false (rawLines_splitInclusive frame))]
    exact others_rewritten hone false _

/-- A parser that knows one text. -/
def parseNull (t : Text) : Option Value := if t = "null" then some .null else none

theorem twoDataLines_faithful : ∃ rewritten : Text,
    fromUtf8 (rewriteSseDataLines "event: e\r\ndata: 1\nid: 7\ndata: 2" Value.null.print) =
      some rewritten ∧ parseNull (frameData rewritten).trim = some .null := by
  obtain ⟨rewritten, htext, hdata, _⟩ := rewritten_frame_faithful parseNull
    "event: e\r\ndata: 1\nid: 7\ndata: 2" .null (if_pos (by decide))
  exact ⟨rewritten, htext, hdata ⟨"data: 1", by decide, by decide⟩⟩

/-- Without a data line there is no place for the payload. -/
theorem noData_unfaithful : ¬∀ (parse : Text → Option Value) (frame : Text) (payload : Value)
    (rewritten : Text), parse payload.print = some payload →
      fromUtf8 (rewriteSseDataLines frame payload.print) = some rewritten →
      parse (frameData rewritten).trim = some payload := by
  intro h
  have hread := h parseNull "event: ping\n" .null _ (if_pos (by decide))
    (fromUtf8_rewriteSseDataLines "event: ping\n" _)
  have hempty : (frameData (rewriteSseDataLines.loop Value.null.print false
      (Text.splitInclusive "event: ping\n"))).trim = [] := by decide
  rw [hempty] at hread
  exact absurd hread (by simp [parseNull])

end Native

end CodeSeeX
