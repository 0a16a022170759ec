import CodeSeeX.General.Framing
import CodeSeeX.Json

/-!
# Server-sent event frames

The byte level of a provider stream: where a frame ends, the lines and the data of
a frame, and how a frame gets other data.
-/
namespace CodeSeeX.Native
open Framing Option List

abbrev Bytes := List UInt8

variable {i n : ℕ} {line : Bytes}

/-- `std::str::from_utf8` -/
def fromUtf8 (bytes : Bytes) : Option Text :=
  (ByteArray.utf8Decode? ⟨bytes.toArray⟩).map Array.toList

/-- `value.strip_suffix(c)` for one character. -/
def stripLast (c : Char) (t : Text) : Option Text :=
  if t.getLast? = some c then some t.dropLast else none

/-- `value.strip_prefix(start)` -/
def stripStart (start t : Text) : Option Text :=
  if start <+: t then some (t.drop start.length) else none

theorem stripStart_append (start t : Text) : stripStart start (start ++ t) = some t := by
  rw [stripStart, if_pos (prefix_append _ _), drop_left]

theorem stripStart_eq_some {start t rest : Text} (h : stripStart start t = some rest) :
    t = start ++ rest := by
  rw [stripStart] at h
  split_ifs at h with hpre
  obtain ⟨tail, rfl⟩ := hpre
  rw [drop_left] at h
  rw [some.inj h]

/-- `frame.lines()`: only a line that a line feed ends also loses a carriage return. -/
def lines (frame : Text) : List Text :=
  (Text.splitInclusive frame).map fun line =>
    match stripLast '\n' line with
    | some line => (stripLast '\r' line).getD line
    | none => line

/-- The data lines of a frame, joined as the event stream format says. -/
def frameData (frame : Text) : Text :=
  Text.join ['\n'] (((lines frame).filterMap (stripStart "data:")).map Text.trimStart)

/-- A line of a frame, and its line ending. -/
def splitEnding (rawLine : Text) : Text × Text :=
  match stripLast '\n' rawLine with
  | some line =>
      match stripLast '\r' line with
      | some line => (line, ['\r', '\n'])
      | none => (line, ['\n'])
  | none => (rawLine, [])

def rewriteSseDataLines.loop (serializedData : Text) : Bool → List Text → Text
  | _, [] => []
  | replaced, rawLine :: rawLines =>
      let (line, ending) := splitEnding rawLine
      if (stripStart "data:" line).isSome then
        if replaced then loop serializedData true rawLines
        else ("data: " : Text) ++ serializedData ++ ending ++ loop serializedData true rawLines
      else rawLine ++ loop serializedData replaced rawLines

def rewriteSseDataLines (frame serializedData : Text) : Bytes :=
  Text.bytes (rewriteSseDataLines.loop serializedData false (Text.splitInclusive frame))

def sseFrame (event : Text) (payload : Value) : Bytes :=
  Text.bytes (("event: " : Text) ++ event ++ "\ndata: " ++ payload.print ++ "\n\n")

def appendDelimiter (frame delimiter : Bytes) : Bytes := frame ++ delimiter

def lfDelimiter : Bytes := [10, 10]
def crlfDelimiter : Bytes := [13, 10, 13, 10]

/-- The index of the first delimiter, and its length. -/
def findSseFrameDelimiter (buffer : Bytes) : Option (ℕ × ℕ) :=
  let lf := (Infix.firstIndex lfDelimiter buffer).map fun index => (index, 2)
  let crlf := (Infix.firstIndex crlfDelimiter buffer).map fun index => (index, 4)
  match lf, crlf with
  | some left, some right => some (if left.1 ≤ right.1 then left else right)
  | some value, none => some value
  | none, some value => some value
  | none, none => none

/-- One round of the loops that drain a buffer: the frame, its delimiter and what is left. -/
def cutSseFrame (buffer : Bytes) : Option (Piece UInt8 × Bytes) :=
  (findSseFrameDelimiter buffer).map fun (index, delimiterLen) =>
    (⟨buffer.take index, (buffer.drop index).take delimiterLen⟩, buffer.drop (index + delimiterLen))

/-! ## Where frames end -/

variable {xs : Bytes}

theorem lf_at_iff {i : ℕ} :
    lfDelimiter <+: xs.drop i ↔ xs[i]? = some 10 ∧ xs[i + 1]? = some 10 := by
  rw [lfDelimiter, prefix_iff_getElem?]
  constructor
  · intro h
    exact ⟨by simpa using h 0 (by simp), by simpa using h 1 (by simp)⟩
  · intro h j hj
    simp only [length_cons, length_nil] at hj
    have hcases : j = 0 ∨ j = 1 := by omega
    rcases hcases with rfl | rfl
    · simpa using h.1
    · simpa using h.2

theorem crlf_at_iff {i : ℕ} :
    crlfDelimiter <+: xs.drop i ↔ xs[i]? = some 13 ∧ xs[i + 1]? = some 10 ∧
      xs[i + 2]? = some 13 ∧ xs[i + 3]? = some 10 := by
  rw [crlfDelimiter, prefix_iff_getElem?]
  constructor
  · intro h
    exact ⟨by simpa using h 0 (by simp), by simpa using h 1 (by simp), by simpa using h 2 (by simp),
      by simpa using h 3 (by simp)⟩
  · intro h j hj
    simp only [length_cons, length_nil] at hj
    have hcases : j = 0 ∨ j = 1 ∨ j = 2 ∨ j = 3 := by omega
    rcases hcases with rfl | rfl | rfl | rfl
    · simpa using h.1
    · simpa using h.2.1
    · simpa using h.2.2.1
    · simpa using h.2.2.2

/-- A delimiter of `n` bytes stands at index `i`. -/
def DelimiterAt (xs : Bytes) (i n : ℕ) : Prop :=
  (n = 2 ∧ lfDelimiter <+: xs.drop i) ∨ (n = 4 ∧ crlfDelimiter <+: xs.drop i)

theorem DelimiterAt.length (h : DelimiterAt xs i n) : 0 < n ∧ i + n ≤ xs.length := by
  rcases h with ⟨rfl, h⟩ | ⟨rfl, h⟩
  · have hlast := (List.getElem?_eq_some_iff.mp (lf_at_iff.1 h).2).1
    omega
  · have hlast := (List.getElem?_eq_some_iff.mp (crlf_at_iff.1 h).2.2.2).1
    omega

/-- Two delimiters do not begin at one index. -/
theorem DelimiterAt.unique {i m n : ℕ} (hm : DelimiterAt xs i m)
    (hn : DelimiterAt xs i n) : m = n := by
  rcases hm with ⟨rfl, hm⟩ | ⟨rfl, hm⟩ <;> rcases hn with ⟨rfl, hn⟩ | ⟨rfl, hn⟩
  · rfl
  · have h := (lf_at_iff.1 hm).1.symm.trans (crlf_at_iff.1 hn).1
    simp at h
  · have h := (lf_at_iff.1 hn).1.symm.trans (crlf_at_iff.1 hm).1
    simp at h
  · rfl

/-- Whether a delimiter stands at an index is decided by the bytes it would take. -/
theorem DelimiterAt.congr {xs ys : Bytes} (h : ∀ k, i ≤ k → k < i + n → xs[k]? = ys[k]?)
    (hd : DelimiterAt xs i n) :
    DelimiterAt ys i n := by
  rcases hd with ⟨rfl, hd⟩ | ⟨rfl, hd⟩
  · rw [lf_at_iff] at hd
    refine Or.inl ⟨rfl, lf_at_iff.2 ⟨?_, ?_⟩⟩
    · rw [← h i (by omega) (by omega)]; exact hd.1
    · rw [← h (i + 1) (by omega) (by omega)]; exact hd.2
  · rw [crlf_at_iff] at hd
    refine Or.inr ⟨rfl, crlf_at_iff.2 ⟨?_, ?_, ?_, ?_⟩⟩
    · rw [← h i (by omega) (by omega)]; exact hd.1
    · rw [← h (i + 1) (by omega) (by omega)]; exact hd.2.1
    · rw [← h (i + 2) (by omega) (by omega)]; exact hd.2.2.1
    · rw [← h (i + 3) (by omega) (by omega)]; exact hd.2.2.2

theorem DelimiterAt.size (h : DelimiterAt xs i n) : n = 2 ∨ n = 4 := by
  rcases h with ⟨hn, _⟩ | ⟨hn, _⟩ <;> simp [hn]

theorem firstIndex_lf {i : ℕ} : Infix.firstIndex lfDelimiter xs = some i ↔
    DelimiterAt xs i 2 ∧ ∀ j < i, ¬ DelimiterAt xs j 2 := by
  rw [Infix.firstIndex_eq_some (by simp [lfDelimiter])]
  simp [DelimiterAt]

theorem firstIndex_crlf {i : ℕ} : Infix.firstIndex crlfDelimiter xs = some i ↔
    DelimiterAt xs i 4 ∧ ∀ j < i, ¬ DelimiterAt xs j 4 := by
  rw [Infix.firstIndex_eq_some (by simp [crlfDelimiter])]
  simp [DelimiterAt]

theorem firstIndex_lf_none (h : Infix.firstIndex lfDelimiter xs = none) (i : ℕ) :
    ¬ DelimiterAt xs i 2 := by
  intro hd
  have hpre : lfDelimiter <+: xs.drop i := by simpa [DelimiterAt] using hd
  exact Infix.firstIndex_eq_none.mp h (hpre.isInfix.trans (drop_suffix i xs).isInfix)

theorem firstIndex_crlf_none (h : Infix.firstIndex crlfDelimiter xs = none) (i : ℕ) :
    ¬ DelimiterAt xs i 4 := by
  intro hd
  have hpre : crlfDelimiter <+: xs.drop i := by simpa [DelimiterAt] using hd
  exact Infix.firstIndex_eq_none.mp h (hpre.isInfix.trans (drop_suffix i xs).isInfix)

/-- The delimiter that is found stands there, and none stands before it. -/
theorem findSseFrameDelimiter_spec (h : findSseFrameDelimiter xs = some (i, n)) :
    DelimiterAt xs i n ∧ ∀ j < i, ∀ m, ¬ DelimiterAt xs j m := by
  cases hlf : Infix.firstIndex lfDelimiter xs with
  | none =>
    cases hcrlf : Infix.firstIndex crlfDelimiter xs with
    | none => simp [findSseFrameDelimiter, hlf, hcrlf] at h
    | some k =>
      simp only [findSseFrameDelimiter, hlf, hcrlf, map_none, map_some,
        some.injEq, Prod.mk.injEq] at h
      obtain ⟨rfl, rfl⟩ := h
      obtain ⟨hat, hfirst⟩ := firstIndex_crlf.1 hcrlf
      refine ⟨hat, fun j hj m hm => ?_⟩
      rcases hm.size with rfl | rfl
      · exact firstIndex_lf_none hlf j hm
      · exact hfirst j hj hm
  | some l =>
    obtain ⟨hatl, hfirstl⟩ := firstIndex_lf.1 hlf
    cases hcrlf : Infix.firstIndex crlfDelimiter xs with
    | none =>
      simp only [findSseFrameDelimiter, hlf, hcrlf, map_none, map_some,
        some.injEq, Prod.mk.injEq] at h
      obtain ⟨rfl, rfl⟩ := h
      refine ⟨hatl, fun j hj m hm => ?_⟩
      rcases hm.size with rfl | rfl
      · exact hfirstl j hj hm
      · exact firstIndex_crlf_none hcrlf j hm
    | some k =>
      obtain ⟨hatk, hfirstk⟩ := firstIndex_crlf.1 hcrlf
      simp only [findSseFrameDelimiter, hlf, hcrlf, map_some, some.injEq] at h
      by_cases hle : l ≤ k
      · simp only [hle, if_true, Prod.mk.injEq] at h
        obtain ⟨rfl, rfl⟩ := h
        refine ⟨hatl, fun j hj m hm => ?_⟩
        rcases hm.size with rfl | rfl
        · exact hfirstl j hj hm
        · exact hfirstk j (by omega) hm
      · simp only [hle, if_false, Prod.mk.injEq] at h
        obtain ⟨rfl, rfl⟩ := h
        refine ⟨hatk, fun j hj m hm => ?_⟩
        rcases hm.size with rfl | rfl
        · exact hfirstl j (by omega) hm
        · exact hfirstk j hj hm

theorem findSseFrameDelimiter_eq_none :
    findSseFrameDelimiter xs = none ↔ ∀ i n, ¬ DelimiterAt xs i n := by
  constructor
  · intro h i n hd
    have hnone : Infix.firstIndex lfDelimiter xs = none ∧
        Infix.firstIndex crlfDelimiter xs = none := by
      cases hlf : Infix.firstIndex lfDelimiter xs <;>
        cases hcrlf : Infix.firstIndex crlfDelimiter xs <;>
          simp [findSseFrameDelimiter, hlf, hcrlf] at h ⊢
    rcases hd.size with rfl | rfl
    · exact firstIndex_lf_none hnone.1 i hd
    · exact firstIndex_crlf_none hnone.2 i hd
  · intro h
    cases hfind : findSseFrameDelimiter xs with
    | none => rfl
    | some p => exact absurd (findSseFrameDelimiter_spec hfind).1 (h p.1 p.2)

theorem findSseFrameDelimiter_eq_some : findSseFrameDelimiter xs = some (i, n) ↔
      DelimiterAt xs i n ∧ ∀ j < i, ∀ m, ¬ DelimiterAt xs j m := by
  refine ⟨findSseFrameDelimiter_spec, ?_⟩
  intro h
  obtain ⟨hat, hfirst⟩ := h
  cases hfind : findSseFrameDelimiter xs with
  | none => exact absurd hat (findSseFrameDelimiter_eq_none.1 hfind i n)
  | some p =>
    obtain ⟨k, m⟩ := p
    obtain ⟨hatk, hfirstk⟩ := findSseFrameDelimiter_spec hfind
    have hik : i = k := by
      by_contra hne
      rcases Nat.lt_or_gt_of_ne hne with hlt | hlt
      · exact hfirstk i hlt n hat
      · exact hfirst k hlt m hatk
    subst hik
    rw [hat.unique hatk]

/-- A delimiter that would begin before the first one and reach behind it does not exist, whatever
bytes follow. -/
theorem findSseFrameDelimiter_again (h : findSseFrameDelimiter xs = some (i, n)) (ys : Bytes) :
    findSseFrameDelimiter (xs.take (i + n) ++ ys) = some (i, n) := by
  obtain ⟨hat, hfirst⟩ := findSseFrameDelimiter_eq_some.1 h
  have hlen := hat.length.2
  have hsame : ∀ k < i + n, (xs.take (i + n) ++ ys)[k]? = xs[k]? := by
    intro k hk
    rw [getElem?_append_left (by simp; omega), getElem?_take_of_lt hk]
  refine findSseFrameDelimiter_eq_some.2 ⟨hat.congr fun k _ hk => (hsame k hk).symm, ?_⟩
  intro j hj m hm
  by_cases hinside : j + m ≤ i + n
  · exact hfirst j hj m (hm.congr fun k _ hk => hsame k (by omega))
  · -- only a longer delimiter one byte before a line feed pair could reach behind it
    rcases hat with ⟨rfl, hat⟩ | ⟨rfl, hat⟩
    · rcases hm with ⟨rfl, hm⟩ | ⟨rfl, hm⟩
      · omega
      · have hcr := (crlf_at_iff.1 hm).2.2.1
        have hij : j + 2 = i + 1 := by omega
        rw [hij, hsame (i + 1) (by omega), (lf_at_iff.1 hat).2] at hcr
        simp at hcr
    · have hsize := hm.size
      omega

theorem cutSseFrame_again {xs rest : Bytes} {p : Piece UInt8} (h : cutSseFrame xs = some (p, rest))
    (ys : Bytes) : cutSseFrame (p.whole ++ ys) = some (p, ys) := by
  simp only [cutSseFrame, map_eq_some_iff] at h
  obtain ⟨⟨i, n⟩, hfind, hq⟩ := h
  cases hq
  have hlen := (findSseFrameDelimiter_spec hfind).1.length
  have hwhole : (⟨xs.take i, (xs.drop i).take n⟩ : Piece UInt8).whole = xs.take (i + n) := by
    rw [Piece.whole, ← take_add]
  have htake : (xs.take (i + n)).length = i + n := by simp; omega
  rw [hwhole, cutSseFrame, findSseFrameDelimiter_again hfind ys]
  simp only [map_some, some.injEq, Prod.mk.injEq, Piece.mk.injEq]
  refine ⟨⟨?_, ?_⟩, ?_⟩
  · rw [take_append_of_le_length (by omega), take_take, Nat.min_eq_left (by omega)]
  · rw [drop_append_of_le_length (by omega), take_append_of_le_length (by simp; omega),
      drop_take, take_take]
    simp
  · rw [drop_append_of_le_length (by omega), drop_eq_nil_of_le (by omega),
      nil_append]

/-- The frames of an event stream. -/
def sseCutter : Cutter UInt8 where
  cut := cutSseFrame
  cut_eq := by
    intro xs p rest h
    simp only [cutSseFrame, map_eq_some_iff] at h
    obtain ⟨q, _, hq⟩ := h
    cases hq
    rw [Piece.whole, ← take_add, take_append_drop]
  delimiter_ne := by
    intro xs p rest h
    simp only [cutSseFrame, map_eq_some_iff] at h
    obtain ⟨q, hfind, hq⟩ := h
    cases hq
    have hlen := (findSseFrameDelimiter_spec hfind).1.length
    apply ne_nil_of_length_pos
    simp only [length_take, length_drop]
    omega
  cut_again := cutSseFrame_again

/-! ## Frames of one line -/

/-- Bytes without a line ending. -/
def Plain (bytes : Bytes) : Prop := ∀ b ∈ bytes, b ≠ 10 ∧ b ≠ 13

theorem Plain.not_lf {bytes : Bytes} (h : Plain bytes) (k : ℕ) : bytes[k]? ≠ some 10 :=
  fun hk => (h 10 (mem_of_getElem? hk)).1 rfl

theorem Plain.not_cr {bytes : Bytes} (h : Plain bytes) (k : ℕ) : bytes[k]? ≠ some 13 :=
  fun hk => (h 13 (mem_of_getElem? hk)).2 rfl

theorem cut_eq_none (h : ∀ i n, ¬ DelimiterAt xs i n) : sseCutter.cut xs = none := by
  show cutSseFrame xs = none
  rw [cutSseFrame, findSseFrameDelimiter_eq_none.2 h]
  rfl

/-- One line feed behind a line does not end the frame. -/
theorem Plain.cut_lf (h : Plain line) : sseCutter.cut (line ++ [10]) = none := by
  apply cut_eq_none
  intro i n hd
  rcases hd with ⟨rfl, hd⟩ | ⟨rfl, hd⟩
  · have hlf := (lf_at_iff.1 hd).1
    have hnext := (List.getElem?_eq_some_iff.mp (lf_at_iff.1 hd).2).1
    rw [List.getElem?_append_left (by simp at hnext; omega)] at hlf
    exact h.not_lf i hlf
  · have hcr := (crlf_at_iff.1 hd).1
    have hnext := (List.getElem?_eq_some_iff.mp (crlf_at_iff.1 hd).2.1).1
    rw [List.getElem?_append_left (by simp at hnext; omega)] at hcr
    exact h.not_cr i hcr

theorem Plain.cut (h : Plain line) : sseCutter.cut line = none := by
  apply cut_eq_none
  intro i n hd
  rcases hd with ⟨rfl, hd⟩ | ⟨rfl, hd⟩
  · exact h.not_lf i (lf_at_iff.1 hd).1
  · exact h.not_cr i (crlf_at_iff.1 hd).1

theorem Plain.cut_piece (h : Plain line) (rest : Bytes) :
    sseCutter.cut (line ++ (lfDelimiter ++ rest)) = some (⟨line, lfDelimiter⟩, rest) := by
  have hfind : findSseFrameDelimiter (line ++ (lfDelimiter ++ rest)) = some (line.length, 2) := by
    refine findSseFrameDelimiter_eq_some.2 ⟨Or.inl ⟨rfl, by simp⟩, ?_⟩
    intro j hj m hm
    rcases hm with ⟨_, hm⟩ | ⟨_, hm⟩
    · have hlf := (lf_at_iff.1 hm).1
      rw [getElem?_append_left hj] at hlf
      exact h.not_lf j hlf
    · have hcr := (crlf_at_iff.1 hm).1
      rw [getElem?_append_left hj] at hcr
      exact h.not_cr j hcr
  show cutSseFrame _ = _
  rw [cutSseFrame, hfind]
  simp [lfDelimiter]

end CodeSeeX.Native
