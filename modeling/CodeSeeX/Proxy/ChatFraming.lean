import CodeSeeX.Proxy.Utf8Lossy

/-!
# The read loop of a chat stream

Each chunk is decoded by itself and appended to a text buffer. What the loop reads is then
the payloads of the text that has arrived, up to the one that ends the output.
-/
namespace CodeSeeX.Native
open Framing Text List

/-- `take_sse_frame`: the frame, and what is left in the buffer. -/
def takeSseFrame (buffer : Text) : Option (Text × Text) :=
  let lf := (Infix.firstIndex (lit "\n\n") buffer).map fun index => (index, 2)
  let crlf := (Infix.firstIndex (lit "\r\n\r\n") buffer).map fun index => (index, 4)
  let found := match lf, crlf with
    | some left, some right => some (if left.1 ≤ right.1 then left else right)
    | some value, none => some value
    | none, some value => some value
    | none, none => none
  found.map fun (index, delimiterLen) => (buffer.take index, buffer.drop (index + delimiterLen))

def sseData (frame : Text) : Option Text :=
  let parts := ((lines frame).filterMap (stripStart "data:")).map trimStart
  if parts.isEmpty then none else some (join ['\n'] parts)

def isDone (data : Text) : Bool := trim data = lit "[DONE]"

/-! ## Frames of a text -/

/-- The byte that a line ending has in a frame. -/
def lineMark (c : Char) : UInt8 := if c = '\n' then 10 else if c = '\r' then 13 else 0

theorem lineMark_inj {c d : Char} (hc : c = '\n' ∨ c = '\r') (h : lineMark d = lineMark c) : d = c := by
  rcases hc with rfl | rfl
  · by_contra hne
    simp only [lineMark, if_neg hne, if_pos] at h
    split at h <;> simp at h
  · by_contra hne
    simp only [lineMark, if_neg hne] at h
    split at h <;> simp at h

def textCutter : Cutter Char := sseCutter.comap lineMark

theorem lf_inj : ∀ c ∈ lit "\n\n", ∀ d, lineMark d = lineMark c → d = c := by
  intro c hc d h
  exact lineMark_inj (Or.inl (by simpa [lit] using hc)) h

theorem crlf_inj : ∀ c ∈ lit "\r\n\r\n", ∀ d, lineMark d = lineMark c → d = c := by
  intro c hc d h
  have hcases : c = '\r' ∨ c = '\n' ∨ c = '\r' ∨ c = '\n' := by simpa [lit] using hc
  exact lineMark_inj (by tauto) h

theorem takeSseFrame_eq (buffer : Text) :
    takeSseFrame buffer = (textCutter.cut buffer).map fun (p, rest) => (p.frame, rest) := by
  have hlf : Infix.firstIndex lfDelimiter (buffer.map lineMark) =
      Infix.firstIndex (lit "\n\n") buffer :=
    Infix.firstIndex_map lf_inj buffer
  have hcrlf : Infix.firstIndex crlfDelimiter (buffer.map lineMark) =
      Infix.firstIndex (lit "\r\n\r\n") buffer :=
    Infix.firstIndex_map crlf_inj buffer
  have hfind : takeSseFrame buffer = (findSseFrameDelimiter (buffer.map lineMark)).map
      fun found => (buffer.take found.1, buffer.drop (found.1 + found.2)) := by
    cases hl : Infix.firstIndex (lit "\n\n") buffer <;>
      cases hr : Infix.firstIndex (lit "\r\n\r\n") buffer <;>
        simp [takeSseFrame, findSseFrameDelimiter, hlf, hcrlf, hl, hr]
  rw [hfind]
  show _ = ((cutSseFrame (buffer.map lineMark)).map _).map _
  rw [cutSseFrame]
  cases hcut : findSseFrameDelimiter (buffer.map lineMark) with
  | none => rfl
  | some found =>
    obtain ⟨i, n⟩ := found
    have hlength := (findSseFrameDelimiter_spec hcut).1.length.2
    rw [length_map] at hlength
    have hi : min i buffer.length = i := by omega
    have hn : min n (buffer.length - i) = n := by omega
    simp [Cutter.pullPiece, Piece.whole, hi, hn]

/-! ## The loop -/

theorem takeSseFrame_length {buffer frame rest : Text} (h : takeSseFrame buffer = some (frame, rest)) :
    rest.length < buffer.length := by
  rw [takeSseFrame_eq, Option.map_eq_some_iff] at h
  obtain ⟨⟨p, behind⟩, hcut, heq⟩ := h
  obtain ⟨rfl, rfl⟩ := Prod.mk.inj heq
  exact textCutter.cut_length hcut

structure ChatReader where
  buffer : Text
  outputDone : Bool

/-- The frames of the buffer: their payloads, the one that ends the output included. -/
def readFrames (buffer : Text) : List Text × ChatReader :=
  match _h : takeSseFrame buffer with
  | none => ([], ⟨buffer, false⟩)
  | some (frame, rest) =>
      match sseData frame with
      | none => readFrames rest
      | some data =>
          if isDone data then ([data], ⟨rest, true⟩)
          else (data :: (readFrames rest).1, (readFrames rest).2)
termination_by buffer.length
decreasing_by all_goals exact takeSseFrame_length _h

/-- The chunks that the provider sends, until the output is done. -/
def readChunks (buffer : Text) : List Bytes → List Text
  | [] => []
  | chunk :: chunks =>
      let (data, reader) := readFrames (buffer ++ fromUtf8Lossy chunk)
      if reader.outputDone then data else data ++ readChunks reader.buffer chunks

/-- The payloads that are read from a body in chunks. -/
def payloads (chunks : List Bytes) : List Text := readChunks [] chunks

section
variable {α : Type*}

/-- A list up to the first element of a kind, this one included. -/
def upTo (last : α → Bool) : List α → List α
  | [] => []
  | a :: as => if last a then [a] else a :: upTo last as

theorem upTo_append (last : α → Bool) (as bs : List α) :
    upTo last (as ++ bs) = if as.any last then upTo last as else as ++ upTo last bs := by
  induction as with
  | nil => rfl
  | cons a as ih =>
    by_cases ha : last a = true
    · simp [upTo, ha]
    · simp only [cons_append, upTo, ha, any_cons, ih, if_false, Bool.false_eq_true,
        Bool.false_or]
      split_ifs <;> rfl

theorem upTo_of_none {last : α → Bool} {as : List α} (h : as.any last = false) :
    upTo last as = as := by
  have hall := upTo_append last as []
  rw [h, append_nil] at hall
  simpa [upTo] using hall

variable {β : Type*}

theorem upTo_map (last : β → Bool) (g : α → β) (as : List α) :
    upTo last (as.map g) = (upTo (last ∘ g) as).map g := by
  induction as with
  | nil => rfl
  | cons a as ih =>
    simp only [map_cons, upTo, ih, Function.comp_apply]
    split_ifs <;> rfl

theorem mem_of_mem_upTo {last : α → Bool} {as : List α} {a : α} (h : a ∈ upTo last as) : a ∈ as := by
  induction as with
  | nil => exact h
  | cons b as ih =>
    rw [upTo] at h
    split at h
    · rw [mem_singleton.mp h]
      exact mem_cons_self
    · rcases mem_cons.mp h with rfl | h
      · exact mem_cons_self
      · exact mem_cons_of_mem _ (ih h)

/-- Two readings of a list that read the same elements agree up to the last one exactly if they
agree on each of the elements up to it. -/
theorem upTo_filterMap_eq_iff {last : β → Bool} {p q : α → Option β} {as : List α}
    (h : ∀ a ∈ as, (q a).isSome = (p a).isSome) :
    upTo last (as.filterMap q) = upTo last (as.filterMap p) ↔
      ∀ a ∈ upTo (fun a => (p a).any last) as, q a = p a := by
  induction as with
  | nil => simp [upTo]
  | cons a as ih =>
    obtain ⟨ha, hlater⟩ := forall_mem_cons.mp h
    have ih := ih hlater
    rw [filterMap_cons, filterMap_cons, upTo]
    cases hp : p a with
    | none =>
      have hq : q a = none := by
        rw [hp] at ha
        simpa using ha
      simp [hp, hq, ih]
    | some b =>
      obtain ⟨c, hq⟩ := Option.isSome_iff_exists.mp (by rw [ha, hp]; rfl)
      rw [hq]
      by_cases hcb : c = b
      · subst hcb
        by_cases hlast : last c = true
        · simp [upTo, hlast, hp, hq]
        · simp [upTo, hlast, hp, hq, ih]
      · constructor
        · intro heq
          have hhead := congrArg head? heq
          simp only [upTo] at hhead
          exact absurd (by split_ifs at hhead <;> simpa using hhead) hcb
        · intro hall
          have hfirst := hall a (by split_ifs <;> simp)
          rw [hq, hp] at hfirst
          exact absurd (Option.some.inj hfirst) hcb

end

/-- The payloads of the complete frames of a text. -/
def textData (t : Text) : List Text := (textCutter.drain t).1.filterMap fun p => sseData p.frame

theorem textData_append (s t : Text) :
    textData (s ++ t) = textData s ++ textData ((textCutter.drain s).2 ++ t) := by
  rw [textData, textCutter.drain_append, filterMap_append]
  rfl

theorem readFrames_eq (buffer : Text) :
    (readFrames buffer).1 = upTo isDone (textData buffer) ∧
      (readFrames buffer).2.outputDone = (textData buffer).any isDone ∧
      ((readFrames buffer).2.outputDone = false →
        (readFrames buffer).2.buffer = (textCutter.drain buffer).2) := by
  induction buffer using textCutter.drain_induction with
  | hnone buffer h =>
    have hnone : takeSseFrame buffer = none := by rw [takeSseFrame_eq, h]; rfl
    have hread : readFrames buffer = ([], ⟨buffer, false⟩) := by
      rw [readFrames]
      split
      · rfl
      · rename_i heq
        rw [hnone] at heq
        cases heq
    rw [hread, textData, textCutter.drain_of_none h]
    exact ⟨rfl, rfl, fun _ => rfl⟩
  | hsome buffer p rest h ih =>
    have hsome : takeSseFrame buffer = some (p.frame, rest) := by rw [takeSseFrame_eq, h]; rfl
    have hread : readFrames buffer = match sseData p.frame with
        | none => readFrames rest
        | some data =>
            if isDone data then ([data], ⟨rest, true⟩)
            else (data :: (readFrames rest).1, (readFrames rest).2) := by
      rw [readFrames]
      split
      · rename_i heq
        rw [hsome] at heq
        cases heq
      · rename_i heq
        rw [hsome] at heq
        cases heq
        rfl
    obtain ⟨hdata, hdone, hbuffer⟩ := ih
    rw [hread, textData, textCutter.drain_of_some h, filterMap_cons, ← textData]
    cases hframe : sseData p.frame with
    | none => exact ⟨hdata, hdone, hbuffer⟩
    | some data =>
      by_cases hlast : isDone data = true
      · simp [hlast, upTo]
      · simp only [hlast, upTo, any_cons, hdata, if_false, Bool.false_eq_true, Bool.false_or]
        exact ⟨trivial, hdone, hbuffer⟩

/-- Chunks are read as the text that they arrive as. -/
theorem readChunks_eq {buffer : Text} (h : textCutter.cut buffer = none) (chunks : List Bytes) :
    readChunks buffer chunks = upTo isDone (textData (buffer ++ chunks.flatMap fromUtf8Lossy)) := by
  induction chunks generalizing buffer with
  | nil =>
    rw [flatMap_nil, append_nil, textData, textCutter.drain_of_none h]
    rfl
  | cons chunk chunks ih =>
    obtain ⟨hdata, hdone, hbuffer⟩ := readFrames_eq (buffer ++ fromUtf8Lossy chunk)
    rw [flatMap_cons, ← append_assoc, textData_append, upTo_append, readChunks]
    by_cases hlast : (textData (buffer ++ fromUtf8Lossy chunk)).any isDone = true
    · rw [if_pos hlast]
      simp only [hdone, hlast, if_true, hdata]
    · have hopen : (textData (buffer ++ fromUtf8Lossy chunk)).any isDone = false :=
        Bool.eq_false_iff.mpr hlast
      have hrest := hbuffer (by rw [hdone, hopen])
      simp only [hdone, hopen, Bool.false_eq_true, if_false, hdata, upTo_of_none hopen, hrest]
      rw [ih (textCutter.cut_drain_rest _)]

theorem payloads_eq (chunks : List Bytes) :
    payloads chunks = upTo isDone (textData (chunks.flatMap fromUtf8Lossy)) := by
  have hnone : textCutter.cut [] = none := by
    cases hcut : textCutter.cut [] with
    | none => rfl
    | some next => simpa using textCutter.cut_length hcut
  exact readChunks_eq hnone chunks

end CodeSeeX.Native
