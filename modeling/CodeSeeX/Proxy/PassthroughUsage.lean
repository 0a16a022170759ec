import CodeSeeX.Proxy.SseText
import Mathlib.Data.Bool.AllAny

/-!
# The usage of a passed-through stream

The chunks of a chat completion stream go to the client as they come. Beside that the proxy scans
the frames for their `usage` and stores the last one when the stream ends. A frame that says
`"usage": null` replaces what an earlier frame said.
-/
namespace CodeSeeX.Passthrough

open Framing Native List Option

def maxBufferedSseBytes : ℕ := 8 * 1024 * 1024

def isAsciiWhitespace (byte : UInt8) : Bool := byte ∈ ([9, 10, 12, 13, 32] : Bytes)

/-- The variables of the scan; `dropped` is reported as an oversized frame. -/
structure Scan where
  buffer : Bytes := []
  usage : Value := .null
  dropped : Bool := false

/-- `usage.is_null()` -/
def isNull : Value → Bool
  | .null => true
  | _ => false

section
variable (fromStr : Text → Option Value)

/-- The `usage` of a frame whose data is JSON. -/
def frameUsage (frame : Bytes) : Option Value := do
  let frame ← fromUtf8 frame
  let data := (frameData frame).trim
  if data = [] ∨ data = Text.lit "[DONE]" then none
  else
    let parsed ← fromStr data
    parsed.get "usage"

def captureSseFrameUsage (usage : Value) (frame : Bytes) : Value :=
  (frameUsage fromStr frame).getD usage

/-- The loop over the complete frames of the buffer, and the cap on what is left. -/
def captureStreamUsage (scan : Scan) (bytes : Bytes) : Scan :=
  let (pieces, rest) := sseCutter.drain (scan.buffer ++ bytes)
  let usage := (pieces.map Piece.frame).foldl (captureSseFrameUsage fromStr) scan.usage
  if rest.length > maxBufferedSseBytes then { buffer := [], usage, dropped := true }
  else { scan with buffer := rest, usage }

def captureRemainingStreamUsage (scan : Scan) : Value :=
  if scan.buffer.all isAsciiWhitespace then scan.usage
  else captureSseFrameUsage fromStr scan.usage scan.buffer

/-- The usage behind a stream of chunks that ends. -/
def streamUsage (chunks : List Bytes) : Value :=
  captureRemainingStreamUsage fromStr (chunks.foldl (captureStreamUsage fromStr) {})

/-- The response that the finished request is stored with. -/
def storedResponse (chunks : List Bytes) : Option Value :=
  let usage := streamUsage fromStr chunks
  if isNull usage then none else some (.object [("usage", usage)])

end

/-- The body of a stream: frames with their delimiters, and an unterminated one at the end. -/
structure Body where
  frames : List (Piece UInt8)
  last : Bytes
  ended : ∀ piece ∈ frames, sseCutter.cut piece.whole = some (piece, [])
  unended : sseCutter.cut last = none

namespace Body

def bytes (body : Body) : Bytes := body.frames.flatMap Piece.whole ++ body.last

/-- No frame is longer than what the scan keeps. -/
def Fits (body : Body) : Prop :=
  (∀ piece ∈ body.frames, piece.whole.length ≤ maxBufferedSseBytes) ∧
    body.last.length ≤ maxBufferedSseBytes

/-- The `usage` members of the frames, in their order. -/
def usages (fromStr : Text → Option Value) (body : Body) : List Value :=
  (body.frames.map Piece.frame ++ [body.last]).filterMap (frameUsage fromStr)

/-- What a request is to be billed with. -/
def lastUsage (fromStr : Text → Option Value) (body : Body) : Option Value :=
  ((body.usages fromStr).filter fun usage => !isNull usage).getLast?

theorem drain_bytes (body : Body) : sseCutter.drain body.bytes = (body.frames, body.last) := by
  obtain ⟨frames, last, hended, hunended⟩ := body
  show sseCutter.drain (frames.flatMap Piece.whole ++ last) = (frames, last)
  induction frames with
  | nil => exact sseCutter.drain_of_none hunended
  | cons piece frames ih =>
    have hcut := sseCutter.cut_again (hended piece mem_cons_self)
      (frames.flatMap Piece.whole ++ last)
    rw [flatMap_cons, append_assoc, sseCutter.drain_of_some hcut,
      ih fun other hother => hended other (mem_cons_of_mem piece hother)]

end Body

section
variable {fromStr : Text → Option Value}

/-- The scan is that of the whole body, wherever the network cut it. -/
theorem scan_chunks (chunks : List Bytes) (scan : Scan) (hcut : sseCutter.cut scan.buffer = none)
    (hfits : ∀ piece ∈ sseCutter.frames (scan.buffer ++ chunks.flatten),
      piece.whole.length ≤ maxBufferedSseBytes) :
    chunks.foldl (captureStreamUsage fromStr) scan =
      { scan with
        buffer := (sseCutter.drain (scan.buffer ++ chunks.flatten)).2
        usage := ((sseCutter.drain (scan.buffer ++ chunks.flatten)).1.map Piece.frame).foldl
          (captureSseFrameUsage fromStr) scan.usage } := by
  induction chunks generalizing scan with
  | nil =>
    rw [flatten_nil, append_nil, sseCutter.drain_of_none hcut]
    rfl
  | cons chunk chunks ih =>
    rw [flatten_cons, ← append_assoc] at hfits ⊢
    rw [sseCutter.frames_append] at hfits
    have hrest := sseCutter.cut_drain_rest (scan.buffer ++ chunk)
    have hlength := sseCutter.rest_length_le hrest fun piece hpiece =>
      hfits piece (mem_append_right _ hpiece)
    rw [foldl_cons, captureStreamUsage]
    dsimp only
    rw [if_neg (by omega), ih _ hrest fun piece hpiece => hfits piece (mem_append_right _ hpiece),
      sseCutter.drain_append (scan.buffer ++ chunk)]
    simp

theorem bytes_whitespace {bytes : Bytes} (h : bytes.all isAsciiWhitespace) :
    ∃ text : Text, bytes = Text.bytes text ∧ 'd' ∉ text := by
  induction bytes with
  | nil => exact ⟨[], rfl, not_mem_nil⟩
  | cons byte bytes ih =>
    rw [all_cons, Bool.and_eq_true] at h
    obtain ⟨text, rfl, htext⟩ := ih h.2
    have hchars : ∀ space ∈ ([9, 10, 12, 13, 32] : Bytes),
        String.utf8EncodeChar (Char.ofNat space.toNat) = [space] ∧ Char.ofNat space.toNat ≠ 'd' :=
      all_iff_forall_prop.mp (by decide)
    obtain ⟨hbytes, hne⟩ := hchars byte (of_decide_eq_true h.1)
    refine ⟨Char.ofNat byte.toNat :: text, ?_, by simp [Ne.symm hne, htext]⟩
    rw [Text.bytes, Text.bytes, flatMap_cons, hbytes, singleton_append]

theorem mem_of_mem_lines {text line : Text} (h : line ∈ lines text) {c : Char} (hc : c ∈ line) :
    c ∈ text := by
  obtain ⟨raw, hraw, rfl⟩ := mem_map.mp h
  rw [← Text.splitInclusive_flatten text]
  refine mem_flatten.mpr ⟨raw, hraw, ?_⟩
  have hlast : ∀ {d : Char} {whole part : Text}, stripLast d whole = some part → part ⊆ whole := by
    intro d whole part hpart
    rw [stripLast] at hpart
    split_ifs at hpart
    exact some.inj hpart ▸ dropLast_subset whole
  cases hfeed : stripLast '\n' raw with
  | none => simpa [hfeed] using hc
  | some part =>
    rw [hfeed] at hc
    cases hreturn : stripLast '\r' part with
    | none => exact hlast hfeed (by simpa [hreturn] using hc)
    | some shorter => exact hlast hfeed (hlast hreturn (by simpa [hreturn] using hc))

theorem frameUsage_whitespace {bytes : Bytes} (h : bytes.all isAsciiWhitespace) :
    frameUsage fromStr bytes = none := by
  obtain ⟨text, rfl, htext⟩ := bytes_whitespace h
  have hlines : (lines text).filterMap (stripStart "data:") = [] := by
    refine filterMap_eq_nil_iff.mpr fun line hline => ?_
    rw [stripStart, if_neg]
    exact fun hstart => htext (mem_of_mem_lines hline (hstart.subset mem_cons_self))
  have hdata : (frameData text).trim = [] := by
    rw [frameData, hlines]
    rfl
  rw [frameUsage, fromUtf8_bytes]
  simp only [bind_eq_bind, bind_some, hdata, true_or, if_true]

theorem foldl_usages (frames : List Bytes) (usage : Value) :
    frames.foldl (captureSseFrameUsage fromStr) usage =
      (frames.filterMap (frameUsage fromStr)).getLast?.getD usage := by
  induction frames generalizing usage with
  | nil => rfl
  | cons frame frames ih =>
    rw [foldl_cons, ih, captureSseFrameUsage, filterMap_cons]
    cases frameUsage fromStr frame with
    | none => rfl
    | some next =>
      rw [getLast?_cons]
      rfl

theorem streamUsage_eq (body : Body) (hfits : body.Fits) {chunks : List Bytes}
    (hchunks : chunks.flatten = body.bytes) :
    streamUsage fromStr chunks = (body.usages fromStr).getLast?.getD .null := by
  have hdrain := body.drain_bytes
  have hempty : sseCutter.cut [] = none := rfl
  have hframes : ∀ piece ∈ sseCutter.frames chunks.flatten,
      piece.whole.length ≤ maxBufferedSseBytes := by
    intro piece hpiece
    rw [hchunks, Cutter.frames, hdrain] at hpiece
    obtain hmem | hmem := mem_append.mp hpiece
    · exact hfits.1 piece hmem
    · split_ifs at hmem
      · cases hmem
      · obtain rfl := mem_singleton.mp hmem
        simpa [Piece.whole] using hfits.2
  rw [streamUsage, scan_chunks chunks {} hempty hframes]
  show captureRemainingStreamUsage fromStr { buffer := _, usage := _, dropped := _ } = _
  rw [nil_append, hchunks, hdrain, captureRemainingStreamUsage, Body.usages,
    ← foldl_usages, foldl_append]
  split_ifs with hblank
  · rw [foldl_cons, foldl_nil, captureSseFrameUsage, frameUsage_whitespace hblank]
    rfl
  · rfl

/-- The scan stores the last usage that is not null exactly when no frame says `null` behind it. -/
theorem usageKept_iff (body : Body) (hfits : body.Fits) (chunks : List Bytes)
    (hchunks : chunks.flatten = body.bytes) :
    storedResponse fromStr chunks =
        (body.lastUsage fromStr).map (fun usage => .object [("usage", usage)]) ↔
      ((body.usages fromStr).getLast? = some .null → ∀ usage ∈ body.usages fromStr, usage = .null) := by
  rw [storedResponse, streamUsage_eq body hfits hchunks, Body.lastUsage]
  generalize body.usages fromStr = usages
  obtain rfl | ⟨front, last, rfl⟩ := eq_nil_or_concat usages
  · simp [isNull]
  rw [concat_eq_append, getLast?_concat, getD_some, filter_append]
  have hnull : ∀ usage : Value, isNull usage = true ↔ usage = .null := by
    intro usage
    cases usage <;> simp [isNull]
  by_cases hlast : last = .null
  · subst hlast
    have hnone : [Value.null].filter (fun usage => !isNull usage) = [] := rfl
    have hstored : isNull Value.null = true := rfl
    rw [hnone, append_nil, if_pos hstored, eq_comm, map_eq_none_iff,
      getLast?_eq_none_iff, filter_eq_nil_iff]
    have hkept : ∀ usage : Value, ¬(!isNull usage) = true ↔ usage = .null := by
      simpa using hnull
    simp only [hkept, mem_append, mem_singleton, true_implies]
    exact ⟨fun hfront usage husage => husage.elim (hfront usage) id,
      fun hall usage husage => hall usage (.inl husage)⟩
  · have hsome : isNull last = false := by rwa [← Bool.not_eq_true, hnull]
    have hkept : [last].filter (fun usage => !isNull usage) = [last] := by simp [hsome]
    rw [hkept, getLast?_concat, hsome, if_neg Bool.false_ne_true]
    exact iff_of_true rfl fun hsame => absurd (some.inj hsame) hlast

end

/-! ## A `null` behind the usage -/

def usageText : Text := "\x7b\"usage\":\x7b\"total_tokens\":3\x7d\x7d"

def nullText : Text := "\x7b\"usage\":null\x7d"

/-- A JSON parser for these two texts. -/
def readsUsage (text : Text) : Option Value :=
  if text = usageText then
    some (.object [("usage", .object [("total_tokens", .number (.posInt 3))])])
  else if text = nullText then some (.object [("usage", .null)])
  else none

/-- A frame and an unterminated one. -/
def twoFrames (first last : Bytes) (hfirst : Plain first) (hlast : Plain last) : Body where
  frames := [⟨first, lfDelimiter⟩]
  last := last
  ended := by
    intro piece hpiece
    obtain rfl := mem_singleton.mp hpiece
    simpa [Piece.whole] using hfirst.cut_piece []
  unended := hlast.cut

def dataLine (data : Text) : Bytes := Text.bytes (("data: " : Text) ++ data)

theorem usageLine_plain : Plain (dataLine usageText) := by
  exact all_iff_forall_prop.mp (by decide)

theorem nullLine_plain : Plain (dataLine nullText) := by
  exact all_iff_forall_prop.mp (by decide)

theorem usages_twoFrames {first last : Bytes} (hfirst : Plain first) (hlast : Plain last) :
    (twoFrames first last hfirst hlast).usages readsUsage =
      [first, last].filterMap (frameUsage readsUsage) := rfl

theorem fits_twoFrames {first last : Bytes} (hfirst : Plain first) (hlast : Plain last)
    (hlength : first.length + 2 ≤ maxBufferedSseBytes) (hrest : last.length ≤ maxBufferedSseBytes) :
    (twoFrames first last hfirst hlast).Fits := by
  refine ⟨fun piece hpiece => ?_, hrest⟩
  obtain rfl := mem_singleton.mp hpiece
  simpa [Piece.whole, lfDelimiter] using hlength

theorem frameUsage_usageLine :
    frameUsage readsUsage (dataLine usageText) =
      some (.object [("total_tokens", .number (.posInt 3))]) := by
  rfl

theorem frameUsage_nullLine : frameUsage readsUsage (dataLine nullText) = some .null := by
  rfl

/-- The usage comes last. -/
theorem usageKept_nullFirst :
    let body := twoFrames _ _ nullLine_plain usageLine_plain
    storedResponse readsUsage [body.bytes] =
      (body.lastUsage readsUsage).map fun usage => .object [("usage", usage)] :=
  (usageKept_iff _ (fits_twoFrames _ _ (by decide) (by decide)) [_] (by simp)).mpr (by
    rw [usages_twoFrames, filterMap_cons, frameUsage_nullLine, filterMap_cons,
      frameUsage_usageLine]
    simp)

/-- The first frame has the usage, and the last one takes it away. -/
theorem usage_lost :
    let body := twoFrames _ _ usageLine_plain nullLine_plain
    storedResponse readsUsage [body.bytes] ≠
      (body.lastUsage readsUsage).map fun usage => .object [("usage", usage)] := by
  intro body
  rw [storedResponse, streamUsage_eq body (fits_twoFrames _ _ (by decide) (by decide)) (by simp),
    Body.lastUsage, usages_twoFrames, filterMap_cons, frameUsage_usageLine,
    filterMap_cons, frameUsage_nullLine]
  simp [isNull]

end CodeSeeX.Passthrough
