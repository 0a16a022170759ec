import CodeSeeX.Proxy.NativeRelay

/-!
# What the inspector of a relay reads

The inspection of a relayed stream is that of the frames which a bounded reader finds in
what the relay shows to its inspector, closed off if the reader was closed.
-/
namespace CodeSeeX.Native
open Framing Option List

variable (i : NativeResponseStreamInspection) {frame : Bytes}

namespace NativeResponseStreamInspection

/-- What concerns the output items. -/
def SameButOutput (i j : NativeResponseStreamInspection) : Prop :=
  ∃ items bytes incomplete, j = { i with
    outputItems := items, outputItemsBytes := bytes, outputItemsIncomplete := incomplete }

theorem sameButOutput_retain (item : Value) :
    i.SameButOutput (i.retainOutputItem item) := by
  simp only [retainOutputItem]
  split_ifs
  · exact ⟨_, _, _, rfl⟩
  · exact ⟨_, _, _, rfl⟩
  · exact ⟨_, _, _, rfl⟩

theorem SameButOutput.trans {i j k : NativeResponseStreamInspection} (hij : i.SameButOutput j)
    (hjk : j.SameButOutput k) : i.SameButOutput k := by
  obtain ⟨_, _, _, rfl⟩ := hij
  obtain ⟨_, _, _, rfl⟩ := hjk
  exact ⟨_, _, _, rfl⟩

theorem sameButOutput_foldl (items : List Value) :
    i.SameButOutput (items.foldl retainOutputItem i) := by
  induction items generalizing i with
  | nil => exact ⟨_, _, _, rfl⟩
  | cons item items ih => exact (sameButOutput_retain i item).trans (ih _)

theorem sameButOutput_noteOutput (kind : Text) (payload : Value) :
    i.SameButOutput (i.noteOutput kind payload) := by
  simp only [noteOutput]
  split_ifs
  · cases payload.get "item" with
    | none => exact ⟨_, _, _, rfl⟩
    | some item => exact sameButOutput_retain i item
  · cases (payload.pointer ["response", "output"]).bind Value.asArray with
    | none => exact ⟨_, _, _, rfl⟩
    | some items => exact sameButOutput_foldl i items
  · exact ⟨_, _, _, rfl⟩

end NativeResponseStreamInspection

namespace NativeResponseSseInspector

variable (crates : NativeCrates)

def feed (s : NativeResponseSseInspector) : Feed UInt8 → NativeResponseSseInspector
  | .input bytes => s.observeBytes crates bytes
  | .close => s.markUninspectableFrame

/-- The framing part of an inspector. -/
def reader (s : NativeResponseSseInspector) : Reader UInt8 :=
  ⟨s.buffer, s.inspection.oversizedFrameIgnored⟩

def inspectFrames (s : NativeResponseSseInspector) (frames : List Bytes) :
    NativeResponseSseInspector :=
  frames.foldl (inspectFrame crates) s

/-- The inspection of a run of the reader. -/
def account (s : NativeResponseSseInspector) (reading : List Bytes × Bool) :
    NativeResponseStreamInspection :=
  if reading.2 then (s.inspectFrames crates reading.1).inspection.markUninspectableFrame
  else (s.inspectFrames crates reading.1).inspection

variable {crates}

/-- What an event leaves in the account. -/
structure Accounted (crates : NativeCrates) (before after : NativeResponseStreamInspection)
    (frame : Text) (payload : Value) : Prop where
  terminal : after.terminal = (terminalOf (eventKindOf frame payload)).or before.terminal
  finalUsage : after.finalUsage = (usageOf payload).or before.finalUsage
  providerResponseIdHash : after.providerResponseIdHash =
    ((responseIdFromEvent payload).map crates.sha256Hex).or before.providerResponseIdHash
  eventCount : after.eventCount = before.eventCount + 1
  sawDoneSentinel : after.sawDoneSentinel = before.sawDoneSentinel
  oversizedFrameIgnored : after.oversizedFrameIgnored = before.oversizedFrameIgnored

section
variable (s : NativeResponseSseInspector)

theorem inspectPayload_accounted (frame : Text)
    (payload : Value) : Accounted crates s.inspection
      (s.inspectPayload crates frame payload).inspection frame payload := by
  simp only [inspectPayload]
  generalize hnoted : NativeResponseStreamInspection.noteOutput _ _ _ = noted
  have hsame := hnoted ▸ NativeResponseStreamInspection.sameButOutput_noteOutput _ _ _
  obtain ⟨_, _, _, rfl⟩ := hsame
  cases (payload.get "sequence_number").bind Value.asU64 with
  | none => exact ⟨rfl, rfl, rfl, rfl, rfl, rfl⟩
  | some sequence => exact ⟨rfl, rfl, rfl, rfl, rfl, rfl⟩

/-- A frame within the limit leaves the inspector able to read. -/
theorem inspectFrame_oversized (h : frame.length ≤ maxInspectedSseFrameBytes) :
    (s.inspectFrame crates frame).inspection.oversizedFrameIgnored =
      s.inspection.oversizedFrameIgnored := by
  rw [inspectFrame, if_neg (by omega)]
  split
  · rfl
  · simp only
    split_ifs
    · rfl
    · rfl
    · split
      · rfl
      · exact (inspectPayload_accounted s _ _).oversizedFrameIgnored

theorem inspectPayload_buffer (b : Bytes) (frame : Text)
    (payload : Value) : ({ s with buffer := b } : NativeResponseSseInspector).inspectPayload crates
      frame payload = { s.inspectPayload crates frame payload with buffer := b } := by
  simp only [inspectPayload]
  cases (payload.get "sequence_number").bind Value.asU64 <;> rfl

/-- The buffer plays no part in the inspection of a frame. -/
theorem inspectFrame_buffer (b frame : Bytes) :
    ({ s with buffer := b } : NativeResponseSseInspector).inspectFrame crates frame =
      { s.inspectFrame crates frame with buffer := b } := by
  simp only [inspectFrame]
  split
  · rfl
  · split
    · rfl
    · split
      · rfl
      · split
        · rfl
        · split
          · rfl
          · exact inspectPayload_buffer s b _ _

theorem inspectFrames_buffer (b : Bytes) (frames : List Bytes) :
    ({ s with buffer := b } : NativeResponseSseInspector).inspectFrames crates frames =
      { s.inspectFrames crates frames with buffer := b } := by
  induction frames generalizing s with
  | nil => rfl
  | cons frame frames ih =>
    rw [inspectFrames, foldl_cons, inspectFrame_buffer]
    exact ih _

theorem account_buffer (b : Bytes) (reading : List Bytes × Bool) :
    ({ s with buffer := b } : NativeResponseSseInspector).account crates reading =
      s.account crates reading := by
  simp only [account, inspectFrames_buffer]

theorem account_append (frames : List Bytes)
    (reading : List Bytes × Bool) : (s.inspectFrames crates frames).account crates reading =
      s.account crates (frames ++ reading.1, reading.2) := by
  simp only [account, inspectFrames, foldl_append]

end

/-- The inspector behind frames that were read, `later` being the reader behind them. -/
def settle (crates : NativeCrates) (s : NativeResponseSseInspector) (frames : List Bytes)
    (later : Reader UInt8) : NativeResponseSseInspector :=
  if later.closed then { s.inspectFrames crates frames with buffer := [] }.markUninspectableFrame
  else { s.inspectFrames crates frames with buffer := later.buffer }

section
variable (s : NativeResponseSseInspector) (rest : Bytes) (pieces : List (Piece UInt8))

/-- The rounds of the loop follow the reader. -/
theorem observeLoop_eq : s.observeLoop crates rest pieces =
      s.settle crates (Reader.readPieces maxInspectedSseFrameBytes rest pieces).1
        (Reader.readPieces maxInspectedSseFrameBytes rest pieces).2 := by
  induction pieces generalizing s with
  | nil =>
    simp only [observeLoop, Reader.readPieces]
    split_ifs <;> rfl
  | cons p pieces ih =>
    simp only [observeLoop, Reader.readPieces]
    split_ifs with h
    · rfl
    · exact ih _

theorem inspectFrames_read_oversized :
    (s.inspectFrames crates (Reader.readPieces maxInspectedSseFrameBytes rest
      pieces).1).inspection.oversizedFrameIgnored = s.inspection.oversizedFrameIgnored := by
  induction pieces generalizing s with
  | nil =>
    simp only [Reader.readPieces]
    split_ifs <;> rfl
  | cons p pieces ih =>
    simp only [Reader.readPieces]
    split_ifs with h
    · rfl
    · rw [inspectFrames, foldl_cons]
      exact (ih _).trans (inspectFrame_oversized s (by omega))

end

variable {s : NativeResponseSseInspector}

theorem observeBytes_of_oversized (bytes : Bytes)
    (h : s.inspection.oversizedFrameIgnored = true) : s.observeBytes crates bytes = s := by
  simp [observeBytes, h]

/-- After a frame that it could not hold, an inspector reports what it has reported before. -/
theorem run_of_oversized
    (h : s.inspection.markUninspectableFrame = s.inspection) (feeds : List (Feed UInt8)) :
    ((feeds.foldl (feed crates) s).finish crates).inspection = s.inspection := by
  have hover : s.inspection.oversizedFrameIgnored = true := by
    rw [← h]
    rfl
  induction feeds with
  | nil => simp [finish, hover]
  | cons f feeds ih =>
    have hsame : s.feed crates f = s := by
      cases f with
      | input bytes => exact observeBytes_of_oversized bytes hover
      | close =>
        cases s
        simp only [feed, markUninspectableFrame]
        rw [h]
    rw [foldl_cons, hsame, ih]

/-- The inspection of a run is the account of what the reader reads. -/
theorem run_inspection
    (h : s.inspection.oversizedFrameIgnored = false) (feeds : List (Feed UInt8)) :
    ((feeds.foldl (feed crates) s).finish crates).inspection =
      s.account crates (s.reader.run sseCutter maxInspectedSseFrameBytes feeds) := by
  induction feeds generalizing s with
  | nil =>
    simp only [foldl_nil, finish, Reader.run, reader, h]
    by_cases hb : s.buffer = []
    · simp [hb, account, inspectFrames]
    · simp only [hb, account, inspectFrames, Bool.false_eq_true, false_or, if_false,
        foldl_cons, foldl_nil]
      rw [inspectFrame_buffer]
  | cons f feeds ih =>
    rw [foldl_cons, Reader.run]
    cases f with
    | close =>
      have hclosed : (s.reader.feed sseCutter maxInspectedSseFrameBytes .close).2.closed = true := rfl
      rw [run_of_oversized (by rfl), Reader.run_of_closed hclosed]
      rfl
    | input bytes =>
      have hread : s.reader.feed sseCutter maxInspectedSseFrameBytes (.input bytes) =
          Reader.readPieces maxInspectedSseFrameBytes (sseCutter.drain (s.buffer ++ bytes)).2
            (sseCutter.drain (s.buffer ++ bytes)).1 := by
        simp [Reader.feed, reader, h]
      have hfeed : s.feed crates (.input bytes) = s.observeLoop crates
          (sseCutter.drain (s.buffer ++ bytes)).2 (sseCutter.drain (s.buffer ++ bytes)).1 := by
        simp [feed, observeBytes, h]
      have hkeeps := @inspectFrames_read_oversized crates s
        (sseCutter.drain (s.buffer ++ bytes)).2 (sseCutter.drain (s.buffer ++ bytes)).1
      rw [hread, hfeed, observeLoop_eq]
      generalize Reader.readPieces maxInspectedSseFrameBytes _ _ = reading at hkeeps ⊢
      obtain ⟨frames, later⟩ := reading
      by_cases hclosed : later.closed = true
      · rw [settle, if_pos hclosed, run_of_oversized (by rfl), Reader.run_of_closed hclosed]
        simp [account, markUninspectableFrame]
      · have hopen : later.closed = false := by simpa using hclosed
        simp only [settle, hopen, Bool.false_eq_true, if_false]
        have hstep := ih (s := { s.inspectFrames crates frames with buffer := later.buffer })
          (hkeeps.trans h)
        rw [hstep, account_buffer, account_append]
        have hreader : reader { s.inspectFrames crates frames with buffer := later.buffer } =
            later := by
          cases later
          simp only [reader, Reader.mk.injEq, true_and]
          exact (hkeeps.trans h).trans hopen.symm
        rw [hreader]

/-! ## What a frame tells -/

/-- The event that a frame within the limit carries, with the text of the frame. -/
def eventOf (crates : NativeCrates) (frame : Bytes) : Option (Text × Value) :=
  if maxInspectedSseFrameBytes < frame.length then none
  else (fromUtf8 frame).bind fun text =>
    if (frameData text).trim = [] ∨ (frameData text).trim = "[DONE]" then none
    else (crates.fromStr (frameData text).trim).map fun payload => (text, payload)

/-- The frame is the end marker. -/
def isDone (frame : Bytes) : Bool :=
  frame.length ≤ maxInspectedSseFrameBytes &&
    ((fromUtf8 frame).map fun text => (frameData text).trim) = some (Text.lit "[DONE]")

theorem inspectFrame_event {text : Text} {payload : Value}
    (h : eventOf crates frame = some (text, payload)) :
    s.inspectFrame crates frame = s.inspectPayload crates text payload := by
  simp only [eventOf] at h
  split_ifs at h with hsize
  rw [bind_eq_some_iff] at h
  obtain ⟨t, hutf8, h⟩ := h
  split_ifs at h with hdata
  rw [not_or] at hdata
  obtain ⟨v, hparse, hv⟩ := map_eq_some_iff.mp h
  cases hv
  simp only [inspectFrame, if_neg hsize, hutf8, if_neg hdata.1, if_neg hdata.2, hparse]

theorem inspectFrame_done (h : isDone frame = true) : s.inspectFrame crates frame =
      { s with inspection := { s.inspection with sawDoneSentinel := true } } := by
  simp only [isDone, Bool.and_eq_true, decide_eq_true_eq, map_eq_some_iff] at h
  obtain ⟨hsize, text, hutf8, hdata⟩ := h
  have hne : Text.lit "[DONE]" ≠ [] := by simp
  simp only [inspectFrame, if_neg (not_lt.mpr hsize), hutf8, hdata, if_neg hne, if_true]

/-- A frame that carries nothing can only show in the two flags of an incomplete account. -/
theorem inspectFrame_quiet {frame : Bytes}
    (hevent : eventOf crates frame = none) (hdone : isDone frame = false) :
    ∃ oversized incomplete, s.inspectFrame crates frame = { s with inspection := { s.inspection with
      oversizedFrameIgnored := oversized, outputItemsIncomplete := incomplete } } := by
  by_cases hsize : maxInspectedSseFrameBytes < frame.length
  · exact ⟨true, true, by rw [inspectFrame, if_pos hsize]; rfl⟩
  cases hutf8 : fromUtf8 frame with
  | none =>
    exact ⟨_, true, by simp only [inspectFrame, if_neg hsize, hutf8]; rfl⟩
  | some text =>
    by_cases hempty : (frameData text).trim = []
    · refine ⟨s.inspection.oversizedFrameIgnored, s.inspection.outputItemsIncomplete, ?_⟩
      simp only [inspectFrame, if_neg hsize, hutf8, if_pos hempty]
    by_cases hmarker : (frameData text).trim = "[DONE]"
    · have hyes : isDone frame = true := by
        simp only [isDone, hutf8, map_some, hmarker, decide_true, Bool.and_true,
          decide_eq_true_eq]
        omega
      rw [hyes] at hdone
      simp at hdone
    · cases hparse : crates.fromStr (frameData text).trim with
      | none =>
        refine ⟨s.inspection.oversizedFrameIgnored, true, ?_⟩
        simp only [inspectFrame, if_neg hsize, hutf8, if_neg hempty, if_neg hmarker, hparse]
      | some payload =>
        simp [eventOf, hsize, hutf8, hempty, hmarker, hparse] at hevent

end NativeResponseSseInspector

/-! ## The relay -/

namespace NativeResponseSseRelay

variable (crates : NativeCrates)

/-- What the inspector gets for one frame of the provider. -/
def feedPiece (p : Piece UInt8) : List (Feed UInt8) :=
  if maxInspectedSseFrameBytes < p.frame.length then [.close]
  else [.input (repairFrame crates p.frame).1, .input p.delimiter]

/-- What the inspector gets after a push that leaves `rest` in the buffer. -/
def feedRest (rest : Bytes) : List (Feed UInt8) :=
  if maxInspectedSseFrameBytes < rest.length then [.close] else []

/-- What stays in the buffer. -/
def keptRest (rest : Bytes) : Bytes := if maxRelayedSseFrameBytes < rest.length then [] else rest

/-- What the inspector gets in a whole run. -/
def relayFeed (buffer : Bytes) : List Bytes → List (Feed UInt8)
  | [] => if buffer = [] then [] else [.input buffer]
  | chunk :: chunks =>
      let (pieces, rest) := sseCutter.drain (buffer ++ chunk)
      pieces.flatMap (feedPiece crates) ++ feedRest rest ++ relayFeed (keptRest rest) chunks

variable {crates}

section
variable (r : NativeResponseSseRelay)

theorem relayPayload_inspector (text : Text) (payload : Value)
    (frame delimiter : Bytes) :
    (r.relayPayload text payload frame delimiter).2.inspector = r.inspector ∧
      (r.relayPayload text payload frame delimiter).2.buffer = r.buffer := by
  have hidentify : (RelayedEvent.identify r payload).relay.inspector = r.inspector ∧
      (RelayedEvent.identify r payload).relay.buffer = r.buffer := by
    simp only [RelayedEvent.identify]
    split <;> exact ⟨rfl, rfl⟩
  have hmirror : ∀ e : RelayedEvent, e.mirror.relay.inspector = e.relay.inspector ∧
      e.mirror.relay.buffer = e.relay.buffer := by
    intro e
    simp only [RelayedEvent.mirror]
    split <;> exact ⟨rfl, rfl⟩
  simp only [relayPayload]
  split
  · rw [(hmirror _).1, (hmirror _).2]
    exact hidentify
  · simp only [(hmirror _).1, (hmirror _).2]
    exact hidentify

theorem relayFrame_inspector (frame delimiter : Bytes) :
    (r.relayFrame crates frame delimiter).2.inspector = r.inspector ∧
      (r.relayFrame crates frame delimiter).2.buffer = r.buffer := by
  simp only [relayFrame]
  split
  · exact ⟨rfl, rfl⟩
  · split
    · exact ⟨rfl, rfl⟩
    · exact relayPayload_inspector r _ _ _ _

theorem takeFrame_inspector (p : Piece UInt8) :
    (r.takeFrame crates p).2.inspector =
        (feedPiece crates p).foldl (NativeResponseSseInspector.feed crates) r.inspector ∧
      (r.takeFrame crates p).2.buffer = r.buffer := by
  simp only [takeFrame, feedPiece]
  split_ifs
  · exact ⟨rfl, rfl⟩
  · exact relayFrame_inspector _ _ _

theorem takeFrames_inspector (pieces : List (Piece UInt8)) :
    (r.takeFrames crates pieces).2.inspector = (pieces.flatMap (feedPiece crates)).foldl
        (NativeResponseSseInspector.feed crates) r.inspector ∧
      (r.takeFrames crates pieces).2.buffer = r.buffer := by
  induction pieces generalizing r with
  | nil => exact ⟨rfl, rfl⟩
  | cons p pieces ih =>
    obtain ⟨hinspector, hbuffer⟩ := @takeFrame_inspector crates r p
    rw [takeFrames, flatMap_cons, foldl_append, ← hinspector, ← hbuffer]
    exact ih _

theorem relayBytes_inspector (chunk : Bytes) :
    (r.relayBytes crates chunk).2.inspector =
        ((sseCutter.drain (r.buffer ++ chunk)).1.flatMap (feedPiece crates) ++
          feedRest (sseCutter.drain (r.buffer ++ chunk)).2).foldl
            (NativeResponseSseInspector.feed crates) r.inspector ∧
      (r.relayBytes crates chunk).2.buffer = keptRest (sseCutter.drain (r.buffer ++ chunk)).2 := by
  obtain ⟨hinspector, hbuffer⟩ := @takeFrames_inspector crates
    { r with buffer := (sseCutter.drain (r.buffer ++ chunk)).2 }
    (sseCutter.drain (r.buffer ++ chunk)).1
  simp only [relayBytes, checkBuffer, hbuffer, feedRest, keptRest, foldl_append]
  split_ifs with hsize hcap
  · exact ⟨by rw [← hinspector]; rfl, rfl⟩
  · exact ⟨by rw [← hinspector]; rfl, rfl⟩
  · have : maxInspectedSseFrameBytes < maxRelayedSseFrameBytes := by decide
    omega
  · exact ⟨hinspector, hbuffer⟩

/-- The inspector of a relay has got the feed of the stream. -/
theorem relayChunks_inspector (chunks : List Bytes) :
    (r.relayChunks crates chunks).2.inspector = ((relayFeed crates r.buffer chunks).foldl
      (NativeResponseSseInspector.feed crates) r.inspector).finish crates := by
  induction chunks generalizing r with
  | nil =>
    simp only [relayChunks, finish, relayFeed]
    split_ifs with h
    · rfl
    · exact (relayFrame_inspector _ _ _).1
  | cons chunk chunks ih =>
    obtain ⟨hinspector, hbuffer⟩ := @relayBytes_inspector crates r chunk
    rw [relayChunks, relayFeed, foldl_append, ← hinspector, ← hbuffer]
    exact ih _

end

/-- What the inspector of a fresh relay reads of a stream. -/
def reading (crates : NativeCrates) (chunks : List Bytes) : List Bytes × Bool :=
  ({} : Reader UInt8).run sseCutter maxInspectedSseFrameBytes (relayFeed crates [] chunks)

theorem relayChunks_inspection (localResponseId : Text) (mode : Option ReasoningSummaryMode)
    (chunks : List Bytes) :
    (((new localResponseId).withReasoningSummary mode).relayChunks crates
      chunks).2.inspector.inspection =
        NativeResponseSseInspector.account crates {} (reading crates chunks) := by
  rw [relayChunks_inspector]
  exact NativeResponseSseInspector.run_inspection rfl _

end NativeResponseSseRelay
end CodeSeeX.Native
