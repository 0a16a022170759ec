import CodeSeeX.General.Renumbering
import CodeSeeX.Proxy.RelayFeed
import CodeSeeX.Proxy.SseText

/-!
# Sequence numbers of a relayed stream

Mirrored events take numbers of their own, and rewritten frames are shifted behind them.
A frame that the relay forwards as it came keeps its number.
-/
namespace CodeSeeX
open List Text

variable (payload : Value) (r : NativeResponseSseRelay) {e : RelayedEvent}

namespace Native
open Framing

/-! ## Numbers -/

theorem sequenceNumber_set {v : Value} {key : Text} (h : lit "sequence_number" ≠ key)
    (field : Value) : sequenceNumber (v.set key field) = sequenceNumber v := by
  simp only [sequenceNumber]
  rw [Value.get_set_ne h]

theorem sequenceNumber_withSequenceNumber (fields : List (Text × Value)) (n : UInt64) :
    sequenceNumber (withSequenceNumber (.object fields) n) = some n := by
  simp only [sequenceNumber, withSequenceNumber]
  rw [Value.get_set_self]
  simp [Value.asU64]

theorem object_of_sequenceNumber {v : Value} {n : UInt64} (h : sequenceNumber v = some n) :
    ∃ fields, v = .object fields := by
  cases v with
  | object fields => exact ⟨fields, rfl⟩
  | _ => simp [sequenceNumber, Value.get] at h

theorem sequenceNumber_identity (provider : Text) (localId : Text) :
    sequenceNumber (rewriteProviderResponseIdentity payload provider localId).1 =
      sequenceNumber payload := by
  have hid : lit "sequence_number" ≠ lit "id" := by simp
  have hresponse : lit "sequence_number" ≠ lit "response" := by simp
  have hreference : lit "sequence_number" ≠ lit "response_id" := by simp
  simp only [rewriteProviderResponseIdentity]
  split_ifs <;>
    simp only [sequenceNumber_set hid, sequenceNumber_set hresponse, sequenceNumber_set hreference]

theorem sequenceNumber_mirrored (payload : Value) :
    sequenceNumber (r.mirrorReasoningEvent payload).1 = sequenceNumber payload := by
  have hitem : lit "sequence_number" ≠ lit "item" := by simp
  have hresponse : lit "sequence_number" ≠ lit "response" := by simp
  simp only [NativeResponseSseRelay.mirrorReasoningEvent]
  split_ifs
  · rfl
  · rfl
  · rfl
  · rfl
  · rfl
  · cases (r.reasoning.onItemDone r.localResponseId
      (((payload.get "output_index").bind Value.asU64).getD 0) payload).1 with
    | none => rfl
    | some text => exact sequenceNumber_set hitem _
  · cases (payload.pointer ["response", "output"]).bind Value.asArray with
    | none => rfl
    | some items => exact sequenceNumber_set hresponse _
  · rfl

theorem sequenceNumber_normalized (fromStr : Text → Option Value) (payload : Value) :
    sequenceNumber (normalizeApplyPatchEventPayload fromStr payload).1 = sequenceNumber payload := by
  have hitem : lit "sequence_number" ≠ lit "item" := by simp
  have hresponse : lit "sequence_number" ≠ lit "response" := by simp
  have hfirst : ∀ v, sequenceNumber (normalizeEventItem fromStr v).1 = sequenceNumber v := by
    intro v
    simp only [normalizeEventItem]
    split
    · exact sequenceNumber_set hitem _
    · rfl
  have hsecond : ∀ v, sequenceNumber (normalizeEventOutput fromStr v).1 = sequenceNumber v := by
    intro v
    simp only [normalizeEventOutput]
    split
    · split
      · exact sequenceNumber_set hresponse _
      · rfl
    · rfl
  exact (hsecond _).trans (hfirst _)

/-- The number that a frame carries. -/
def frameNumber (crates : NativeCrates) (frame : Bytes) : Option UInt64 :=
  (fromUtf8 frame).bind fun text =>
    (crates.fromStr (frameData text).trim).bind sequenceNumber

/-- The number that the client finds in what goes out. -/
def Outgoing.number (crates : NativeCrates) : Outgoing → Option UInt64
  | verbatim frame _ => frameNumber crates frame
  | rewritten _ payload _ => sequenceNumber payload
  | injected payload => sequenceNumber payload

/-- The parser reads back what a repair has written, as `serde_json` does; an empty text is not a
value. -/
structure ReadsBack (crates : NativeCrates) : Prop where
  empty : crates.fromStr [] = none
  printed : ∀ text payload, crates.fromStr text = some payload → ∃ value,
    crates.fromStr (normalizeApplyPatchEventPayload crates.fromStr payload).1.print = some value ∧
      sequenceNumber value =
        sequenceNumber (normalizeApplyPatchEventPayload crates.fromStr payload).1

/-! ## Injected events -/

/-- Events of the mirror are objects. -/
def Objects (events : List Value) : Prop := ∀ v ∈ events, ∃ fields, v = .object fields

theorem Objects.append {events more : List Value} (h : Objects events) (h' : Objects more) :
    Objects (events ++ more) := by
  intro v hv
  rcases mem_append.mp hv with hv | hv
  · exact h v hv
  · exact h' v hv

namespace ReasoningSummaryMirror

variable (responseId : Text) (outputIndex : ℕ)

theorem announcePart_objects (m : ReasoningSummaryMirror) (itemId : Text) :
    Objects (m.announcePart responseId outputIndex itemId).1 := by
  simp only [announcePart]
  split_ifs
  · simp [Objects]
  · simp [Objects, reasoningSummaryPartAdded]

theorem delta_objects (itemId : Text) (emit : Option Text) : Objects ((emit.map fun emit =>
    reasoningSummaryTextDelta responseId itemId outputIndex emit).toList) := by
  cases emit <;> simp [Objects, reasoningSummaryTextDelta]

section
variable (m : ReasoningSummaryMirror)

theorem finishReasoningSummary_objects (itemId : Text) :
    Objects (m.finishReasoningSummary responseId outputIndex itemId).1 := by
  have hannounced := announcePart_objects responseId outputIndex m itemId
  simp only [finishReasoningSummary]
  split_ifs
  · exact hannounced
  · split
    · exact hannounced.append (delta_objects responseId outputIndex itemId _)
    · refine (hannounced.append (delta_objects responseId outputIndex itemId _)).append ?_
      simp [Objects, reasoningSummaryTextDone, reasoningSummaryPartDone]

theorem onContentPart_objects :
    Objects (m.onContentPart responseId outputIndex payload).1 := by
  simp only [onContentPart]
  split
  · simp [Objects]
  · split_ifs
    · simp [Objects]
    · simp [Objects]
    · exact announcePart_objects responseId outputIndex _ _

theorem onTextDelta_objects :
    Objects (m.onTextDelta responseId outputIndex payload).1 := by
  simp only [onTextDelta]
  split
  · simp [Objects]
  · split_ifs
    · simp [Objects]
    · exact (announcePart_objects responseId outputIndex _ _).append
        (delta_objects responseId outputIndex _ _)

theorem onTextDone_objects :
    Objects (m.onTextDone responseId outputIndex payload).1 := by
  simp only [onTextDone]
  split
  · simp [Objects]
  · split_ifs
    · simp [Objects]
    · exact finishReasoningSummary_objects responseId outputIndex _ _

theorem onItemDone_objects :
    Objects (m.onItemDone responseId outputIndex payload).2.1 := by
  simp only [onItemDone]
  split
  · simp [Objects]
  · split_ifs
    · simp [Objects]
    · simp [Objects]
    · simp [Objects]
    · split
      · simp [Objects]
      · exact finishReasoningSummary_objects responseId outputIndex _ _

end

end ReasoningSummaryMirror

theorem mirror_objects (payload : Value) :
    Objects (r.mirrorReasoningEvent payload).2.1 := by
  simp only [NativeResponseSseRelay.mirrorReasoningEvent]
  split_ifs
  · simp [Objects]
  · simp [Objects]
  · exact ReasoningSummaryMirror.onContentPart_objects _ _ _ _
  · exact ReasoningSummaryMirror.onTextDelta_objects _ _ _ _
  · exact ReasoningSummaryMirror.onTextDone_objects _ _ _ _
  · split
    · exact ReasoningSummaryMirror.onItemDone_objects _ _ _ _
    · exact ReasoningSummaryMirror.onItemDone_objects _ _ _ _
  · split <;> simp [Objects]
  · simp [Objects]

/-! ## What happens to a number -/

namespace NativeResponseSseRelay
open Renumbering

variable (crates : NativeCrates)

/-- What the relay does with the number of an event. -/
def payloadSteps (r : NativeResponseSseRelay) (payload : Value) : List Step :=
  let identified := RelayedEvent.identify r payload
  let eventType := (identified.payload.getStr "type").getD []
  let e := identified.mirror
  match sequenceNumber identified.payload with
  | none => []
  | some n =>
      if e.passes eventType then [.pass n.toNat]
      else [.shift n.toNat (!e.relay.suppressProviderReasoning eventType e.payload)
        e.injected.length]

def frameSteps (r : NativeResponseSseRelay) (frame : Bytes) : List Step :=
  match (fromUtf8 frame).bind fun text => crates.fromStr (frameData text).trim with
  | none => []
  | some payload => r.payloadSteps payload

def pieceSteps (r : NativeResponseSseRelay) (p : Piece UInt8) : List Step :=
  if maxInspectedSseFrameBytes < p.frame.length then
    (frameNumber crates p.frame).toList.map fun n => .pass n.toNat
  else r.frameSteps crates (repairFrame crates p.frame).1

def piecesSteps (r : NativeResponseSseRelay) : List (Piece UInt8) → List Step
  | [] => []
  | p :: pieces => r.pieceSteps crates p ++ (r.takeFrame crates p).2.piecesSteps pieces

/-- The steps of a whole run. A frame of which the relay drops the beginning is a loss. -/
def runSteps (r : NativeResponseSseRelay) : List Bytes → List Step
  | [] => if r.buffer = [] then [] else r.frameSteps crates r.buffer
  | chunk :: chunks =>
      let drained := sseCutter.drain (r.buffer ++ chunk)
      { r with buffer := drained.2 }.piecesSteps crates drained.1 ++
        (if maxRelayedSseFrameBytes < drained.2.length then [.lost] else []) ++
          (r.relayBytes crates chunk).2.runSteps chunks

/-- The numbers in what goes out, and the offset afterwards, are those of the steps. -/
structure Renumbers (out : List Outgoing) (r r' : NativeResponseSseRelay) (steps : List Step) :
    Prop where
  numbers : ∀ offset, r.sequenceOffset.toNat = offset % 2 ^ 64 →
    (out.filterMap (Outgoing.number crates)).map UInt64.toNat =
      numbers (2 ^ 64) offset steps
  offset : ∀ offset, r.sequenceOffset.toNat = offset % 2 ^ 64 →
    r'.sequenceOffset.toNat = (offset + addedBy steps) % 2 ^ 64

variable {crates}

theorem Renumbers.append {out more : List Outgoing} {r r' r'' : NativeResponseSseRelay}
    {steps moreSteps : List Step} (h : Renumbers crates out r r' steps)
    (h' : Renumbers crates more r' r'' moreSteps) :
    Renumbers crates (out ++ more) r r'' (steps ++ moreSteps) where
  numbers offset hoffset := by
    rw [filterMap_append, map_append, h.numbers offset hoffset,
      h'.numbers _ (h.offset offset hoffset), numbers_append]
  offset offset hoffset := by
    rw [h'.offset _ (h.offset offset hoffset), addedBy_append, Nat.add_assoc]

theorem mapIdx_number {events : List Value} (h : Objects events) (number : ℕ → UInt64) :
    (events.mapIdx fun index event => Outgoing.injected
      (withSequenceNumber event (number index))).filterMap (Outgoing.number crates) =
        (range events.length).map number := by
  induction events generalizing number with
  | nil => rfl
  | cons event events ih =>
    obtain ⟨fields, rfl⟩ := h event mem_cons_self
    have hrest := ih (fun v hv => h v (mem_cons_of_mem _ hv)) fun index => number (index + 1)
    rw [mapIdx_cons, filterMap_cons_some (b := number 0), hrest, length_cons,
      range_succ_eq_map, map_cons, map_map]
    · rfl
    · exact sequenceNumber_withSequenceNumber fields _

/-- Injected events are numbered one after the other. -/
theorem injected_numbers {events : List Value} (h : Objects events) {start : UInt64} {a : ℕ}
    (hstart : start.toNat = a % 2 ^ 64) :
    ((events.mapIdx fun index event => Outgoing.injected
      (withSequenceNumber event (start + 1 + UInt64.ofNat index))).filterMap
        (Outgoing.number crates)).map UInt64.toNat =
      (range' (a + 1) events.length).map (· % 2 ^ 64) := by
  rw [mapIdx_number h, map_map, range'_eq_map_range, map_map]
  refine map_congr_left fun index _ => ?_
  simp only [Function.comp_apply, UInt64.toNat_add, UInt64.toNat_ofNat', UInt64.toNat_one, hstart]
  omega

/-! ## One frame -/

/-- What an event on its way has of the frame that it came in. -/
structure Carries (r : NativeResponseSseRelay) (payload : Value) (e : RelayedEvent) : Prop where
  number : sequenceNumber e.payload = sequenceNumber payload
  offset : e.relay.sequenceOffset = r.sequenceOffset
  objects : Objects e.injected

theorem identify_carries (payload : Value) :
    r.Carries payload (RelayedEvent.identify r payload) := by
  simp only [RelayedEvent.identify]
  split
  · exact ⟨rfl, rfl, by simp [Objects]⟩
  · exact ⟨sequenceNumber_identity payload _ _, rfl, by simp [Objects]⟩

theorem mirror_carries {r : NativeResponseSseRelay} {payload : Value} (h : r.Carries payload e) :
    r.Carries payload e.mirror := by
  simp only [RelayedEvent.mirror]
  split_ifs
  · exact ⟨(sequenceNumber_mirrored _ _).trans h.number, h.offset, mirror_objects _ _⟩
  · exact h

/-- An event without a number is not mirrored. -/
theorem mirror_of_unnumbered (h : sequenceNumber e.payload = none) :
    e.mirror = e := by
  simp [RelayedEvent.mirror, h]

theorem identify_injected (payload : Value) :
    (RelayedEvent.identify r payload).injected = [] := by
  simp only [RelayedEvent.identify]
  split <;> rfl

theorem renumbered_unnumbered (e : RelayedEvent) (h : sequenceNumber e.payload = none)
    (eventType text : Text) (delimiter : Bytes) :
    (e.renumbered eventType none text delimiter).filterMap (Outgoing.number crates) = [] := by
  simp only [RelayedEvent.renumbered]
  split_ifs <;> simp [Outgoing.number, h]

theorem renumbered_numbers {n : UInt64} {offset : ℕ} (hnumber : sequenceNumber e.payload = some n)
    (hobjects : Objects e.injected) (hoffset : e.relay.sequenceOffset.toNat = offset % 2 ^ 64)
    (eventType text : Text) (delimiter : Bytes) :
    ((e.renumbered eventType (some n) text delimiter).filterMap (Outgoing.number crates)).map
        UInt64.toNat =
      numbers (2 ^ 64) offset
        [.shift n.toNat (!e.relay.suppressProviderReasoning eventType e.payload)
          e.injected.length] := by
  obtain ⟨fields, hfields⟩ := object_of_sequenceNumber hnumber
  have hown : (n + e.relay.sequenceOffset).toNat = (n.toNat + offset) % 2 ^ 64 := by
    rw [UInt64.toNat_add, hoffset, Nat.add_mod_mod]
  have hinjected := @injected_numbers crates _ hobjects _ _ hown
  simp only [RelayedEvent.renumbered, numbers, filterMap_append, map_append,
    hinjected, append_nil]
  cases e.relay.suppressProviderReasoning eventType e.payload with
  | true => simp
  | false =>
    rw [hfields]
    simp [Outgoing.number, sequenceNumber_withSequenceNumber, hown, range'_succ]

theorem relayPayload_renumbers (text : Text) (payload : Value) {frame : Bytes}
    (hframe : frameNumber crates frame = sequenceNumber payload) (delimiter : Bytes) :
    Renumbers crates (r.relayPayload text payload frame delimiter).1 r
      (r.relayPayload text payload frame delimiter).2 (r.payloadSteps payload) := by
  have hidentified := identify_carries r payload
  have hmirrored := mirror_carries hidentified
  simp only [relayPayload, payloadSteps]
  cases hn : sequenceNumber payload with
  | none =>
    have hnone := hidentified.number.trans hn
    rw [hnone, mirror_of_unnumbered hnone, identify_injected]
    split_ifs
    · exact ⟨fun offset _ => by simp [Outgoing.number, hframe, hn, numbers],
        fun offset h => by simpa [addedBy, hidentified.offset] using h⟩
    · refine ⟨fun offset _ => ?_, fun offset h => by simpa [addedBy, hidentified.offset] using h⟩
      rw [renumbered_unnumbered _ hnone]
      rfl
  | some n =>
    have hsome := hmirrored.number.trans hn
    rw [hidentified.number.trans hn]
    split_ifs
    · refine ⟨fun offset _ => ?_, fun offset h => by simpa [addedBy, hmirrored.offset] using h⟩
      simp [Outgoing.number, hframe, hn, numbers]
    · refine ⟨fun offset h => ?_, fun offset h => ?_⟩
      · exact renumbered_numbers hsome hmirrored.objects (hmirrored.offset ▸ h) _ _ _
      · simp only [addedBy, UInt64.toNat_add, UInt64.toNat_ofNat', hmirrored.offset, h]
        omega

theorem relayFrame_renumbers (r : NativeResponseSseRelay) (frame delimiter : Bytes) :
    Renumbers crates (r.relayFrame crates frame delimiter).1 r
      (r.relayFrame crates frame delimiter).2 (r.frameSteps crates frame) := by
  simp only [relayFrame, frameSteps]
  cases hutf8 : fromUtf8 frame with
  | none =>
    exact ⟨fun _ _ => by simp [Outgoing.number, frameNumber, hutf8, numbers],
      fun _ h => h⟩
  | some text =>
    simp only [Option.bind_some]
    cases hparse : crates.fromStr (frameData text).trim with
    | none =>
      exact ⟨fun _ _ => by simp [Outgoing.number, frameNumber, hutf8, hparse, numbers],
        fun _ h => h⟩
    | some payload =>
      have hframe : frameNumber crates frame = sequenceNumber payload := by
        simp [frameNumber, hutf8, hparse]
      exact relayPayload_renumbers r text payload hframe delimiter

/-- The relay with what an event does not depend on. -/
def observed (r : NativeResponseSseRelay) (buffer : Bytes)
    (inspector : NativeResponseSseInspector) (tally : ApplyPatchRepairTally) :
    NativeResponseSseRelay :=
  { r with buffer, inspector, applyPatchRepairs := tally }

section
variable (buffer : Bytes) (inspector : NativeResponseSseInspector) (tally : ApplyPatchRepairTally)

theorem identify_observed (payload : Value) :
    RelayedEvent.identify (r.observed buffer inspector tally) payload =
      { RelayedEvent.identify r payload with
        relay := (RelayedEvent.identify r payload).relay.observed buffer inspector tally } := by
  simp only [RelayedEvent.identify]
  rw [show (r.observed buffer inspector tally).providerResponseId = r.providerResponseId from rfl]
  split <;> rfl

theorem mirror_observed (e : RelayedEvent) :
    RelayedEvent.mirror { e with relay := e.relay.observed buffer inspector tally } =
      { e.mirror with relay := e.mirror.relay.observed buffer inspector tally } := by
  simp only [RelayedEvent.mirror]
  rw [show (e.relay.observed buffer inspector tally).presentReasoningSummary =
    e.relay.presentReasoningSummary from rfl]
  split <;> rfl

/-- Buffer, inspector and tally do not matter to a number. -/
theorem frameSteps_observed (frame : Bytes) :
    (r.observed buffer inspector tally).frameSteps crates frame = r.frameSteps crates frame := by
  simp only [frameSteps]
  split
  · rfl
  · simp only [payloadSteps, identify_observed, mirror_observed]
    rfl

end

section
variable (r : NativeResponseSseRelay)

theorem takeFrame_renumbers (p : Piece UInt8) :
    Renumbers crates (r.takeFrame crates p).1 r (r.takeFrame crates p).2
      (r.pieceSteps crates p) := by
  simp only [takeFrame, pieceSteps]
  by_cases hsize : maxInspectedSseFrameBytes < p.frame.length
  · rw [if_pos hsize, if_pos hsize]
    cases hn : frameNumber crates p.frame with
    | none =>
      exact ⟨fun _ _ => by simp [Outgoing.number, hn, numbers], fun _ h => h⟩
    | some n =>
      exact ⟨fun _ _ => by simp [Outgoing.number, hn, numbers], fun _ h => h⟩
  · rw [if_neg hsize, if_neg hsize]
    have hrelayed := @relayFrame_renumbers crates (r.observed r.buffer
      ((r.inspector.observeBytes crates (repairFrame crates p.frame).1).observeBytes crates
        p.delimiter)
      (r.applyPatchRepairs.merge (repairFrame crates p.frame).2))
      (repairFrame crates p.frame).1 p.delimiter
    rw [frameSteps_observed] at hrelayed
    exact ⟨hrelayed.numbers, hrelayed.offset⟩

theorem takeFrames_renumbers (pieces : List (Piece UInt8)) :
    Renumbers crates (r.takeFrames crates pieces).1 r (r.takeFrames crates pieces).2
      (r.piecesSteps crates pieces) := by
  induction pieces generalizing r with
  | nil => exact ⟨fun _ _ => rfl, fun _ h => h⟩
  | cons p pieces ih => exact (takeFrame_renumbers r p).append (ih _)

/-- A loss changes neither number nor offset. -/
theorem renumbers_lost (lost : Prop) [Decidable lost] :
    Renumbers crates [] r r (if lost then [.lost] else []) := by
  split_ifs
  · exact ⟨fun _ _ => rfl, fun _ h => h⟩
  · exact ⟨fun _ _ => rfl, fun _ h => h⟩

theorem checkBuffer_sequenceOffset :
    r.checkBuffer.sequenceOffset = r.sequenceOffset := by
  simp only [checkBuffer]
  split_ifs <;> rfl

theorem relayBytes_renumbers (chunk : Bytes) :
    Renumbers crates (r.relayBytes crates chunk).1 r (r.relayBytes crates chunk).2
      ({ r with buffer := (sseCutter.drain (r.buffer ++ chunk)).2 }.piecesSteps crates
          (sseCutter.drain (r.buffer ++ chunk)).1 ++
        if maxRelayedSseFrameBytes < (sseCutter.drain (r.buffer ++ chunk)).2.length then [.lost]
        else []) := by
  have htaken := @takeFrames_renumbers crates
    { r with buffer := (sseCutter.drain (r.buffer ++ chunk)).2 }
    (sseCutter.drain (r.buffer ++ chunk)).1
  have hlost := htaken.append (renumbers_lost _
    (maxRelayedSseFrameBytes < (sseCutter.drain (r.buffer ++ chunk)).2.length))
  rw [append_nil] at hlost
  refine ⟨hlost.numbers, fun offset h => ?_⟩
  rw [← hlost.offset offset h]
  exact congrArg UInt64.toNat (checkBuffer_sequenceOffset _)

theorem finish_renumbers :
    Renumbers crates (r.finish crates).1 r (r.finish crates).2 (r.runSteps crates []) := by
  simp only [finish, runSteps]
  split_ifs with hempty
  · exact ⟨fun _ _ => rfl, fun _ h => h⟩
  · have hrelayed := @relayFrame_renumbers crates (r.observed []
      ((r.inspector.observeBytes crates r.buffer).finish crates) r.applyPatchRepairs) r.buffer []
    rw [frameSteps_observed] at hrelayed
    exact ⟨hrelayed.numbers, hrelayed.offset⟩

/-- The numbers that a client finds in a whole stream are those behind the steps. -/
theorem relayChunks_renumbers (chunks : List Bytes) :
    Renumbers crates (r.relayChunks crates chunks).1 r (r.relayChunks crates chunks).2
      (r.runSteps crates chunks) := by
  induction chunks generalizing r with
  | nil => exact finish_renumbers r
  | cons chunk chunks ih => exact (relayBytes_renumbers r chunk).append (ih _)

end

/-! ## The numbers of the provider -/

/-- A repair leaves the number of a frame as it is. -/
theorem frameNumber_repaired (hcrates : ReadsBack crates) (frame : Bytes) :
    frameNumber crates (repairFrame crates frame).1 = frameNumber crates frame := by
  simp only [repairFrame]
  cases hutf8 : fromUtf8 frame with
  | none => rfl
  | some text =>
    simp only [Option.bind_some, normalizeApplyPatchSseFrame]
    by_cases hcall : text.contains "custom_tool_call" = true
    swap
    · simp [hcall]
    cases hparse : crates.fromStr (frameData text).trim with
    | none => simp [hcall]
    | some payload =>
      by_cases hclean : (normalizeApplyPatchEventPayload crates.fromStr payload).2.isEmpty = true
      · simp [hcall, hclean]
      obtain ⟨value, hvalue, hnumber⟩ := hcrates.printed _ _ hparse
      have hdata : frameData text ≠ [] := by
        intro hempty
        rw [hempty, show trim [] = [] from rfl, hcrates.empty] at hparse
        simp at hparse
      have hback : (frameData (rewriteSseDataLines.loop
          (normalizeApplyPatchEventPayload crates.fromStr payload).1.print false
          (splitInclusive text))).trim =
            (normalizeApplyPatchEventPayload crates.fromStr payload).1.print := by
        rw [frameData_printed hdata, (Value.trim_print _).2]
      have hreceived : frameNumber crates frame = sequenceNumber payload := by
        simp [frameNumber, hutf8, hparse]
      have hrepaired : frameNumber crates (rewriteSseDataLines text
          (normalizeApplyPatchEventPayload crates.fromStr payload).1.print) =
            sequenceNumber payload := by
        simp only [frameNumber, fromUtf8_rewriteSseDataLines, Option.bind_some, hback, hvalue,
          hnumber, sequenceNumber_normalized]
      simp [hcall, hclean, hreceived, hrepaired]

/-- The numbers that the provider gave to frames. -/
def received (crates : NativeCrates) (pieces : List (Piece UInt8)) : List ℕ :=
  (pieces.filterMap fun p => frameNumber crates p.frame).map UInt64.toNat

theorem received_append (pieces more : List (Piece UInt8)) :
    received crates (pieces ++ more) = received crates pieces ++ received crates more := by
  simp only [received, filterMap_append, map_append]

theorem frameSteps_inputs (frame : Bytes) :
    inputs (r.frameSteps crates frame) =
      ((frameNumber crates frame).toList).map UInt64.toNat := by
  simp only [frameSteps, frameNumber]
  cases fromUtf8 frame with
  | none => rfl
  | some text =>
    simp only [Option.bind_some]
    cases crates.fromStr (frameData text).trim with
    | none => rfl
    | some payload =>
      simp only [payloadSteps, (identify_carries r payload).number, Option.bind_some]
      cases sequenceNumber payload with
      | none => rfl
      | some n =>
        split_ifs <;> rfl

theorem frameSteps_kept (frame : Bytes) :
    .lost ∉ r.frameSteps crates frame := by
  simp only [frameSteps]
  split
  · simp
  · simp only [payloadSteps]
    split
    · simp
    · split_ifs <;> simp

section
variable (hcrates : ReadsBack crates) (r : NativeResponseSseRelay)
include hcrates

theorem pieceSteps_inputs (p : Piece UInt8) : inputs (r.pieceSteps crates p) =
      ((frameNumber crates p.frame).toList).map UInt64.toNat ∧ .lost ∉ r.pieceSteps crates p := by
  simp only [pieceSteps]
  split_ifs
  · cases frameNumber crates p.frame <;> simp [inputs]
  · rw [frameSteps_inputs, frameNumber_repaired hcrates]
    exact ⟨rfl, frameSteps_kept _ _⟩

theorem piecesSteps_inputs (pieces : List (Piece UInt8)) : inputs (r.piecesSteps crates pieces) =
      received crates pieces ∧ .lost ∉ r.piecesSteps crates pieces := by
  induction pieces generalizing r with
  | nil => simp [piecesSteps, inputs, received]
  | cons p pieces ih =>
    obtain ⟨hp, hkept⟩ := pieceSteps_inputs hcrates r p
    obtain ⟨hpieces, hkept'⟩ := ih (r.takeFrame crates p).2
    rw [piecesSteps, inputs_append_of_kept hkept, hp, hpieces]
    refine ⟨?_, by simp [hkept, hkept']⟩
    cases hn : frameNumber crates p.frame <;> simp [received, hn]

/-- Up to a loss the steps have the numbers of the frames of the stream. -/
theorem runSteps_inputs (hbuffer : sseCutter.cut r.buffer = none) (chunks : List Bytes) :
    inputs (r.runSteps crates chunks) <+:
      received crates (sseCutter.frames (r.buffer ++ chunks.flatten)) := by
  induction chunks generalizing r with
  | nil =>
    simp only [runSteps, flatten_nil, append_nil, Cutter.frames,
      Cutter.drain_of_none _ hbuffer, nil_append]
    split_ifs
    · exact prefix_rfl
    · rw [frameSteps_inputs]
      cases hn : frameNumber crates r.buffer <;> simp [received, hn]
  | cons chunk chunks ih =>
    obtain ⟨hpieces, hkept⟩ := piecesSteps_inputs hcrates
      { r with buffer := (sseCutter.drain (r.buffer ++ chunk)).2 }
      (sseCutter.drain (r.buffer ++ chunk)).1
    rw [runSteps, append_assoc, inputs_append_of_kept hkept, hpieces, flatten_cons,
      ← append_assoc r.buffer, Cutter.frames_append, received_append]
    refine (prefix_append_right_inj _).mpr ?_
    split_ifs with hlost
    · exact nil_prefix
    · have hrest : (r.relayBytes crates chunk).2.buffer =
          (sseCutter.drain (r.buffer ++ chunk)).2 := by
        rw [(relayBytes_inspector r chunk).2, keptRest, if_neg hlost]
      have hstep := ih (r.relayBytes crates chunk).2 (hrest ▸ sseCutter.cut_drain_rest _)
      rwa [hrest] at hstep

end

/-- The numbers that a client gets ascend exactly if every step is spaced. -/
theorem relay_numbers_ascend_iff (hcrates : ReadsBack crates) (localResponseId : Text)
    (mode : Option ReasoningSummaryMode) (chunks : List Bytes)
    (h : ((sseCutter.frames chunks.flatten).filterMap fun p =>
      frameNumber crates p.frame).Pairwise (· < ·)) :
    ((((new localResponseId).withReasoningSummary mode).relayChunks crates chunks).1.filterMap
      (Outgoing.number crates)).Pairwise (· < ·) ↔
        Spaced (2 ^ 64) 0 none
          (((new localResponseId).withReasoningSummary mode).runSteps crates chunks) := by
  have hnat : ∀ ns : List UInt64,
      ns.Pairwise (· < ·) ↔ (ns.map UInt64.toNat).Pairwise (· < ·) := by
    intro ns
    rw [pairwise_map]
    rfl
  have hfront := runSteps_inputs hcrates ((new localResponseId).withReasoningSummary mode)
    (by rfl) chunks
  have hinc : (inputs (((new localResponseId).withReasoningSummary mode).runSteps crates
      chunks)).Pairwise (· < ·) := by
    rw [hnat] at h
    exact h.sublist hfront.sublist
  have hlt : ∀ n ∈ inputs (((new localResponseId).withReasoningSummary mode).runSteps crates
      chunks), n < 2 ^ 64 := by
    intro n hn
    obtain ⟨m, _, rfl⟩ := mem_map.mp (hfront.subset hn)
    exact m.toNat_lt
  have hrun := (@relayChunks_renumbers crates ((new localResponseId).withReasoningSummary mode)
    chunks).numbers 0 rfl
  rw [hnat, hrun, ← ascends_none_iff]
  exact ascends_iff hlt hinc (by simp) (by simp)

/-! ## A text behind reasoning -/

def reasoningPayload (n : UInt64) : Value := .object [("delta", .string "a"),
  ("item_id", .string "r"), ("sequence_number", .number (.posInt n)),
  ("type", .string "response.reasoning_text.delta")]

def textPayload (n : UInt64) : Value := .object [("sequence_number", .number (.posInt n)),
  ("type", .string "response.output_text.delta")]

/-- A parser that knows three events. -/
def threeEventCrates : NativeCrates where
  fromStr text := [textPayload 1, reasoningPayload 2, textPayload 3].find? (·.print = text)
  sha256Hex _ := []

theorem threeEventCrates_readsBack : ReadsBack threeEventCrates where
  empty := by decide +kernel
  printed text payload h := by
    have hmem := mem_of_find?_eq_some h
    refine ⟨payload, ?_, ?_⟩
    · simp only [mem_cons, not_mem_nil, or_false] at hmem
      rcases hmem with rfl | rfl | rfl
      · rfl
      · rfl
      · rfl
    · rw [sequenceNumber_normalized]

def eventFrame (payload : Value) : Bytes :=
  bytes (("data: " : Text) ++ payload.print) ++ lfDelimiter

theorem textThenReasoning_ascends :
    ((((new "local").withReasoningSummary (some .smart)).relayChunks threeEventCrates
      [eventFrame (textPayload 1) ++ eventFrame (reasoningPayload 2)]).1.filterMap
        (Outgoing.number threeEventCrates)).Pairwise (· < ·) :=
  (relay_numbers_ascend_iff threeEventCrates_readsBack "local" (some .smart)
    [eventFrame (textPayload 1) ++ eventFrame (reasoningPayload 2)] (by decide +kernel)).mpr
      (by decide +kernel)

/-- The summary part that is announced behind a suppressed frame takes the number of the frame
behind it. -/
theorem reasoningThenText_collides :
    ReadsBack threeEventCrates ∧
      ((sseCutter.frames [eventFrame (reasoningPayload 2) ++
        eventFrame (textPayload 3)].flatten).filterMap fun p =>
          frameNumber threeEventCrates p.frame).Pairwise (· < ·) ∧
      ¬ ((((new "local").withReasoningSummary (some .smart)).relayChunks threeEventCrates
        [eventFrame (reasoningPayload 2) ++ eventFrame (textPayload 3)]).1.filterMap
          (Outgoing.number threeEventCrates)).Pairwise (· < ·) :=
  ⟨threeEventCrates_readsBack, by decide +kernel, by decide +kernel⟩

end NativeResponseSseRelay

end Native
end CodeSeeX
