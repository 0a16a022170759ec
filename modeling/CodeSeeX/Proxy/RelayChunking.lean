import CodeSeeX.Proxy.RelayFeed

/-!
# Chunks of a relayed stream

What the client gets does not depend on how a stream is cut into chunks. What the
inspection reports does, where a push ends inside the delimiter of a frame that fills the
inspector: the unfinished delimiter counts as part of the frame.
-/
namespace CodeSeeX.Native
open Framing List

variable {s : NativeResponseSseInspector}

namespace NativeResponseSseRelay

variable {crates : NativeCrates}

/-! ## The output -/

/-- The relay with another buffer and another inspector. -/
def withIntake (r : NativeResponseSseRelay) (buffer : Bytes)
    (inspector : NativeResponseSseInspector) : NativeResponseSseRelay :=
  { r with buffer, inspector }

theorem mirror_withIntake (e : RelayedEvent) (buffer : Bytes)
    (inspector : NativeResponseSseInspector) :
    ({ e with relay := e.relay.withIntake buffer inspector } : RelayedEvent).mirror =
      { e.mirror with relay := e.mirror.relay.withIntake buffer inspector } := by
  by_cases h : (e.relay.presentReasoningSummary && (sequenceNumber e.payload).isSome) = true
  · have h' : ((e.relay.withIntake buffer inspector).presentReasoningSummary &&
        (sequenceNumber e.payload).isSome) = true := h
    rw [RelayedEvent.mirror, RelayedEvent.mirror, if_pos h, if_pos h']
    rfl
  · have h' : ¬ ((e.relay.withIntake buffer inspector).presentReasoningSummary &&
        (sequenceNumber e.payload).isSome) = true := h
    rw [RelayedEvent.mirror, RelayedEvent.mirror, if_neg h, if_neg h']

section
variable (r : NativeResponseSseRelay)

theorem identify_withIntake (payload : Value) (buffer : Bytes)
    (inspector : NativeResponseSseInspector) :
    RelayedEvent.identify (r.withIntake buffer inspector) payload =
      { RelayedEvent.identify r payload with
        relay := (RelayedEvent.identify r payload).relay.withIntake buffer inspector } := by
  simp only [RelayedEvent.identify, withIntake]
  cases r.providerResponseId.or (responseIdFromEvent payload) <;> rfl

section
variable (buffer : Bytes) (inspector : NativeResponseSseInspector)

theorem relayPayload_withIntake (text : Text) (payload : Value)
    (frame delimiter : Bytes) :
    (r.withIntake buffer inspector).relayPayload text payload frame delimiter =
      ((r.relayPayload text payload frame delimiter).1,
        (r.relayPayload text payload frame delimiter).2.withIntake buffer inspector) := by
  simp only [relayPayload, identify_withIntake, mirror_withIntake]
  generalize (RelayedEvent.identify r payload).mirror = e
  have hpasses : ∀ eventType, ({ e with relay := e.relay.withIntake buffer inspector } :
      RelayedEvent).passes eventType = e.passes eventType := fun _ => rfl
  rw [hpasses]
  split <;> rfl

theorem relayFrame_withIntake (frame delimiter : Bytes) :
    (r.withIntake buffer inspector).relayFrame crates frame delimiter =
      ((r.relayFrame crates frame delimiter).1,
        (r.relayFrame crates frame delimiter).2.withIntake buffer inspector) := by
  simp only [relayFrame]
  cases fromUtf8 frame with
  | none => rfl
  | some text =>
    simp only
    cases crates.fromStr (frameData text).trim with
    | none => rfl
    | some payload => exact relayPayload_withIntake r buffer inspector text payload frame delimiter

/-- Neither the buffer nor the inspector plays a part in what goes out for a frame. -/
theorem takeFrame_withIntake (p : Piece UInt8) :
    ∃ inspector', (r.withIntake buffer inspector).takeFrame crates p =
      ((r.takeFrame crates p).1, (r.takeFrame crates p).2.withIntake buffer inspector') := by
  simp only [takeFrame]
  split_ifs
  · exact ⟨_, rfl⟩
  · refine ⟨((inspector.observeBytes crates (repairFrame crates p.frame).1).observeBytes crates
      p.delimiter), ?_⟩
    generalize repairFrame crates p.frame = repaired
    obtain ⟨frame, tally⟩ := repaired
    have hframe := @relayFrame_withIntake crates
      { r with
        applyPatchRepairs := r.applyPatchRepairs.merge tally
        inspector := (r.inspector.observeBytes crates frame).observeBytes crates p.delimiter }
      buffer ((inspector.observeBytes crates frame).observeBytes crates p.delimiter) frame
      p.delimiter
    exact hframe

theorem takeFrames_withIntake (pieces : List (Piece UInt8)) :
    ∃ inspector', (r.withIntake buffer inspector).takeFrames crates pieces =
      ((r.takeFrames crates pieces).1,
        (r.takeFrames crates pieces).2.withIntake buffer inspector') := by
  induction pieces generalizing r inspector with
  | nil => exact ⟨inspector, rfl⟩
  | cons p pieces ih =>
    obtain ⟨inspector', hframe⟩ := @takeFrame_withIntake crates r buffer inspector p
    obtain ⟨inspector'', hframes⟩ := ih (r.takeFrame crates p).2 inspector'
    refine ⟨inspector'', ?_⟩
    simp only [takeFrames, hframe, hframes]

end

theorem takeFrames_append (pieces more : List (Piece UInt8)) :
    r.takeFrames crates (pieces ++ more) =
      ((r.takeFrames crates pieces).1 ++ ((r.takeFrames crates pieces).2.takeFrames crates more).1,
        ((r.takeFrames crates pieces).2.takeFrames crates more).2) := by
  induction pieces generalizing r with
  | nil => rfl
  | cons p pieces ih =>
    simp only [cons_append, takeFrames, ih, append_assoc]

end

/-- What goes out for pieces and the bytes left behind them. -/
def outputFor (crates : NativeCrates) (r : NativeResponseSseRelay)
    (drained : List (Piece UInt8) × Bytes) : List Outgoing :=
  (r.takeFrames crates drained.1).1 ++
    if drained.2 = [] then []
    else ((r.takeFrames crates drained.1).2.relayFrame crates drained.2 []).1

theorem outputFor_withIntake (r : NativeResponseSseRelay) (buffer : Bytes)
    (inspector : NativeResponseSseInspector) (drained : List (Piece UInt8) × Bytes) :
    (r.withIntake buffer inspector).outputFor crates drained = r.outputFor crates drained := by
  obtain ⟨inspector', h⟩ :=
    @takeFrames_withIntake crates r buffer inspector drained.1
  simp only [outputFor, h, relayFrame_withIntake]

/-- The pieces of a stream are within the size up to which the relay buffers. -/
def WithinCap (xs : Bytes) : Prop :=
  ∀ p ∈ sseCutter.frames xs, p.whole.length ≤ maxRelayedSseFrameBytes

theorem WithinCap.rest {xs ys : Bytes} (h : WithinCap (xs ++ ys)) :
    WithinCap ((sseCutter.drain xs).2 ++ ys) := by
  intro p hp
  apply h p
  rw [sseCutter.frames_append]
  exact mem_append_right _ hp

/-- The output is that of the frames of the whole stream. -/
theorem relayChunks_output (r : NativeResponseSseRelay) (chunks : List Bytes)
    (hcut : sseCutter.cut r.buffer = none) (hcap : WithinCap (r.buffer ++ chunks.flatten)) :
    (r.relayChunks crates chunks).1 =
      r.outputFor crates (sseCutter.drain (r.buffer ++ chunks.flatten)) := by
  induction chunks generalizing r with
  | nil =>
    rw [flatten_nil, append_nil, sseCutter.drain_of_none hcut]
    simp only [relayChunks, finish, outputFor, takeFrames, nil_append]
    split_ifs
    · rfl
    · have h := @relayFrame_withIntake crates r []
        ((r.inspector.observeBytes crates r.buffer).finish crates) r.buffer []
      have hout := congrArg Prod.fst h
      exact hout
  | cons chunk chunks ih =>
    rw [flatten_cons, ← append_assoc] at hcap ⊢
    rw [sseCutter.drain_append]
    generalize hdrain : sseCutter.drain (r.buffer ++ chunk) = drained
    obtain ⟨pieces, rest⟩ := drained
    have hrest : sseCutter.cut rest = none := by
      simpa [hdrain] using sseCutter.cut_drain_rest (r.buffer ++ chunk)
    have hcapRest : WithinCap (rest ++ chunks.flatten) := by
      simpa [hdrain] using hcap.rest
    have hle := sseCutter.rest_length_le hrest hcapRest
    obtain ⟨inspector, htake⟩ :=
      @takeFrames_withIntake crates r rest r.inspector pieces
    have hkept : ∃ inspector', (r.relayBytes crates chunk) =
        ((r.takeFrames crates pieces).1,
          (r.takeFrames crates pieces).2.withIntake rest inspector') := by
      have hrelay : r.relayBytes crates chunk = (((r.withIntake rest r.inspector).takeFrames crates
          pieces).1, ((r.withIntake rest r.inspector).takeFrames crates pieces).2.checkBuffer) := by
        simp only [relayBytes, hdrain]
        rfl
      rw [hrelay, htake]
      have hcap' : ¬ maxRelayedSseFrameBytes < rest.length := by omega
      simp only [checkBuffer, withIntake, hcap', if_false]
      split_ifs
      · exact ⟨_, rfl⟩
      · exact ⟨_, rfl⟩
    obtain ⟨inspector', hbytes⟩ := hkept
    simp only [relayChunks, hbytes]
    rw [ih _ hrest hcapRest, outputFor_withIntake]
    simp only [outputFor, takeFrames_append, withIntake, append_assoc]
    rfl

end NativeResponseSseRelay

/-! ## The inspection -/

namespace NativeResponseSseInspector

variable {crates : NativeCrates}

/-- A frame that the account shows: one with an event, or the first end marker. -/
def Tells (crates : NativeCrates) (done : Bool) (frame : Bytes) : Prop :=
  (eventOf crates frame).isSome ∨ isDone frame = true ∧ done = false

/-- How much an account has been told. -/
def told (i : NativeResponseStreamInspection) : ℕ :=
  i.eventCount + if i.sawDoneSentinel then 1 else 0

theorem told_markUninspectableFrame (i : NativeResponseStreamInspection) :
    told i.markUninspectableFrame = told i := rfl

theorem inspectFrame_not_tells {frame : Bytes}
    (h : ¬ Tells crates s.inspection.sawDoneSentinel frame) :
    (s.inspectFrame crates frame).inspection.markUninspectableFrame =
        s.inspection.markUninspectableFrame ∧
      (s.inspectFrame crates frame).inspection.sawDoneSentinel = s.inspection.sawDoneSentinel := by
  rw [Tells, not_or, Option.not_isSome_iff_eq_none] at h
  by_cases hdone : isDone frame = true
  · have hsaw : s.inspection.sawDoneSentinel = true := by
      have hboth := h.2
      simpa [hdone] using hboth
    rw [inspectFrame_done hdone]
    simp only [NativeResponseStreamInspection.markUninspectableFrame, hsaw, and_self]
  · obtain ⟨oversized, incomplete, hframe⟩ :=
      @inspectFrame_quiet crates s _ h.1 (by simpa using hdone)
    rw [hframe]
    exact ⟨rfl, rfl⟩

theorem told_inspectFrame (s : NativeResponseSseInspector) (frame : Bytes) :
    told s.inspection ≤ told (s.inspectFrame crates frame).inspection ∧
      (Tells crates s.inspection.sawDoneSentinel frame →
        told s.inspection < told (s.inspectFrame crates frame).inspection) := by
  cases hevent : eventOf crates frame with
  | some event =>
    obtain ⟨text, payload⟩ := event
    have hnoted := @inspectPayload_accounted crates s text payload
    rw [inspectFrame_event hevent]
    simp only [told, hnoted.eventCount, hnoted.sawDoneSentinel]
    omega
  | none =>
    by_cases hdone : isDone frame = true
    · rw [inspectFrame_done hdone]
      cases hsaw : s.inspection.sawDoneSentinel <;> simp [told, hsaw, Tells, hevent]
    · obtain ⟨oversized, incomplete, hframe⟩ :=
        @inspectFrame_quiet crates s _ hevent (by simpa using hdone)
      rw [hframe]
      exact ⟨le_refl _, fun h => absurd h (by simp [Tells, hevent, hdone])⟩

theorem told_inspectFrames (s : NativeResponseSseInspector) (frames : List Bytes) :
    told s.inspection ≤ told (s.inspectFrames crates frames).inspection := by
  induction frames generalizing s with
  | nil => exact le_refl _
  | cons frame frames ih => exact (told_inspectFrame s frame).1.trans (ih _)

/-- Frames change an account exactly if one of them tells something. -/
theorem mark_inspectFrames_iff (s : NativeResponseSseInspector) (frames : List Bytes) :
    (s.inspectFrames crates frames).inspection.markUninspectableFrame =
        s.inspection.markUninspectableFrame ↔
      ∀ frame ∈ frames, ¬ Tells crates s.inspection.sawDoneSentinel frame := by
  induction frames generalizing s with
  | nil => simp [inspectFrames]
  | cons frame frames ih =>
    rw [forall_mem_cons]
    by_cases htells : Tells crates s.inspection.sawDoneSentinel frame
    · refine ⟨fun heq => ?_, fun h => absurd htells h.1⟩
      have hlt := (@told_inspectFrame crates s frame).2 htells
      have hle := @told_inspectFrames crates (s.inspectFrame crates frame) frames
      have htold := congrArg told heq
      simp only [told_markUninspectableFrame, inspectFrames, foldl_cons] at htold hle
      omega
    · obtain ⟨hmark, hsaw⟩ := inspectFrame_not_tells htells
      have hrest := ih (s.inspectFrame crates frame)
      rw [hmark, hsaw] at hrest
      simp only [htells, not_false_eq_true, true_and]
      exact hrest

theorem inspectFrames_oversized {frames : List Bytes}
    (h : ∀ frame ∈ frames, frame.length ≤ maxInspectedSseFrameBytes) :
    (s.inspectFrames crates frames).inspection.oversizedFrameIgnored =
      s.inspection.oversizedFrameIgnored := by
  induction frames generalizing s with
  | nil => rfl
  | cons frame frames ih =>
    rw [forall_mem_cons] at h
    exact (ih h.2).trans (inspectFrame_oversized s h.1)

/-- Whether an account has met the end marker. -/
theorem inspectFrames_sawDone (s : NativeResponseSseInspector) (frames : List Bytes) :
    (s.inspectFrames crates frames).inspection.sawDoneSentinel =
      (s.inspection.sawDoneSentinel || frames.any isDone) := by
  induction frames generalizing s with
  | nil => simp [inspectFrames]
  | cons frame frames ih =>
    have hframe : (s.inspectFrame crates frame).inspection.sawDoneSentinel =
        (s.inspection.sawDoneSentinel || isDone frame) := by
      by_cases hdone : isDone frame = true
      · simp [inspectFrame_done hdone, hdone]
      · have hno : isDone frame = false := by simpa using hdone
        rw [hno, Bool.or_false]
        cases hevent : eventOf crates frame with
        | some event =>
          rw [inspectFrame_event hevent]
          exact (inspectPayload_accounted s _ _).sawDoneSentinel
        | none =>
          obtain ⟨oversized, incomplete, heq⟩ :=
            @inspectFrame_quiet crates s _ hevent hno
          rw [heq]
    rw [any_cons, ← Bool.or_assoc, ← hframe]
    exact ih _

/-- The rest of a stream leaves the account as it is but closes it. -/
def OnlyCloses (crates : NativeCrates) (seen : List Bytes) (reading : List Bytes × Bool) : Prop :=
  reading.2 = true ∧ ∀ frame ∈ reading.1, ¬ Tells crates (seen.any isDone) frame

theorem account_closed_iff {seen : List Bytes} {reading : List Bytes × Bool}
    (hseen : ∀ frame ∈ seen, frame.length ≤ maxInspectedSseFrameBytes)
    (hmore : ∀ frame ∈ reading.1, frame.length ≤ maxInspectedSseFrameBytes) :
    account crates {} (seen, true) = account crates {} (seen ++ reading.1, reading.2) ↔
      OnlyCloses crates seen reading := by
  obtain ⟨more, closed⟩ := reading
  have hsaw : (inspectFrames crates {} seen).inspection.sawDoneSentinel = seen.any isDone := by
    rw [inspectFrames_sawDone]
    rfl
  have hiff := @mark_inspectFrames_iff crates (inspectFrames crates {} seen) more
  rw [hsaw] at hiff
  have happend : inspectFrames crates {} (seen ++ more) =
      (inspectFrames crates {} seen).inspectFrames crates more := by
    simp only [inspectFrames, foldl_append]
  rw [OnlyCloses, ← hiff]
  cases closed with
  | true =>
    simp only [account, if_true, true_and, happend]
    exact eq_comm
  | false =>
    simp only [account, if_true, Bool.false_eq_true, if_false, false_and, iff_false]
    intro heq
    have hflag := congrArg NativeResponseStreamInspection.oversizedFrameIgnored heq
    rw [happend, inspectFrames_oversized hmore, inspectFrames_oversized hseen] at hflag
    cases hflag

end NativeResponseSseInspector

namespace NativeResponseSseRelay
open NativeResponseSseInspector

variable {crates : NativeCrates}

/-- The bytes left by a push are too many for the inspector although the frame that they belong
to is not: only its delimiter is cut. -/
def Premature (rest following : Bytes) : Prop :=
  maxInspectedSseFrameBytes < rest.length ∧ ∃ p behind,
    sseCutter.cut (rest ++ following) = some (p, behind) ∧
      p.frame.length ≤ maxInspectedSseFrameBytes

/-- At every push that ends inside the delimiter of a frame that fills the inspector, either the
inspector has stopped reading before, or the stream from this frame on tells it nothing until
it is stopped. `seen` and `s` are what the inspector has read and its reader. -/
def Undisturbed (crates : NativeCrates) (buffer : Bytes) (seen : List Bytes) (s : Reader UInt8) :
    List Bytes → Prop
  | [] => True
  | chunk :: chunks =>
      let drained := sseCutter.drain (buffer ++ chunk)
      let read := s.feedAll sseCutter maxInspectedSseFrameBytes
        (drained.1.flatMap (feedPiece crates))
      (Premature drained.2 chunks.flatten → read.2.closed = true ∨
        OnlyCloses crates (seen ++ read.1) (read.2.run sseCutter maxInspectedSseFrameBytes
          (relayFeed crates drained.2 [chunks.flatten]))) ∧
      Undisturbed crates drained.2 (seen ++ read.1)
        (read.2.feedAll sseCutter maxInspectedSseFrameBytes (feedRest drained.2)).2 chunks

theorem undisturbed_of_closed {s : Reader UInt8} (h : s.closed = true) (buffer : Bytes)
    (seen : List Bytes) (chunks : List Bytes) : Undisturbed crates buffer seen s chunks := by
  induction chunks generalizing buffer seen s with
  | nil => trivial
  | cons chunk chunks ih =>
    simp only [Undisturbed, Reader.feedAll_of_closed h]
    exact ⟨fun _ => Or.inl h, ih h _ _⟩

theorem relayFeed_append (buffer chunk following : Bytes) :
    relayFeed crates buffer [chunk ++ following] =
      (sseCutter.drain (buffer ++ chunk)).1.flatMap (feedPiece crates) ++
        relayFeed crates (sseCutter.drain (buffer ++ chunk)).2 [following] := by
  simp only [relayFeed]
  rw [← append_assoc, sseCutter.drain_append]
  simp only [flatMap_append, append_assoc]

/-- A push that leaves too much is premature, or the inspector is to stop there anyway. -/
theorem run_of_not_premature {rest following : Bytes} (s : Reader UInt8)
    (hsize : maxInspectedSseFrameBytes < rest.length) (h : ¬ Premature rest following) :
    s.run sseCutter maxInspectedSseFrameBytes (relayFeed crates rest [following]) = ([], true) := by
  cases hcut : sseCutter.cut (rest ++ following) with
  | none =>
    have hlong : maxInspectedSseFrameBytes < (rest ++ following).length := by
      simp only [length_append]
      omega
    simp only [relayFeed, sseCutter.drain_of_none hcut, flatMap_nil, nil_append,
      feedRest, if_pos hlong, cons_append]
    exact Reader.run_close s _
  | some next =>
    obtain ⟨p, behind⟩ := next
    have hlarge : maxInspectedSseFrameBytes < p.frame.length := by
      by_contra hle
      exact h ⟨hsize, p, behind, hcut, not_lt.mp hle⟩
    simp only [relayFeed, sseCutter.drain_of_some hcut, flatMap_cons, feedPiece,
      if_pos hlarge, cons_append]
    exact Reader.run_close s _

theorem account_chunks_iff {buffer : Bytes} {seen : List Bytes} {s : Reader UInt8}
    (chunks : List Bytes) (hcut : sseCutter.cut buffer = none)
    (hcap : WithinCap (buffer ++ chunks.flatten))
    (hseen : ∀ frame ∈ seen, frame.length ≤ maxInspectedSseFrameBytes)
    (hs : s.buffer.length ≤ maxInspectedSseFrameBytes)
    (hbuffer : maxInspectedSseFrameBytes < buffer.length → s.closed = true) :
    account crates {} (seen ++ (s.run sseCutter maxInspectedSseFrameBytes
          (relayFeed crates buffer chunks)).1,
        (s.run sseCutter maxInspectedSseFrameBytes (relayFeed crates buffer chunks)).2) =
      account crates {} (seen ++ (s.run sseCutter maxInspectedSseFrameBytes
          (relayFeed crates buffer [chunks.flatten])).1,
        (s.run sseCutter maxInspectedSseFrameBytes
          (relayFeed crates buffer [chunks.flatten])).2) ↔
      Undisturbed crates buffer seen s chunks := by
  induction chunks generalizing buffer seen s with
  | nil =>
    have hsame : s.run sseCutter maxInspectedSseFrameBytes (relayFeed crates buffer []) =
        s.run sseCutter maxInspectedSseFrameBytes (relayFeed crates buffer [[]]) := by
      by_cases hsize : maxInspectedSseFrameBytes < buffer.length
      · rw [Reader.run_of_closed (hbuffer hsize), Reader.run_of_closed (hbuffer hsize)]
      · have hkept : keptRest buffer = buffer := by
          have : maxInspectedSseFrameBytes < maxRelayedSseFrameBytes := by decide
          rw [keptRest, if_neg (by omega)]
        simp only [relayFeed, append_nil, sseCutter.drain_of_none hcut, flatMap_nil,
          feedRest, if_neg hsize, hkept, nil_append]
    simp only [flatten_nil, Undisturbed, hsame]
  | cons chunk chunks ih =>
    rw [flatten_cons] at hcap ⊢
    rw [← append_assoc] at hcap
    have hrest := sseCutter.cut_drain_rest (buffer ++ chunk)
    have hcapRest := hcap.rest
    have hle := sseCutter.rest_length_le hrest hcapRest
    have hchunk : relayFeed crates buffer (chunk :: chunks) =
        (sseCutter.drain (buffer ++ chunk)).1.flatMap (feedPiece crates) ++
          (feedRest (sseCutter.drain (buffer ++ chunk)).2 ++
            relayFeed crates (sseCutter.drain (buffer ++ chunk)).2 chunks) := by
      have hkept : keptRest (sseCutter.drain (buffer ++ chunk)).2 =
          (sseCutter.drain (buffer ++ chunk)).2 := by rw [keptRest, if_neg (by omega)]
      simp only [relayFeed, hkept, append_assoc]
    have hleft := @Reader.run_append _ sseCutter maxInspectedSseFrameBytes s
      ((sseCutter.drain (buffer ++ chunk)).1.flatMap (feedPiece crates))
      (feedRest (sseCutter.drain (buffer ++ chunk)).2 ++
        relayFeed crates (sseCutter.drain (buffer ++ chunk)).2 chunks)
    have hright := @Reader.run_append _ sseCutter maxInspectedSseFrameBytes s
      ((sseCutter.drain (buffer ++ chunk)).1.flatMap (feedPiece crates))
      (relayFeed crates (sseCutter.drain (buffer ++ chunk)).2 [chunks.flatten])
    rw [hchunk, relayFeed_append, hleft, hright]
    simp only [Undisturbed, ← append_assoc]
    generalize (sseCutter.drain (buffer ++ chunk)).2 = rest at *
    have hfits := Reader.feedAll_fits hs
      ((sseCutter.drain (buffer ++ chunk)).1.flatMap (feedPiece crates)) (C := sseCutter)
    generalize s.feedAll sseCutter maxInspectedSseFrameBytes
      ((sseCutter.drain (buffer ++ chunk)).1.flatMap (feedPiece crates)) = read at hfits ⊢
    obtain ⟨frames, s'⟩ := read
    have hseen' : ∀ frame ∈ seen ++ frames, frame.length ≤ maxInspectedSseFrameBytes := by
      intro frame hframe
      rcases mem_append.mp hframe with hframe | hframe
      · exact hseen frame hframe
      · exact hfits.1 frame hframe
    by_cases hsize : maxInspectedSseFrameBytes < rest.length
    · -- the push has closed the inspector
      have hfeed : feedRest rest = [.close] := by rw [feedRest, if_pos hsize]
      have hlater : Undisturbed crates rest (seen ++ frames)
          (s'.feedAll sseCutter maxInspectedSseFrameBytes [.close]).2 chunks :=
        undisturbed_of_closed rfl _ _ _
      simp only [hfeed, hlater, and_true, singleton_append, Reader.run_close, append_nil]
      by_cases hclosed : s'.closed = true
      · simp [Reader.run_of_closed hclosed, hclosed]
      by_cases hpremature : Premature rest chunks.flatten
      · simp only [hpremature, hclosed, true_implies, Bool.false_eq_true, false_or]
        exact account_closed_iff hseen' (Reader.run_fits hfits.2 _)
      · simp [run_of_not_premature s' hsize hpremature, hpremature]
    · have hfeed : feedRest rest = [] := by rw [feedRest, if_neg hsize]
      have hno : ¬ Premature rest chunks.flatten := fun h => hsize h.1
      simp only [hfeed, nil_append, Reader.feedAll, hno, false_implies, true_and]
      exact ih hrest hcapRest hseen' hfits.2 (fun h => absurd h hsize)

/-- What a fresh relay makes of a stream: the bytes for the client, and the inspection. -/
def streamResult (crates : NativeCrates) (localResponseId : Text)
    (mode : Option ReasoningSummaryMode) (chunks : List Bytes) :
    Bytes × NativeResponseStreamInspection :=
  let run := ((new localResponseId).withReasoningSummary mode).relayChunks crates chunks
  (run.1.flatMap Outgoing.render, run.2.inspector.inspection)

theorem streamResult_iff (localResponseId : Text) (mode : Option ReasoningSummaryMode)
    (chunks : List Bytes) (hcap : WithinCap chunks.flatten) :
    streamResult crates localResponseId mode chunks =
        streamResult crates localResponseId mode [chunks.flatten] ↔
      Undisturbed crates [] [] {} chunks := by
  have hnone : sseCutter.cut [] = none := by decide +kernel
  have hwhole : [chunks.flatten].flatten = chunks.flatten := by simp
  have hout := @relayChunks_output crates
    ((new localResponseId).withReasoningSummary mode) chunks hnone hcap
  have houtWhole := @relayChunks_output crates
    ((new localResponseId).withReasoningSummary mode) [chunks.flatten] hnone
    (by show WithinCap [chunks.flatten].flatten; rw [hwhole]; exact hcap)
  rw [hwhole] at houtWhole
  have hiff := @account_chunks_iff crates [] [] {} chunks hnone hcap
    (by simp) (Nat.zero_le _) (fun h => absurd h (Nat.not_lt_zero _))
  rw [← hiff]
  simp only [streamResult, hout, houtWhole, relayChunks_inspection, Prod.mk.injEq, true_and,
    nil_append]
  exact Iff.rfl

/-- Output and inspection of a stream do not depend on its chunks exactly if no push disturbs the
inspector. -/
theorem relay_chunking_iff (crates : NativeCrates) (localResponseId : Text)
    (mode : Option ReasoningSummaryMode) (chunks : List Bytes)
    (hcap : ∀ p ∈ sseCutter.frames chunks.flatten, p.whole.length ≤ maxRelayedSseFrameBytes) :
    streamResult crates localResponseId mode chunks =
        streamResult crates localResponseId mode [chunks.flatten] ↔
      Undisturbed crates [] [] {} chunks :=
  streamResult_iff localResponseId mode chunks hcap

/-- A parser that knows no value. -/
def noCrates : NativeCrates where
  fromStr _ := none
  sha256Hex _ := []

theorem comment_chunking : streamResult noCrates "local" (some .smart) [[58, 104, 10], [10]] =
    streamResult noCrates "local" (some .smart) [[[58, 104, 10], [10]].flatten] :=
  (relay_chunking_iff noCrates "local" (some .smart) [[58, 104, 10], [10]]
    (by decide +kernel)).mpr
      ⟨fun h => absurd h.1 (by decide +kernel), fun h => absurd h.1 (by decide +kernel), trivial⟩

theorem repairFrame_noCrates (frame : Bytes) : repairFrame noCrates frame = (frame, {}) := by
  have hnone : ∀ text, normalizeApplyPatchSseFrame noCrates.fromStr text = none := by
    intro text
    simp only [normalizeApplyPatchSseFrame, noCrates]
    split_ifs <;> rfl
  rw [repairFrame]
  cases fromUtf8 frame with
  | none => rfl
  | some text => simp [hnone]

/-- A line that fills the inspector, cut inside its delimiter. -/
theorem cutLine_differs {line : Bytes} (hline : Plain line)
    (hlength : line.length = maxInspectedSseFrameBytes) :
    WithinCap [line ++ [10], [10]].flatten ∧
      streamResult noCrates "local" none [line ++ [10], [10]] ≠
        streamResult noCrates "local" none [[line ++ [10], [10]].flatten] := by
  have hflat : [line ++ [10], [10]].flatten = line ++ (lfDelimiter ++ []) := by
    simp [lfDelimiter]
  have hwhole : sseCutter.drain (line ++ (lfDelimiter ++ [])) = ([⟨line, lfDelimiter⟩], []) := by
    rw [sseCutter.drain_of_some (hline.cut_piece []), sseCutter.drain_of_none (by decide +kernel)]
  have hcap : WithinCap [line ++ [10], [10]].flatten := by
    rw [hflat]
    intro p hp
    rw [Cutter.frames, hwhole] at hp
    have hp' : p = ⟨line, lfDelimiter⟩ := by simpa using hp
    rw [hp', Piece.whole, length_append, hlength]
    show maxInspectedSseFrameBytes + 2 ≤ maxRelayedSseFrameBytes
    decide
  refine ⟨hcap, fun heq => ?_⟩
  have hpush := ((streamResult_iff "local" none _ hcap).mp heq).1
  have hopen : sseCutter.drain ([] ++ (line ++ [10])) = ([], line ++ [10]) := by
    exact sseCutter.drain_of_none hline.cut_lf
  have hrest : line ++ [10] ++ [[10]].flatten = line ++ (lfDelimiter ++ []) := by
    simp [lfDelimiter]
  simp only [hopen] at hpush
  have hpremature : Premature (line ++ [10]) [[10]].flatten := by
    refine ⟨by simp [hlength], ⟨line, lfDelimiter⟩, [], ?_, hlength.le⟩
    rw [hrest]
    exact hline.cut_piece []
  -- read at once, the comment fits, and the reader stays open
  rcases hpush hpremature with hclosed | honly
  · simp [Reader.feedAll] at hclosed
  · have hopenEnd := honly.1
    have hfits : ¬ maxInspectedSseFrameBytes < line.length := by omega
    have hfeed : relayFeed noCrates (line ++ [10]) [[[10]].flatten] =
        [.input line, .input lfDelimiter] := by
      simp only [relayFeed, hrest, hwhole, flatMap_cons, flatMap_nil, feedPiece,
        if_neg hfits, repairFrame_noCrates]
      simp [feedRest, keptRest]
    have hline' : sseCutter.drain line = ([], line) := sseCutter.drain_of_none hline.cut
    have hpiece : sseCutter.drain (line ++ lfDelimiter) = ([⟨line, lfDelimiter⟩], []) := by
      simpa using hwhole
    rw [hfeed] at hopenEnd
    simp [Reader.run, Reader.feed, Reader.feedAll, Reader.readPieces, hline', hpiece, hfits]
      at hopenEnd

/-- A comment line of the size of the limit, cut inside its delimiter. -/
def cutComment : List Bytes :=
  [replicate maxInspectedSseFrameBytes 58 ++ [10], [10]]

theorem cutComment_differs : WithinCap cutComment.flatten ∧
    streamResult noCrates "local" none cutComment ≠
      streamResult noCrates "local" none [cutComment.flatten] := by
  refine cutLine_differs (fun b hb => ?_) length_replicate
  rw [eq_of_mem_replicate hb]
  decide

end NativeResponseSseRelay
end CodeSeeX.Native
