import CodeSeeX.Proxy.RelayFeed

/-!
# The outcome of a relayed stream

The outcome is decided by the frames that the inspector reads. These end at the first
frame that it cannot hold: a terminal frame behind it is forwarded to the client but
does not count.
-/
namespace CodeSeeX.Native
open Framing Option List

namespace NativeResponseSseInspector

variable (crates : NativeCrates)

/-- The terminal states, usages and response id hashes that frames report, in order. -/
def terminals (frames : List Bytes) : List NativeResponseTerminal :=
  frames.filterMap fun frame => (eventOf crates frame).bind fun event =>
    terminalOf (eventKindOf event.1 event.2)

def usages (frames : List Bytes) : List Value :=
  frames.filterMap fun frame => (eventOf crates frame).bind fun event => usageOf event.2

def responseIdHashes (frames : List Bytes) : List Text :=
  frames.filterMap fun frame => (eventOf crates frame).bind fun event =>
    (responseIdFromEvent event.2).map crates.sha256Hex

variable {crates}

theorem getLast?_filterMap_cons {α β : Type} (f : α → Option β) (a : α) (as : List α) (b : Option β) :
    ((a :: as).filterMap f).getLast?.or b = (as.filterMap f).getLast?.or ((f a).or b) := by
  cases hfa : f a with
  | none => simp [hfa]
  | some b' =>
    simp only [filterMap_cons, hfa, some_or]
    cases hlast : (as.filterMap f).getLast? with
    | none => simp [getLast?_eq_none_iff.mp hlast]
    | some c => simp [getLast?_cons, hlast]

theorem inspectFrame_reports (s : NativeResponseSseInspector) (frame : Bytes) :
    (s.inspectFrame crates frame).inspection.terminal =
        ((eventOf crates frame).bind fun event =>
          terminalOf (eventKindOf event.1 event.2)).or s.inspection.terminal ∧
      (s.inspectFrame crates frame).inspection.finalUsage =
        ((eventOf crates frame).bind fun event => usageOf event.2).or s.inspection.finalUsage ∧
      (s.inspectFrame crates frame).inspection.providerResponseIdHash =
        ((eventOf crates frame).bind fun event =>
          (responseIdFromEvent event.2).map crates.sha256Hex).or
            s.inspection.providerResponseIdHash := by
  cases hevent : eventOf crates frame with
  | some event =>
    obtain ⟨text, payload⟩ := event
    have hnoted := @inspectPayload_accounted crates s text payload
    rw [inspectFrame_event hevent]
    exact ⟨hnoted.terminal, hnoted.finalUsage, hnoted.providerResponseIdHash⟩
  | none =>
    by_cases hdone : isDone frame = true
    · rw [inspectFrame_done hdone]
      exact ⟨rfl, rfl, rfl⟩
    · obtain ⟨oversized, incomplete, hframe⟩ :=
        @inspectFrame_quiet crates s _ hevent (by simpa using hdone)
      rw [hframe]
      exact ⟨rfl, rfl, rfl⟩

/-- An account keeps the last report of each kind. -/
theorem inspectFrames_reports (s : NativeResponseSseInspector) (frames : List Bytes) :
    (s.inspectFrames crates frames).inspection.terminal =
        (terminals crates frames).getLast?.or s.inspection.terminal ∧
      (s.inspectFrames crates frames).inspection.finalUsage =
        (usages crates frames).getLast?.or s.inspection.finalUsage ∧
      (s.inspectFrames crates frames).inspection.providerResponseIdHash =
        (responseIdHashes crates frames).getLast?.or s.inspection.providerResponseIdHash := by
  induction frames generalizing s with
  | nil => exact ⟨rfl, rfl, rfl⟩
  | cons frame frames ih =>
    obtain ⟨hterminal, husage, hid⟩ := ih (s.inspectFrame crates frame)
    obtain ⟨hterminal', husage', hid'⟩ := @inspectFrame_reports crates s frame
    rw [hterminal'] at hterminal
    rw [husage'] at husage
    rw [hid'] at hid
    refine ⟨hterminal.trans ?_, husage.trans ?_, hid.trans ?_⟩
    · exact (getLast?_filterMap_cons _ _ _ _).symm
    · exact (getLast?_filterMap_cons _ _ _ _).symm
    · exact (getLast?_filterMap_cons _ _ _ _).symm

theorem account_reports (reading : List Bytes × Bool) :
    (account crates {} reading).terminal = (terminals crates reading.1).getLast? ∧
      (account crates {} reading).finalUsage = (usages crates reading.1).getLast? ∧
      (account crates {} reading).providerResponseIdHash =
        (responseIdHashes crates reading.1).getLast? := by
  have h := @inspectFrames_reports crates {} reading.1
  simp only [or_none] at h
  simp only [account]
  split_ifs
  · exact h
  · exact h

end NativeResponseSseInspector

namespace NativeResponseSseRelay
open NativeResponseSseInspector

variable {crates : NativeCrates}

/-! ## The outcome -/

/-- The stream ended as completed, with what the given event reports. -/
def CompletedWith (crates : NativeCrates) (inspection : NativeResponseStreamInspection)
    (locallyCancelled : Bool) (payload : Value) : Prop :=
  nativeStreamFinalization inspection locallyCancelled = .completed ∧
    (∀ usage, usageOf payload = some usage → inspection.finalUsage = some usage) ∧
    ∀ id, responseIdFromEvent payload = some id →
      inspection.providerResponseIdHash = some (crates.sha256Hex id)

/-- Among the frames that the inspector reads of a stream, the last terminal one is a completed
one, and the last usage and the last response id are those of the given event. -/
def LastReported (crates : NativeCrates) (chunks : List Bytes) (payload : Value) : Prop :=
  (terminals crates (reading crates chunks).1).getLast? = some .completed ∧
    (∀ usage, usageOf payload = some usage →
      (usages crates (reading crates chunks).1).getLast? = some usage) ∧
    ∀ id, responseIdFromEvent payload = some id →
      (responseIdHashes crates (reading crates chunks).1).getLast? = some (crates.sha256Hex id)

theorem finalization_completed_iff {inspection : NativeResponseStreamInspection}
    {locallyCancelled : Bool} : nativeStreamFinalization inspection locallyCancelled = .completed ↔
      inspection.terminal = some .completed := by
  cases hterminal : inspection.terminal with
  | none =>
    cases locallyCancelled <;> simp [nativeStreamFinalization, hterminal]
  | some terminal =>
    cases terminal <;> simp [nativeStreamFinalization, hterminal]

theorem completedWith_iff (localResponseId : Text) (mode : Option ReasoningSummaryMode)
    (chunks : List Bytes) (locallyCancelled : Bool) (payload : Value) :
    CompletedWith crates (((new localResponseId).withReasoningSummary mode).relayChunks crates
        chunks).2.inspector.inspection locallyCancelled payload ↔
      LastReported crates chunks payload := by
  obtain ⟨hterminal, husage, hid⟩ := @account_reports crates (reading crates chunks)
  rw [relayChunks_inspection, CompletedWith, LastReported, finalization_completed_iff, hterminal,
    husage, hid]

/-- The event of a `response.completed` frame of the stream. -/
def CompletedFrame (crates : NativeCrates) (chunks : List Bytes) (payload : Value) : Prop :=
  ∃ p ∈ sseCutter.frames chunks.flatten, ∃ text, eventOf crates p.frame = some (text, payload) ∧
    terminalOf (eventKindOf text payload) = some .completed

/-- A stream ends as completed with the response of its completed frame exactly if the frames that
the inspector reads end so. -/
theorem relay_completed_iff (crates : NativeCrates) (localResponseId : Text)
    (mode : Option ReasoningSummaryMode) (chunks : List Bytes) (locallyCancelled : Bool) :
    (∀ payload, CompletedFrame crates chunks payload →
      CompletedWith crates (((new localResponseId).withReasoningSummary mode).relayChunks crates
        chunks).2.inspector.inspection locallyCancelled payload) ↔
      ∀ payload, CompletedFrame crates chunks payload → LastReported crates chunks payload := by
  simp only [completedWith_iff]

def completedText : Text := "\x7b\"type\":\"response.completed\"\x7d"

def completedPayload : Value := .object [("type", .string "response.completed")]

/-- A parser that knows one event. -/
def completedCrates : NativeCrates where
  fromStr text := if text = completedText then some completedPayload else none
  sha256Hex _ := []

def completedLine : Bytes := Text.bytes (("data: " : Text) ++ completedText)

/-- A completed frame behind a line that is too large to inspect. -/
theorem behindLargeLine_not_completed {line : Bytes} (hline : Plain line)
    (hlength : maxInspectedSseFrameBytes < line.length) :
    CompletedFrame completedCrates [line ++ (lfDelimiter ++ (completedLine ++ lfDelimiter))]
        completedPayload ∧
      ¬ CompletedWith completedCrates ((new "local").relayChunks completedCrates
        [line ++ (lfDelimiter ++ (completedLine ++ lfDelimiter))]).2.inspector.inspection false
          completedPayload := by
  have hdrain := sseCutter.drain_of_some (hline.cut_piece (completedLine ++ lfDelimiter))
  constructor
  · refine ⟨⟨completedLine, lfDelimiter⟩, ?_, ("data: " : Text) ++ completedText, ?_, ?_⟩
    · have hlater : (⟨completedLine, lfDelimiter⟩ : Piece UInt8) ∈
          (sseCutter.drain (completedLine ++ lfDelimiter)).1 := by
        have hplain : Plain completedLine := by
          unfold Plain
          decide +kernel
        have hcut := hplain.cut_piece []
        rw [append_nil] at hcut
        rw [sseCutter.drain_of_some hcut]
        exact mem_cons_self
      rw [flatten_singleton, Cutter.frames, hdrain]
      exact mem_append_left _ (mem_cons_of_mem _ hlater)
    · have hsize : ¬ maxInspectedSseFrameBytes < completedLine.length := by decide +kernel
      have hutf8 : fromUtf8 completedLine = some (("data: " : Text) ++ completedText) := by
        decide +kernel
      have hdata : (frameData (("data: " : Text) ++ completedText)).trim = completedText := by
        decide +kernel
      have hne : ¬ (completedText = [] ∨ completedText = "[DONE]") := by decide +kernel
      simp only [eventOf, if_neg hsize, hutf8, bind_some, hdata, if_neg hne,
        completedCrates, if_true, map_some]
    · have hkind : eventKindOf (("data: " : Text) ++ completedText) completedPayload =
          "response.completed" := by
        decide +kernel
      rw [hkind]
      decide +kernel
  · intro h
    have hlast := ((completedWith_iff "local" none _ _ _).mp h).1
    have hread : (reading completedCrates
        [line ++ (lfDelimiter ++ (completedLine ++ lfDelimiter))]).1 = [] := by
      simp only [reading, relayFeed, nil_append, hdrain, flatMap_cons, feedPiece,
        if_pos hlength, cons_append, Reader.run_close]
    rw [hread] at hlast
    simp [terminals] at hlast

def largeThenCompleted : List Bytes :=
  [replicate (maxInspectedSseFrameBytes + 1) 58 ++
    (lfDelimiter ++ (completedLine ++ lfDelimiter))]

theorem largeThenCompleted_not_completed :
    CompletedFrame completedCrates largeThenCompleted completedPayload ∧
      ¬ CompletedWith completedCrates ((new "local").relayChunks completedCrates
        largeThenCompleted).2.inspector.inspection false completedPayload := by
  refine behindLargeLine_not_completed (fun b hb => ?_) ?_
  · rw [eq_of_mem_replicate hb]
    decide
  · rw [length_replicate]
    exact Nat.lt_succ_self _

end NativeResponseSseRelay
end CodeSeeX.Native
