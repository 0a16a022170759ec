import CodeSeeX.General.BTreeMap
import CodeSeeX.General.Streaks
import CodeSeeX.Json

/-!
# Stopping a tool loop

Tools that keep failing stop the loop. The streaming loop counts every result as it comes
in, the other loop counts a whole iteration at once.
-/
namespace CodeSeeX
open List Option BTreeMap

structure ChatToolCall where
  id : Text
  name : Text
  arguments : Text
  deriving DecidableEq

namespace ToolLoop
open Streaks

structure ToolLoopStop where
  message : Text
  recoverWithFinalResponse : Bool

inductive ToolResultLoopHealth where
  | success
  | failed
  | lowConfidenceFallback
  deriving DecidableEq

structure BatchToolHealth where
  hasSuccess : Bool := false
  unsuccessfulHealth : Option ToolResultLoopHealth := none

def BatchToolHealth.record (batch : BatchToolHealth) (health : ToolResultLoopHealth) :
    BatchToolHealth :=
  if health = .success then { batch with hasSuccess := true }
  else if health = .failed then { batch with unsuccessfulHealth := some .failed }
  else if batch.unsuccessfulHealth.isNone then { batch with unsuccessfulHealth := some health }
  else batch

def toolResultLoopHealth (call : ChatToolCall) (result : Value) : ToolResultLoopHealth :=
  if (result.get "ok").bind Value.asBool = some false ∨ (result.get "error").isSome then .failed
  else if call.name = "web_search" ∧
      (result.get "low_confidence_fallback").bind Value.asBool = some true then
    .lowConfidenceFallback
  else .success

def consecutiveFailureThreshold (toolName : Text) : ℕ := if toolName = "web_search" then 2 else 3

def toolLoopStopMessage (toolName : Text) (health : ToolResultLoopHealth) (unsuccessful : ℕ) :
    Text :=
  match health with
  | .lowConfidenceFallback =>
      ("Tool '" : Text) ++ toolName ++ ("' returned low-confidence fallback results " : Text) ++
        Text.ofNat unsuccessful ++
        (" consecutive times in one response. CodeSeeX stopped the loop to avoid " : Text) ++
        ("burning tokens on repeated weak web search retries." : Text)
  | .failed | .success =>
      ("Tool '" : Text) ++ toolName ++ ("' failed " : Text) ++ Text.ofNat unsuccessful ++
        (" consecutive times in one response. CodeSeeX stopped the loop to avoid " : Text) ++
        ("burning tokens on repeated failing tool retries." : Text)

def toolLoopStopIsRecoverable (toolName : Text) (health : ToolResultLoopHealth) : Bool :=
  toolName = Text.lit "web_search" && (health = .failed || health = .lowConfidenceFallback)

/-- The largest `u32`. -/
def counterCap : ℕ := 2 ^ 32 - 1

/-- `ToolLoopDiagnostics`, as far as results are concerned. -/
structure ToolLoopDiagnostics where
  consecutiveUnsuccessfulByName : BTreeMap Text ℕ

variable (d : ToolLoopDiagnostics) {results : List (ChatToolCall × Value)}
  {iterations : List (List (ChatToolCall × Value))}

namespace ToolLoopDiagnostics

def new : ToolLoopDiagnostics := ⟨empty⟩

def unsuccessful (d : ToolLoopDiagnostics) (toolName : Text) : ℕ :=
  (d.consecutiveUnsuccessfulByName.get toolName).getD 0

/-- The health of each tool of a batch. -/
def batchHealth (results : List (ChatToolCall × Value)) : BTreeMap Text BatchToolHealth :=
  results.foldl (fun batch (call, result) =>
    batch.insert call.name
      (((batch.get call.name).getD {}).record (toolResultLoopHealth call result))) empty

/-- One round over the tools of a batch. -/
def noteHealth (state : Option ToolLoopStop × ToolLoopDiagnostics)
    (entry : Text × BatchToolHealth) : Option ToolLoopStop × ToolLoopDiagnostics :=
  let (stop, d) := state
  let (toolName, health) := entry
  if health.hasSuccess then (stop, ⟨d.consecutiveUnsuccessfulByName.insert toolName 0⟩)
  else match health.unsuccessfulHealth with
    | none => (stop, d)
    | some loopHealth =>
        let unsuccessful := bump counterCap (d.unsuccessful toolName)
        let d : ToolLoopDiagnostics :=
          ⟨d.consecutiveUnsuccessfulByName.insert toolName unsuccessful⟩
        if unsuccessful < consecutiveFailureThreshold toolName ∨ stop.isSome then (stop, d)
        else (some {
          message := toolLoopStopMessage toolName loopHealth unsuccessful
          recoverWithFinalResponse := toolLoopStopIsRecoverable toolName loopHealth }, d)

def recordToolResultsAndRepeatedFailure (d : ToolLoopDiagnostics)
    (results : List (ChatToolCall × Value)) : Option ToolLoopStop × ToolLoopDiagnostics :=
  (batchHealth results).entries.foldl noteHealth (none, d)

def recordToolResultAndRepeatedFailure (d : ToolLoopDiagnostics) (call : ChatToolCall)
    (result : Value) : Option ToolLoopStop × ToolLoopDiagnostics :=
  d.recordToolResultsAndRepeatedFailure [(call, result)]

/-- The results of an iteration in `response_stream_from_chat`: the last stop wins. -/
def recordStreamedToolResults (d : ToolLoopDiagnostics) :
    List (ChatToolCall × Value) → Option ToolLoopStop × ToolLoopDiagnostics
  | [] => (none, d)
  | (call, result) :: results =>
      let (repeatedError, d) := d.recordToolResultAndRepeatedFailure call result
      let (laterStop, d) := d.recordStreamedToolResults results
      (laterStop.or repeatedError, d)

/-- What a loop decides at each iteration: go on, or stop, and whether it can recover. A stop ends
the loop. -/
def decisions (record : ToolLoopDiagnostics → List (ChatToolCall × Value) →
    Option ToolLoopStop × ToolLoopDiagnostics) (d : ToolLoopDiagnostics) :
    List (List (ChatToolCall × Value)) → List (Option Bool)
  | [] => []
  | results :: iterations =>
      match record d results with
      | (some stop, _) => [some stop.recoverWithFinalResponse]
      | (none, d) => none :: decisions record d iterations

end ToolLoopDiagnostics

/-! ## Counting -/

/-- The outcomes of the results. -/
def outcomes (results : List (ChatToolCall × Value)) : List (Outcome Text) :=
  results.map fun (call, result) => (call.name, toolResultLoopHealth call result ≠ .success)

/-- The outcomes of the tools in a batch. -/
def healthOutcomes (entries : List (Text × BatchToolHealth)) : List (Outcome Text) :=
  entries.map fun (toolName, health) => (toolName, !health.hasSuccess)

/-- A tool of a batch failed, or it succeeded. -/
structure Settled (health : BatchToolHealth) : Prop where
  known : health.hasSuccess = false → health.unsuccessfulHealth.isSome = true
  unsuccessful : health.unsuccessfulHealth ≠ some .success

namespace ToolLoopDiagnostics

theorem recoverable_iff {toolName : Text} {health : ToolResultLoopHealth} (h : health ≠ .success) :
    toolLoopStopIsRecoverable toolName health = decide (toolName = Text.lit "web_search") := by
  cases health with
  | success => exact absurd rfl h
  | failed => simp [toolLoopStopIsRecoverable]
  | lowConfidenceFallback => simp [toolLoopStopIsRecoverable]

theorem unsuccessful_insert (m : BTreeMap Text ℕ) (toolName : Text) (count : ℕ) :
    unsuccessful ⟨m.insert toolName count⟩ = Function.update (unsuccessful ⟨m⟩) toolName count := by
  funext other
  by_cases hother : other = toolName
  · subst hother
    simp [unsuccessful]
  · rw [Function.update_of_ne hother]
    simp only [unsuccessful, get_insert_ne _ hother]

/-- A round over settled tools is a sweep over their outcomes. -/
theorem noteHealth_sweep {entries : List (Text × BatchToolHealth)}
    (h : ∀ e ∈ entries, Settled e.2) (d : ToolLoopDiagnostics) (stop : Option ToolLoopStop) :
    (entries.foldl noteHealth (stop, d)).2.unsuccessful =
        (sweep counterCap consecutiveFailureThreshold d.unsuccessful (healthOutcomes entries)).2 ∧
      (entries.foldl noteHealth (stop, d)).1.map ToolLoopStop.recoverWithFinalResponse =
        (stop.map ToolLoopStop.recoverWithFinalResponse).or
          ((sweep counterCap consecutiveFailureThreshold d.unsuccessful
            (healthOutcomes entries)).1.map fun toolName =>
              decide (toolName = Text.lit "web_search")) := by
  induction entries generalizing d stop with
  | nil => simp [healthOutcomes, sweep]
  | cons e entries ih =>
    obtain ⟨toolName, health⟩ := e
    obtain ⟨hhere, hlater⟩ := forall_mem_cons.mp h
    rw [foldl_cons, healthOutcomes, map_cons, ← healthOutcomes, sweep]
    cases hsuccess : health.hasSuccess with
    | true =>
      have hnote : noteHealth (stop, d) (toolName, health) =
          (stop, ⟨d.consecutiveUnsuccessfulByName.insert toolName 0⟩) := by
        simp [noteHealth, hsuccess]
      obtain ⟨hcounters, hstop⟩ := ih hlater ⟨d.consecutiveUnsuccessfulByName.insert toolName 0⟩ stop
      rw [unsuccessful_insert] at hcounters hstop
      rw [hnote, hcounters, hstop]
      simp
    | false =>
      obtain ⟨loopHealth, hloop⟩ : ∃ loopHealth, health.unsuccessfulHealth = some loopHealth :=
        isSome_iff_exists.mp (hhere.known hsuccess)
      have hfailed : loopHealth ≠ .success := fun heq => hhere.unsuccessful (heq ▸ hloop)
      have hcount := fun next => ih hlater
        ⟨d.consecutiveUnsuccessfulByName.insert toolName (bump counterCap (d.unsuccessful toolName))⟩
        next
      simp only [unsuccessful_insert] at hcount
      simp only [noteHealth, hsuccess, hloop, Bool.not_false, true_and, if_true, Bool.false_eq_true,
        if_false]
      by_cases hquiet : bump counterCap (d.unsuccessful toolName) <
          consecutiveFailureThreshold toolName
      · rw [if_pos (.inl hquiet), if_neg (not_le.mpr hquiet)]
        exact hcount stop
      · rw [if_pos (not_lt.mp hquiet)]
        cases hbefore : stop with
        | some first =>
          rw [if_pos (.inr (isSome_some (a := first)))]
          refine ⟨(hcount (some first)).1, ?_⟩
          rw [(hcount (some first)).2]
          rfl
        | none =>
          rw [if_neg (by simpa using hquiet)]
          refine ⟨(hcount _).1, ?_⟩
          rw [(hcount _).2]
          simp [recoverable_iff hfailed]

/-! ## A batch -/

theorem record_hasSuccess (batch : BatchToolHealth) (health : ToolResultLoopHealth) :
    (batch.record health).hasSuccess = (batch.hasSuccess || decide (health = .success)) := by
  simp only [BatchToolHealth.record]
  split_ifs with h1 h2 h3
  · simp [h1]
  · simp [h1]
  · simp [h1]
  · simp [h1]

theorem record_settled {batch : BatchToolHealth} (h : batch.unsuccessfulHealth ≠ some .success)
    (health : ToolResultLoopHealth) : Settled (batch.record health) := by
  simp only [BatchToolHealth.record]
  split_ifs with h1 h2 h3
  · exact ⟨by simp, h⟩
  · exact ⟨by simp, by simp⟩
  · exact ⟨by simp, by simpa using h1⟩
  · refine ⟨fun _ => ?_, h⟩
    rw [← not_isNone, Bool.not_eq_true', ← Bool.not_eq_true]
    exact h3

/-- What a batch knows of a tool. -/
structure Knows (results : List (ChatToolCall × Value)) (batch : BTreeMap Text BatchToolHealth)
    (toolName : Text) : Prop where
  absent : batch.get toolName = none → outcomesOf toolName (outcomes results) = []
  present : ∀ health, batch.get toolName = some health →
    outcomesOf toolName (outcomes results) ≠ [] ∧
      (!health.hasSuccess) = allFailed (outcomes results) toolName ∧ Settled health

section
variable (results : List (ChatToolCall × Value))

theorem batchHealth_knows (toolName : Text) :
    Knows results (batchHealth results) toolName := by
  induction results using reverseRecOn with
  | nil => exact ⟨fun _ => rfl, fun health h => by simp [batchHealth] at h⟩
  | append_singleton results entry ih =>
    obtain ⟨call, result⟩ := entry
    have hbatch : batchHealth (results ++ [(call, result)]) =
        (batchHealth results).insert call.name
          ((((batchHealth results).get call.name).getD {}).record
            (toolResultLoopHealth call result)) := by
      rw [batchHealth, foldl_append, ← batchHealth]
      rfl
    have houts : outcomes (results ++ [(call, result)]) = outcomes results ++
        [(call.name, decide (toolResultLoopHealth call result ≠ .success))] := by
      rw [outcomes, map_append, ← outcomes]
      rfl
    by_cases hname : toolName = call.name
    · subst hname
      have hof : outcomesOf call.name (outcomes (results ++ [(call, result)])) =
          outcomesOf call.name (outcomes results) ++
            [decide (toolResultLoopHealth call result ≠ .success)] := by
        rw [houts, outcomesOf_append]
        simp [outcomesOf]
      refine ⟨fun h => by simp [hbatch] at h, fun health h => ?_⟩
      rw [hbatch, get_insert_self, some_inj] at h
      rw [allFailed, hof, ← h, record_hasSuccess]
      cases hold : (batchHealth results).get call.name with
      | none =>
        rw [ih.absent hold]
        exact ⟨by simp, by simp, record_settled (by simp) _⟩
      | some old =>
        obtain ⟨_, hfailed, hsettled⟩ := ih.present old hold
        refine ⟨by simp, ?_, record_settled hsettled.unsuccessful _⟩
        rw [all_append, ← allFailed, ← hfailed]
        simp
    · have hne : ¬ call.name = toolName := fun h => hname h.symm
      have hof : outcomesOf toolName (outcomes (results ++ [(call, result)])) =
          outcomesOf toolName (outcomes results) := by
        rw [houts, outcomesOf_append]
        simp [outcomesOf, hne]
      have hget : (batchHealth (results ++ [(call, result)])).get toolName =
          (batchHealth results).get toolName := by
        rw [hbatch, get_insert_ne _ hname]
      refine ⟨fun h => ?_, fun health h => ?_⟩
      · rw [hof]
        exact ih.absent (hget ▸ h)
      · rw [hof, allFailed, hof, ← allFailed]
        exact ih.present health (hget ▸ h)

/-- The tools of a batch with what their results say. -/
theorem batchHealth_summary :
    Summary (outcomes results) (healthOutcomes (batchHealth results).entries) where
  sorted := by
    rw [healthOutcomes, pairwise_map]
    exact (batchHealth results).sorted
  mem_iff toolName failed := by
    have hknows := batchHealth_knows results toolName
    simp only [healthOutcomes, List.mem_map, Prod.exists, Prod.mk.injEq]
    constructor
    · intro h
      obtain ⟨name, health, hentry, rfl, rfl⟩ := h
      obtain ⟨hne, hfailed, _⟩ := hknows.present health (get_eq_some.mpr hentry)
      exact ⟨hne, hfailed⟩
    · intro h
      cases hget : (batchHealth results).get toolName with
      | none => exact absurd (hknows.absent hget) h.1
      | some health =>
        refine ⟨toolName, health, get_eq_some.mp hget, rfl, ?_⟩
        rw [h.2, (hknows.present health hget).2.1]

theorem batchHealth_settled :
    ∀ e ∈ (batchHealth results).entries, Settled e.2 := by
  intro e he
  exact ((batchHealth_knows results e.1).present e.2 (get_eq_some.mpr he)).2.2

end

/-- A batch is counted once for each tool. -/
theorem record_sweep (results : List (ChatToolCall × Value)) :
    (d.recordToolResultsAndRepeatedFailure results).2.unsuccessful =
        (sweep counterCap consecutiveFailureThreshold d.unsuccessful
          (healthOutcomes (batchHealth results).entries)).2 ∧
      (d.recordToolResultsAndRepeatedFailure results).1.map ToolLoopStop.recoverWithFinalResponse =
        (sweep counterCap consecutiveFailureThreshold d.unsuccessful
          (healthOutcomes (batchHealth results).entries)).1.map fun toolName =>
            decide (toolName = Text.lit "web_search") :=
  noteHealth_sweep (batchHealth_settled results) d none

/-! ## Streamed results -/

/-- Streamed results are counted one by one. -/
theorem recordStreamed_stops (results : List (ChatToolCall × Value)) :
    (d.recordStreamedToolResults results).2.unsuccessful =
        after counterCap d.unsuccessful (outcomes results) ∧
      (d.recordStreamedToolResults results).1.map ToolLoopStop.recoverWithFinalResponse =
        (stops counterCap consecutiveFailureThreshold d.unsuccessful (outcomes results)).getLast?.map
          fun toolName => decide (toolName = Text.lit "web_search") := by
  induction results generalizing d with
  | nil => exact ⟨rfl, rfl⟩
  | cons entry results ih =>
    obtain ⟨call, result⟩ := entry
    obtain ⟨hcounters, hstop⟩ := record_sweep d [(call, result)]
    obtain ⟨hlater, hlast⟩ := ih (d.recordToolResultAndRepeatedFailure call result).2
    have hentries : healthOutcomes (batchHealth [(call, result)]).entries =
        outcomes [(call, result)] := by
      have hhas := record_hasSuccess {} (toolResultLoopHealth call result)
      simp only [batchHealth, foldl_cons, foldl_nil, BTreeMap.insert, BTreeMap.empty,
        BTreeMap.insertEntry, healthOutcomes, outcomes, map_cons, map_nil,
        BTreeMap.get, find?_nil, map_none, getD_none, hhas]
      simp
    rw [hentries] at hcounters hstop
    rw [recordToolResultAndRepeatedFailure, hcounters] at hlater hlast
    have hnext : after counterCap d.unsuccessful (outcomes ((call, result) :: results)) =
        after counterCap (sweep counterCap consecutiveFailureThreshold d.unsuccessful
          (outcomes [(call, result)])).2 (outcomes results) := rfl
    rw [hnext, recordStreamedToolResults, recordToolResultAndRepeatedFailure]
    refine ⟨hlater, ?_⟩
    have hsplit : stops counterCap consecutiveFailureThreshold d.unsuccessful
        (outcomes ((call, result) :: results)) =
          (sweep counterCap consecutiveFailureThreshold d.unsuccessful
            (outcomes [(call, result)])).1.toList ++
          stops counterCap consecutiveFailureThreshold (sweep counterCap consecutiveFailureThreshold
            d.unsuccessful (outcomes [(call, result)])).2 (outcomes results) := by
      simp only [outcomes, map_cons, map_nil, stops, sweep]
      split_ifs <;> rfl
    rw [hsplit, getLast?_append, map_or, hlast, hstop, map_or]
    cases (sweep counterCap consecutiveFailureThreshold d.unsuccessful
      (outcomes [(call, result)])).1 <;> rfl

/-! ## Agreement -/

/-- An iteration that both loops count alike: each tool has one result, or ends with a success
before its failures reach the threshold; and if several tools stop, the first by name and the
last by result are both web searches or both not. -/
structure CountedAlike (d : ToolLoopDiagnostics) (results : List (ChatToolCall × Value)) : Prop where
  aligned : Aligned counterCap consecutiveFailureThreshold d.unsuccessful (outcomes results)
  recoverable : (stopping counterCap consecutiveFailureThreshold d.unsuccessful
      (outcomes results)).getLast? = some (Text.lit "web_search") ↔
    Text.lit "web_search" ∈ stopping counterCap consecutiveFailureThreshold d.unsuccessful
        (outcomes results) ∧
      ∀ other ∈ stopping counterCap consecutiveFailureThreshold d.unsuccessful (outcomes results),
        other = Text.lit "web_search" ∨ Text.lit "web_search" < other

theorem countedAlike_step {d d' : ToolLoopDiagnostics} (hsame : d.unsuccessful = d'.unsuccessful)
    (h : d.CountedAlike results) :
    (d.recordStreamedToolResults results).2.unsuccessful =
        (d'.recordToolResultsAndRepeatedFailure results).2.unsuccessful ∧
      (d.recordStreamedToolResults results).1.map ToolLoopStop.recoverWithFinalResponse =
        (d'.recordToolResultsAndRepeatedFailure results).1.map
          ToolLoopStop.recoverWithFinalResponse := by
  have hsum := batchHealth_summary results
  obtain ⟨hstreamed, hlast⟩ := recordStreamed_stops d results
  obtain ⟨hbatch, hfirst⟩ := record_sweep d' results
  rw [← hsame] at hbatch hfirst
  refine ⟨?_, ?_⟩
  · rw [hstreamed, hbatch]
    exact after_eq_sweep hsum h.aligned
  · rw [hlast, hfirst, stops_eq h.aligned]
    have hrecover := h.recoverable
    rw [← sweep_stop_iff hsum] at hrecover
    have hnone := @sweep_none_iff _ _ counterCap consecutiveFailureThreshold _ d.unsuccessful _ _ hsum
    rw [← getLast?_eq_none_iff] at hnone
    cases hlast' : (stopping counterCap consecutiveFailureThreshold d.unsuccessful
      (outcomes results)).getLast? with
    | none => rw [hnone.mpr hlast', map_none]
    | some last =>
      cases hfirst' : (sweep counterCap consecutiveFailureThreshold d.unsuccessful
        (healthOutcomes (batchHealth results).entries)).1 with
      | none => simp [hnone.mp hfirst'] at hlast'
      | some first =>
        rw [hlast', hfirst', some_inj, some_inj] at hrecover
        simp [hrecover]

/-- Every iteration that is reached is counted alike. -/
def AllCountedAlike (d : ToolLoopDiagnostics) : List (List (ChatToolCall × Value)) → Prop
  | [] => True
  | results :: iterations =>
      d.CountedAlike results ∧
        ((d.recordToolResultsAndRepeatedFailure results).1 = none →
          AllCountedAlike (d.recordToolResultsAndRepeatedFailure results).2 iterations)

theorem decisions_agree {d d' : ToolLoopDiagnostics} (hsame : d.unsuccessful = d'.unsuccessful)
    (h : d'.AllCountedAlike iterations) :
    decisions recordStreamedToolResults d iterations =
      decisions recordToolResultsAndRepeatedFailure d' iterations := by
  induction iterations generalizing d d' with
  | nil => rfl
  | cons results iterations ih =>
    have hhere : d.CountedAlike results := by
      refine ⟨?_, ?_⟩
      · rw [hsame]
        exact h.1.aligned
      · rw [hsame]
        exact h.1.recoverable
    obtain ⟨hcounters, hstop⟩ := countedAlike_step hsame hhere
    simp only [decisions]
    cases hstreamed : d.recordStreamedToolResults results with
    | mk stop next =>
      cases hbatch : d'.recordToolResultsAndRepeatedFailure results with
      | mk stop' next' =>
        rw [hstreamed, hbatch] at hcounters hstop
        cases stop with
        | some first =>
          cases stop' with
          | none => simp at hstop
          | some second => simpa using hstop
        | none =>
          cases stop' with
          | some second => simp at hstop
          | none =>
            have hrest := h.2
            rw [hbatch] at hrest
            simp only
            rw [ih hcounters (hrest rfl)]

theorem countedAlike_of_short (h : results.length ≤ 1) : d.CountedAlike results := by
  have houts : (outcomes results).length ≤ 1 := by
    rw [outcomes, length_map]
    exact h
  refine ⟨fun toolName => .inl ?_, ?_⟩
  · rw [outcomesOf, length_map]
    exact (length_filter_le _ _).trans houts
  · have hshort : (stopping counterCap consecutiveFailureThreshold d.unsuccessful
        (outcomes results)).length ≤ 1 := by
      rw [stopping, length_map]
      exact (length_filter_le _ _).trans houts
    generalize stopping counterCap consecutiveFailureThreshold d.unsuccessful (outcomes results) =
      names at hshort
    rcases names with _ | ⟨name, _ | ⟨next, names⟩⟩
    · simp
    · simp only [getLast?_singleton, some_inj, mem_singleton, forall_eq]
      constructor
      · intro heq
        exact ⟨heq.symm, .inl heq⟩
      · intro heq
        exact heq.1.symm
    · simp at hshort

/-- Iterations of a single call are counted alike. -/
theorem allCountedAlike_of_short (h : ∀ results ∈ iterations, results.length ≤ 1) :
    d.AllCountedAlike iterations := by
  induction iterations generalizing d with
  | nil => trivial
  | cons results iterations ih =>
    obtain ⟨hhere, hlater⟩ := forall_mem_cons.mp h
    exact ⟨d.countedAlike_of_short hhere, fun _ => ih _ hlater⟩

/-- Both loops decide alike at every iteration of a run that they count alike. -/
theorem loops_stop_alike {iterations : List (List (ChatToolCall × Value))}
    (h : new.AllCountedAlike iterations) :
    decisions recordStreamedToolResults new iterations =
      decisions recordToolResultsAndRepeatedFailure new iterations :=
  decisions_agree rfl h

def failedRead (id : Text) : ChatToolCall × Value :=
  (⟨id, "read_file_range", "{}"⟩, .object [("ok", .bool false)])

theorem failedReads_stop_alike :
    decisions recordStreamedToolResults new (replicate 3 [failedRead "a"]) =
      decisions recordToolResultsAndRepeatedFailure new (replicate 3 [failedRead "a"]) := by
  refine loops_stop_alike (allCountedAlike_of_short new fun results h => ?_)
  rw [eq_of_mem_replicate h]
  exact le_rfl

/-- Three failures in one iteration. -/
theorem failedBatch_stops_differently :
    decisions recordStreamedToolResults new [[failedRead "a", failedRead "b", failedRead "c"]] ≠
      decisions recordToolResultsAndRepeatedFailure new
        [[failedRead "a", failedRead "b", failedRead "c"]] := by
  decide +kernel

end ToolLoopDiagnostics
end ToolLoop
end CodeSeeX
