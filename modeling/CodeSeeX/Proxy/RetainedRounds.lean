import CodeSeeX.Proxy.HostedLoop

/-!
# Whether a failed request keeps its round

A request that continues a retained round replays it upstream. The round is settled as
soon as one provider turn was read, so a failure from then on loses it: only what fails
before the first turn can be retried with the same rounds.
-/
namespace CodeSeeX.Native
open ToolLoop BTreeMap List

variable {now : Instant}

/-! ## The pending groups of a run -/

variable {state : NativePendingToolGroups}

theorem Keyed.settle (h : Keyed state.groups) (id : Text) :
    Keyed (state.settle id).groups := h.sublist filter_sublist

theorem keyed_run (operations : List (Instant × PendingOperation)) :
    Keyed (PendingLedger.run operations).state.groups := by
  induction operations using reverseRecOn with
  | nil => exact fun _ hmem => absurd hmem not_mem_nil
  | append_singleton operations op ih =>
    rw [PendingLedger.run, foldl_append]
    obtain ⟨now, op⟩ := op
    cases op with
    | register group =>
      exact ((ih.sublist filter_sublist).insert group).sublist trimToCapacity_sublist
    | continuationFor request => exact ih.sublist filter_sublist
    | settle responseId => exact ih.settle responseId
    | takeEvictions => exact ih

/-- The consumed group is among the live ones. -/
theorem continuationFor_live (h : Keyed state.groups) {request : Value}
    {continuation : NativePendingContinuation}
    (hsome : (state.continuationFor now request).1 = some continuation) :
    ∃ group, (pruneExpired now state).groups.get continuation.pendingResponseId = some group := by
  unfold NativePendingToolGroups.continuationFor at hsome
  dsimp only at hsome
  cases hmatch : matchingGroup (pruneExpired now state).groups request with
  | none => simp [hmatch] at hsome
  | some group =>
    rw [hmatch] at hsome
    obtain ⟨input, _, rfl⟩ := Option.map_eq_some_iff.mp hsome
    have hlive : Keyed (pruneExpired now state).groups := h.sublist filter_sublist
    obtain ⟨stored, hget, _⟩ := matchingGroup_continues hlive hmatch
    exact ⟨stored, hget⟩

/-- Where nothing has expired, pruning leaves the groups alone. -/
theorem pruneExpired_groups (h : ∀ entry ∈ state.groups.entries, isLive now entry.2 = true) :
    (pruneExpired now state).groups = state.groups := by
  have hentries : (pruneExpired now state).groups.entries = state.groups.entries :=
    filter_eq_self.mpr h
  cases hpruned : (pruneExpired now state).groups
  cases hgroups : state.groups
  simp_all

@[simp] theorem settle_settle (state : NativePendingToolGroups) (id : Text) :
    (state.settle id).settle id = state.settle id := by
  have hremoved : (state.settle id).groups.remove id = (state.settle id).groups := by
    apply remove_of_notMem
    rw [← isSome_get_iff, NativePendingToolGroups.settle, get_remove_self]
    simp
  unfold NativePendingToolGroups.settle at hremoved ⊢
  rw [hremoved]

namespace HostedRequest

variable (request : HostedRequest)

/-! ## Steps -/

/-- What settling the consumed round makes of the pending groups. -/
def settled (pending : Option NativePendingContinuation) (state : NativePendingToolGroups) :
    NativePendingToolGroups :=
  match pending with
  | some continuation => state.settle continuation.pendingResponseId
  | none => state

@[simp] theorem settled_settled (pending : Option NativePendingContinuation)
    (state : NativePendingToolGroups) :
    settled pending (settled pending state) = settled pending state := by
  cases pending <;> simp [settled]

section Steps
variable {request} {pending : Option NativePendingContinuation} {vars next : HostedVars}
  {state after : NativePendingToolGroups} {answer : ClientAnswer} {turn : ProviderTurn}

theorem failed_nativeProviderTurnResponse (completed isSse : Bool) (body : Bytes) :
    (request.nativeProviderTurnResponse completed isSse body).failed = !completed := by
  unfold nativeProviderTurnResponse
  split
  · rfl
  · split <;> rfl

/-- A turn that is handed over without being complete retains nothing. -/
theorem handedOver_failed {group : NativeToolCallGroup} {body : Bytes}
    {injectedItems : List NativeInjectedItems}
    (h : request.nativeHostedClientToolGroup state pending group turn body injectedItems =
      .done answer after) (hfailed : answer.failed = true) : after = state := by
  obtain ⟨rfl, rfl⟩ := HostedOutcome.done.inj h
  rw [failed_nativeProviderTurnResponse] at hfailed
  have hcompleted : turn.completed = false := by simpa using hfailed
  simp [hcompleted]

theorem executeNativeHostedCall_iteration (vars : HostedVars) (call : NativeToolCall) :
    (request.executeNativeHostedCall vars call).2.iteration = vars.iteration := by
  unfold executeNativeHostedCall
  dsimp only
  split
  · rfl
  · split <;> rfl

theorem executeNativeHostedCalls_iteration (vars : HostedVars) (calls : List NativeToolCall) :
    (request.executeNativeHostedCalls vars calls).2.iteration = vars.iteration := by
  induction calls generalizing vars with
  | nil => rfl
  | cons call calls ih =>
    exact (ih _).trans (executeNativeHostedCall_iteration vars call)

/-- What a readable turn leads to: an answer, and for a failed one the round is settled, or the
next iteration with the round settled and the limit not yet reached. -/
theorem takeTurn_cases (pending : Option NativePendingContinuation) (vars : HostedVars)
    (state : NativePendingToolGroups) (turn : ProviderTurn) :
    (∃ answer after, request.takeTurn pending vars state turn = .done answer after ∧
      (answer.failed = true → after = settled pending state)) ∨
    ∃ next, request.takeTurn pending vars state turn = .next next (settled pending state) ∧
      vars.iteration < maxToolLoopIterations ∧ next.iteration = vars.iteration + 1 := by
  unfold takeTurn
  cases nativeToolCallGroup turn.outputItems with
  | error error => exact .inl ⟨_, _, rfl, fun _ => rfl⟩
  | ok group =>
    cases group with
    | none => exact .inl ⟨_, _, rfl, fun _ => rfl⟩
    | some group =>
      dsimp only
      have hhanded : ∀ body injectedItems, ∃ answer after,
          request.nativeHostedClientToolGroup (settled pending state) pending group turn body
            injectedItems = .done answer after ∧
          (answer.failed = true → after = settled pending state) := by
        intro body injectedItems
        exact ⟨_, _, rfl, fun hfailed => handedOver_failed rfl hfailed⟩
      split
      · exact .inl (hhanded _ _)
      · split
        · exact .inl (hhanded _ _)
        · split
          · exact .inl ⟨_, _, rfl, fun _ => rfl⟩
          · rename_i hlimit
            split
            · exact .inl ⟨_, _, rfl, fun _ => rfl⟩
            · refine .inr ⟨_, rfl, by omega, ?_⟩
              rw [executeNativeHostedCalls_iteration]

/-- The same for an iteration: an answer that is not a readable turn changes nothing. -/
theorem iterate_cases (pending : Option NativePendingContinuation) (vars : HostedVars)
    (state : NativePendingToolGroups) :
    (∃ answer, request.readTurn (request.postResponses vars.iteration (upstreamPayload vars)) =
        .error answer ∧ request.iterate pending vars state = .done answer state) ∨
    ∃ turn, request.readTurn (request.postResponses vars.iteration (upstreamPayload vars)) =
        .ok turn ∧ request.iterate pending vars state = request.takeTurn pending vars state turn := by
  unfold iterate
  cases request.readTurn (request.postResponses vars.iteration (upstreamPayload vars)) with
  | error answer => exact .inl ⟨answer, rfl, rfl⟩
  | ok turn => exact .inr ⟨turn, rfl, rfl⟩

/-! ## Runs -/

/-- The loop answers before its iterations are used up. -/
theorem loop_answers (pending : Option NativePendingContinuation) {left : ℕ} {vars : HostedVars}
    {state : NativePendingToolGroups} (hleft : maxToolLoopIterations < vars.iteration + left)
    (hiteration : vars.iteration ≤ maxToolLoopIterations) :
    ∃ answer after, request.loop pending left vars state = some (answer, after) := by
  induction left generalizing vars state with
  | zero => omega
  | succ left ih =>
    rw [loop]
    obtain ⟨answer, _, hdone⟩ | ⟨turn, _, hturn⟩ := request.iterate_cases pending vars state
    · rw [hdone]
      exact ⟨answer, state, rfl⟩
    · rw [hturn]
      obtain ⟨answer, after, hdone, _⟩ | ⟨next, hnext, hlimit, hcount⟩ :=
        request.takeTurn_cases pending vars state turn
      · rw [hdone]
        exact ⟨answer, after, rfl⟩
      · rw [hnext]
        exact ih (by omega) (by omega)

section
variable {pending : Option NativePendingContinuation} {left : ℕ} {vars : HostedVars}
  {state after : NativePendingToolGroups} {answer : ClientAnswer}

/-- A failed run leaves the groups as they were, or without the consumed round. -/
theorem loop_failed (h : request.loop pending left vars state = some (answer, after))
    (hfailed : answer.failed = true) : after = state ∨ after = settled pending state := by
  induction left generalizing vars state with
  | zero => cases h
  | succ left ih =>
    rw [loop] at h
    obtain ⟨_, _, hdone⟩ | ⟨turn, _, hturn⟩ := request.iterate_cases pending vars state
    · rw [hdone] at h
      obtain ⟨rfl, rfl⟩ := Prod.mk.inj (Option.some.inj h)
      exact .inl rfl
    · rw [hturn] at h
      obtain ⟨_, _, hdone, hsettled⟩ | ⟨next, hnext, _, _⟩ :=
        request.takeTurn_cases pending vars state turn
      · rw [hdone] at h
        obtain ⟨rfl, rfl⟩ := Prod.mk.inj (Option.some.inj h)
        exact .inr (hsettled hfailed)
      · rw [hnext] at h
        have hstates := ih h
        rw [settled_settled, or_self] at hstates
        exact .inr hstates

/-- From the first turn that was read the round is gone. -/
theorem loop_failed_of_read {turn : ProviderTurn}
    (hread : request.readTurn (request.postResponses vars.iteration (upstreamPayload vars)) = .ok turn)
    (h : request.loop pending (left + 1) vars state = some (answer, after))
    (hfailed : answer.failed = true) : after = settled pending state := by
  rw [loop] at h
  have hturn : request.iterate pending vars state = request.takeTurn pending vars state turn := by
    rw [iterate, hread]
  rw [hturn] at h
  obtain ⟨_, _, hdone, hsettled⟩ | ⟨next, hnext, _, _⟩ :=
    request.takeTurn_cases pending vars state turn
  · rw [hdone] at h
    obtain ⟨rfl, rfl⟩ := Prod.mk.inj (Option.some.inj h)
    exact hsettled hfailed
  · rw [hnext] at h
    have hstates := request.loop_failed h hfailed
    rwa [settled_settled, or_self] at hstates

end

end Steps
/-! ## The prepared request -/

/-- What is sent upstream first. -/
def firstUpstreamPayload (state : NativePendingToolGroups) : Option Value :=
  match request.prepare state with
  | .ok (some resolved) => some (upstreamPayload (request.startVars resolved))
  | _ => none

theorem nativePayload_object {input : Value} (h : ((input.get "input").bind Value.asArray).isSome)
    (model : Text) (tools : List Value) :
    ∃ fields, nativePayload input model tools = .ok (.object fields) := by
  cases input with
  | object fields =>
    have hset : ∀ (fields : List (Text × Value)) (key : Text) (field : Value),
        (Value.object fields).set key field = .object (Value.insertField key field fields) :=
      fun _ _ _ => rfl
    rw [Option.isSome_iff_ne_none] at h
    simp only [nativePayload, Value.asObject, Option.isNone_some, Bool.false_eq_true, if_false,
      Option.isNone_iff_eq_none, h, removeField, hset]
    split
    · split <;> exact ⟨_, rfl⟩
    · split <;> exact ⟨_, rfl⟩
  | null => simp [Value.get] at h
  | bool b => simp [Value.get] at h
  | number n => simp [Value.get] at h
  | string s => simp [Value.get] at h
  | array items => simp [Value.get] at h

variable {continuation : NativePendingContinuation} {state : NativePendingToolGroups}

theorem continuationFor_input {input : Value}
    (h : (state.continuationFor now input).1 = some continuation) :
    ((input.get "input").bind Value.asArray).isSome := by
  unfold NativePendingToolGroups.continuationFor at h
  dsimp only at h
  split at h
  · cases h
  · obtain ⟨items, hitems, _⟩ := Option.map_eq_some_iff.mp h
    rw [hitems]
    rfl

section
variable {fields : List (Text × Value)}
  (hpayload : nativePayload request.input request.model request.tools = .ok (.object fields))
  (h : (state.continuationFor request.arrivedAt request.input).1 = some continuation)
include hpayload h

/-- A request that continues a round: its payload, and the groups that are live then. -/
theorem prepare_of_continuation :
    ∃ resolved, request.prepare state = .ok (some resolved) ∧
      resolved.continuation = some continuation ∧
      resolved.payload = (Value.object fields).set "input" (.array continuation.mergedInput) ∧
      resolved.state.groups = (pruneExpired request.arrivedAt state).groups := by
  have hlive : (state.continuationFor request.arrivedAt request.input).2 =
      pruneExpired request.arrivedAt state := rfl
  unfold prepare resolveNativePendingInput
  rw [hpayload]
  cases hresult : state.continuationFor request.arrivedAt request.input with
  | mk found live =>
    rw [hresult] at h hlive
    obtain rfl : found = some continuation := h
    obtain rfl : live = pruneExpired request.arrivedAt state := hlive
    exact ⟨_, rfl, rfl, rfl, rfl⟩

theorem firstUpstreamPayload_eq :
    request.firstUpstreamPayload state =
      some (nativeUpstreamPayload (repairProviderToolSchemas (reconcileGroupedToolNamespaces
        ((Value.object fields).set "input" (.array continuation.mergedInput))).1)).1 := by
  obtain ⟨resolved, hprepare, _, hmerged, _⟩ := request.prepare_of_continuation hpayload h
  unfold firstUpstreamPayload
  rw [hprepare]
  dsimp only
  rw [upstreamPayload, startVars, hmerged]

end

/-! ## Keeping the round -/

/-- The consumed group is still registered, and while no group expires the same request is sent
upstream as before. -/
structure KeepsRound (before after : NativePendingToolGroups)
    (continuation : NativePendingContinuation) : Prop where
  registered : ∃ group, before.groups.get continuation.pendingResponseId = some group ∧
    after.groups.get continuation.pendingResponseId = some group
  retried : ∀ later, (∀ entry ∈ after.groups.entries, isLive later entry.2 = true) →
    { request with arrivedAt := later }.firstUpstreamPayload after =
      request.firstUpstreamPayload before

/-- The store refuses the request, or the first answer of the upstream is not a readable turn: no
connection, an error status, a body that breaks off or that is not JSON. -/
def FirstTurnUnread (before : NativePendingToolGroups) : Prop :=
  (∃ error, request.checkpoint = .error error) ∨
    ∃ payload answer, request.firstUpstreamPayload before = some payload ∧
      request.readTurn (request.postResponses 1 payload) = .error answer

theorem keepsRound_of_live {state after : NativePendingToolGroups} (hkeyed : Keyed state.groups)
    (hconsumed : (state.continuationFor request.arrivedAt request.input).1 = some continuation)
    (hafter : after.groups = (pruneExpired request.arrivedAt state).groups) :
    request.KeepsRound state after continuation := by
  obtain ⟨fields, hpayload⟩ := nativePayload_object (continuationFor_input hconsumed) request.model
    request.tools
  constructor
  · obtain ⟨group, hget⟩ := continuationFor_live hkeyed hconsumed
    have hmem := mem_retain.mp (get_eq_some.mp hget)
    exact ⟨group, get_eq_some.mpr hmem.1, by rw [hafter, hget]⟩
  · intro later hlive
    have hsame : (after.continuationFor later request.input).1 = some continuation := by
      rw [← hconsumed]
      simp only [NativePendingToolGroups.continuationFor, pruneExpired_groups hlive, hafter]
    rw [request.firstUpstreamPayload_eq hpayload hconsumed]
    exact firstUpstreamPayload_eq { request with arrivedAt := later } hpayload hsame

/-- In any reachable state, a request that consumed a retained round and failed keeps the round if
and only if it failed before the first provider turn was read. -/
theorem keepsRound_iff (operations : List (Instant × PendingOperation))
    {continuation : NativePendingContinuation}
    (hconsumed : ((PendingLedger.run operations).state.continuationFor request.arrivedAt
      request.input).1 = some continuation) :
    ∃ answer after,
      request.nativeHostedToolLoop (PendingLedger.run operations).state = some (answer, after) ∧
        (answer.failed = true →
          (request.KeepsRound (PendingLedger.run operations).state after continuation ↔
            request.FirstTurnUnread (PendingLedger.run operations).state)) := by
  have hkeyed := keyed_run operations
  generalize (PendingLedger.run operations).state = state at hkeyed hconsumed ⊢
  obtain ⟨fields, hpayload⟩ := nativePayload_object (continuationFor_input hconsumed) request.model
    request.tools
  obtain ⟨resolved, hprepare, hpending, _, hgroups⟩ :=
    request.prepare_of_continuation hpayload hconsumed
  unfold nativeHostedToolLoop
  rw [hprepare]
  cases hcheckpoint : request.checkpoint with
  | error error =>
    refine ⟨_, _, rfl, fun _ => ?_⟩
    exact iff_of_true (request.keepsRound_of_live hkeyed hconsumed hgroups)
      (.inl ⟨error, hcheckpoint⟩)
  | ok _ =>
    have hstart : (request.startVars resolved).iteration = 1 := rfl
    obtain ⟨answer, after, hloop⟩ := @loop_answers request resolved.continuation
      maxToolLoopIterations (request.startVars resolved) resolved.state (by omega)
      (by rw [hstart, maxToolLoopIterations]; omega)
    refine ⟨answer, after, hloop, fun hfailed => ?_⟩
    have hfirst : request.firstUpstreamPayload state =
        some (upstreamPayload (request.startVars resolved)) := by
      rw [firstUpstreamPayload, hprepare]
    cases hread : request.readTurn (request.postResponses 1
        (upstreamPayload (request.startVars resolved))) with
    | error first =>
      have hunread : request.loop resolved.continuation maxToolLoopIterations
          (request.startVars resolved) resolved.state = some (first, resolved.state) := by
        rw [maxToolLoopIterations, loop, iterate]
        simp only [startVars] at hread ⊢
        rw [hread]
      rw [hunread] at hloop
      obtain ⟨rfl, rfl⟩ := Prod.mk.inj (Option.some.inj hloop)
      exact iff_of_true (request.keepsRound_of_live hkeyed hconsumed hgroups)
        (.inr ⟨_, _, hfirst, hread⟩)
    | ok turn =>
      have hsettled := loop_failed_of_read hread
        (show request.loop resolved.continuation (7 + 1) _ _ = _ from hloop) hfailed
      apply iff_of_false
      · intro hkeeps
        obtain ⟨group, _, hget⟩ := hkeeps.registered
        rw [hsettled, hpending] at hget
        simp [settled, NativePendingToolGroups.settle] at hget
      · rintro (⟨error, herror⟩ | ⟨payload, unread, hpayload, hunread⟩)
        · rw [hcheckpoint] at herror
          cases herror
        · rw [hfirst] at hpayload
          obtain rfl := Option.some.inj hpayload
          rw [hread] at hunread
          cases hunread

/-! ### A stream that ends at once -/

/-- A request that continues `resp_a`, with the given upstream. -/
def continuing (postResponses : ℕ → Value → UpstreamAnswer) : HostedRequest where
  crates := { fromStr := fun _ => none, sha256Hex := fun text => text }
  texts := { fromStr := fun _ => none, parseError := fun text => text
             clientAction := fun _ => .null, encodeReasoning := fun _ => none }
  uuid := Text.ofNat
  shortHash := fun text => text
  jsonError := fun _ => []
  id := "resp_b"
  input := .object [("input", .array []), ("previous_response_id", .string "resp_a")]
  model := "deepseek"
  tools := []
  enabledTools := []
  reasoningSummaryMode := none
  arrivedAt := 1
  retainedAt := 2
  checkpoint := .ok ()
  postResponses := postResponses
  executeTool := fun _ _ _ => []

def retainedOnce : List (Instant × PendingOperation) :=
  [(0, .register (bareRound "resp_a" "call_a" 0))]

/-- The upstream cannot be reached. -/
def unreachable : HostedRequest := continuing fun _ _ => .unreachable "connection refused"

/-- The upstream answers with an event stream that has no event. -/
def emptyStream : HostedRequest := continuing fun _ _ => .answered 200 true (.ok [])

theorem unreachable_keeps_round :
    ∃ continuation answer after,
      unreachable.nativeHostedToolLoop (PendingLedger.run retainedOnce).state =
          some (answer, after) ∧
        (answer.failed = true →
          (unreachable.KeepsRound (PendingLedger.run retainedOnce).state after continuation ↔
            unreachable.FirstTurnUnread (PendingLedger.run retainedOnce).state)) := by
  have hsome : ((PendingLedger.run retainedOnce).state.continuationFor unreachable.arrivedAt
      unreachable.input).1.isSome = true := by decide +kernel
  exact ⟨_, keepsRound_iff unreachable retainedOnce (Option.some_get hsome).symm⟩

/-- The turn did not complete, and the round that the request consumed is gone. -/
theorem emptyStream_loses_round :
    ∃ continuation answer after,
      ((PendingLedger.run retainedOnce).state.continuationFor emptyStream.arrivedAt
          emptyStream.input).1 = some continuation ∧
        emptyStream.nativeHostedToolLoop (PendingLedger.run retainedOnce).state =
          some (answer, after) ∧
        answer.failed = true ∧
        ¬ emptyStream.KeepsRound (PendingLedger.run retainedOnce).state after continuation := by
  have hid : ((PendingLedger.run retainedOnce).state.continuationFor emptyStream.arrivedAt
      emptyStream.input).1.map (·.pendingResponseId) = some ("resp_a" : Text) := by decide +kernel
  have hrun : (emptyStream.nativeHostedToolLoop (PendingLedger.run retainedOnce).state).map
      (fun result => (result.1.failed, (result.2.groups.get ("resp_a" : Text)).isSome)) =
        some (true, false) := by decide +kernel
  obtain ⟨continuation, hconsumed, hid⟩ := Option.map_eq_some_iff.mp hid
  obtain ⟨⟨answer, after⟩, hanswer, hresult⟩ := Option.map_eq_some_iff.mp hrun
  obtain ⟨hfailed, hgone⟩ := Prod.mk.inj hresult
  refine ⟨continuation, answer, after, hconsumed, hanswer, hfailed, ?_⟩
  intro hkeeps
  obtain ⟨group, _, hget⟩ := hkeeps.registered
  rw [hid] at hget
  rw [hget] at hgone
  cases hgone

end HostedRequest
end CodeSeeX.Native
