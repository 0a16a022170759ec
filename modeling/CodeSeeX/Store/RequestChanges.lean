import CodeSeeX.Store.RequestOrder

/-!
# What an operation does to a stored request

A request that is stored before and after an operation is what it was, or one of
its parts was replaced: its tool facts by a fact that was appended, its turn
messages, its diagnostic, its outcome by a finish, its response by the usage of
an event, or it was interrupted while it was in progress.
-/
namespace CodeSeeX.Store
open Option HashMap

section Crates
variable (crates : StoreCrates) (redactSecretText : Text → Text)

/-- The event that an operation records, with the usage that it leaves in a request. -/
def recordedUsage (inner : StoreInner) (now : DateTime) : Operation → Option (Text × Value)
  | .recordEvent level eventType audience message detail =>
      upstreamUsageUpdate inner
        { id := min (inner.nextEventId + 1) (2 ^ 63 - 1)
          level := level
          eventType := eventType
          audience := some audience
          message := message
          detail := detail
          ts := crates.toRfc3339 now }
  | _ => none

/-- The request that an operation makes of a stored one. -/
inductive Change (inner : StoreInner) (now : DateTime) (id : Text) (op : Operation)
    (request : StoredRequest) : StoredRequest → Prop where
  | kept : Change inner now id op request request
  | interrupted (diagnostic : Value) (hstatus : request.status = .inProgress) :
      Change inner now id op request (interrupt now diagnostic request)
  | toolFact (fact : Text) (hop : op = .appendRequestToolFact id fact) :
      Change inner now id op request { request with
        toolFacts := appendToolFact crates redactSecretText request.toolFacts fact
        updatedAt := now }
  | turnMessages (messages : List Value) :
      Change inner now id op request { request with turnMessages := messages, updatedAt := now }
  | diagnostic (diagnostic : Option Value) (updatedAt : DateTime) :
      Change inner now id op request
        { request with diagnostic := diagnostic, updatedAt := updatedAt }
  | finished (status : RequestStatus) (response diagnostic : Option Value)
      (hop : op = .finishRequest id status response diagnostic)
      (hstatus : request.status ≠ .interrupted) :
      Change inner now id op request
        (finishedRequest crates now status response diagnostic request)
  | usage (response : Value) (hop : recordedUsage crates inner now op = some (id, response)) :
      Change inner now id op request { request with response := response, updatedAt := now }

end Crates

section Changes
variable {crates : StoreCrates} {redactSecretText : Text → Text} {inner : StoreInner}
  {now : DateTime} {op : Operation} {id : Text} {request later : StoredRequest}

theorem mem_updateDiagnostic (now : DateTime) (id : Text) (diagnostic : Value) (other : Text) :
    other ∈ (updateRequestDiagnostic crates inner now id diagnostic).requests ↔
      other ∈ inner.requests := by
  unfold updateRequestDiagnostic
  split
  · rfl
  · exact mem_modify inner.requests id other _

/-- A recorded event changes requests by the usage it brings and in no other way. -/
theorem requests_recordEvent (now : DateTime) (level eventType audience message : Text)
    (detail : Option Value) :
    (recordEvent crates inner now level eventType audience message detail).requests =
      match recordedUsage crates inner now (.recordEvent level eventType audience message detail) with
      | none => inner.requests
      | some (id, response) => inner.requests.modify id fun request =>
          { request with response := response, updatedAt := now } := by
  have hpush : ∀ (state : StoreInner) (event : EventRecord),
      (pushRuntimeEvent state now event).requests =
        (applyUpstreamUsageEventToRequest state now event).requests := by
    intro state event
    unfold pushRuntimeEvent appendEvent
    split <;> rfl
  rw [recordEvent, hpush, applyUpstreamUsageEventToRequest]
  have hsame : ∀ event : EventRecord,
      upstreamUsageUpdate { inner with nextEventId := min (inner.nextEventId + 1) (2 ^ 63 - 1) }
        event = upstreamUsageUpdate inner event := fun event => rfl
  rw [hsame, recordedUsage]
  split <;> simp_all [updateRequest]

/-- An operation on the request of one id alone. -/
theorem change_modify {after : StoreInner} {other : Text} {f : StoredRequest → StoredRequest}
    (hrequests : after.requests = inner.requests.modify other f)
    (hf : other = id → Change crates redactSecretText inner now id op request (f request))
    (hbefore : inner.requests.lookup id = some request)
    (hafter : after.requests.lookup id = some later) :
    Change crates redactSecretText inner now id op request later := by
  rw [hrequests] at hafter
  by_cases hother : id = other
  · subst hother
    rw [lookup_modify_self, hbefore, map_some, some_inj] at hafter
    subst hafter
    exact hf rfl
  · rw [lookup_modify_ne _ _ hother, hbefore, some_inj] at hafter
    subst hafter
    exact .kept

theorem change_same {after : StoreInner} (hrequests : after.requests = inner.requests)
    (hbefore : inner.requests.lookup id = some request)
    (hafter : after.requests.lookup id = some later) :
    Change crates redactSecretText inner now id op request later := by
  rw [hrequests, hbefore, some_inj] at hafter
  subst hafter
  exact .kept

/-- Diagnostics that are merged one after the other leave the rest of a request. -/
theorem settle_lookup (now : DateTime) (requestId : Text) (diagnostics : List Value)
    (hbefore : inner.requests.lookup id = some request)
    (hafter : (settleClientToolHandoffOutputs crates inner now requestId
      diagnostics).requests.lookup id = some later) :
    ∃ diagnostic updatedAt,
      later = { request with diagnostic := diagnostic, updatedAt := updatedAt } := by
  unfold settleClientToolHandoffOutputs at hafter
  induction diagnostics generalizing inner request with
  | nil =>
    rw [List.foldl_nil, hbefore, some_inj] at hafter
    exact ⟨request.diagnostic, request.updatedAt, hafter.symm⟩
  | cons diagnostic diagnostics ih =>
    obtain ⟨middle, hmiddle⟩ := isSome_iff_exists.mp (AList.lookup_isSome.mpr
      ((@mem_updateDiagnostic crates _ now requestId diagnostic id).mpr
        (AList.lookup_isSome.mp (by rw [hbefore]; rfl))))
    obtain ⟨last, time, hlater⟩ := ih hmiddle hafter
    have hstep : ∃ first start,
        middle = { request with diagnostic := first, updatedAt := start } := by
      unfold updateRequestDiagnostic at hmiddle
      split at hmiddle
      · rw [hbefore, some_inj] at hmiddle
        exact ⟨request.diagnostic, request.updatedAt, hmiddle.symm⟩
      · by_cases hid : id = requestId
        · subst hid
          rw [bumpUsageRevision, updateRequest, lookup_modify_self, hbefore,
            map_some, some_inj] at hmiddle
          exact ⟨_, _, hmiddle.symm⟩
        · rw [bumpUsageRevision, updateRequest, lookup_modify_ne _ _ hid, hbefore,
            some_inj] at hmiddle
          exact ⟨request.diagnostic, request.updatedAt, hmiddle.symm⟩
    obtain ⟨first, start, rfl⟩ := hstep
    exact ⟨last, time, hlater⟩

theorem change_checkpoint (h : WellFormed crates inner) {op : Operation} {other : Text}
    {previousResponseId model : Option Text} {input : Value}
    (hop : op = .checkpointRequest other previousResponseId model input)
    (hbefore : inner.requests.lookup id = some request)
    (hafter : (perform crates redactSecretText inner now op).requests.lookup id = some later) :
    Change crates redactSecretText inner now id op request later := by
  by_cases hmem : other ∈ inner.requests
  · exact change_same (by rw [hop, perform, checkpointRequest, if_pos hmem]) hbefore hafter
  · have hid : id ≠ other := by
      rintro rfl
      exact hmem (AList.lookup_isSome.mp (by rw [hbefore]; rfl))
    have hwell := wellFormed_beforePruning redactSecretText hop hmem now h
    rw [(perform_new _ hop hmem now).1] at hafter
    have hkept := (WellFormed.pruneLoop_spec _ _ 0 ⟨hwell.order_nodup, hwell.order_mem⟩).2 id
      later hafter
    rw [lookup_beforePruning _ hop hmem now hid, hbefore, map_some, some_inj] at hkept
    split at hkept
    · rename_i hstale
      subst hkept
      simp only [isStale, decide_eq_true_eq] at hstale
      exact .interrupted _ hstale.1
    · subst hkept
      exact .kept

/-- All that one operation can do to a request that stays stored. -/
theorem change_perform (h : WellFormed crates inner) (now : DateTime) (op : Operation)
    (hbefore : inner.requests.lookup id = some request)
    (hafter : (perform crates redactSecretText inner now op).requests.lookup id = some later) :
    Change crates redactSecretText inner now id op request later := by
  cases op with
  | setPricingTable pricing =>
    refine change_same ?_ hbefore hafter
    simp only [perform, setPricingTable]
    split <;> rfl
  | checkpointRequest other previousResponseId model input =>
    exact change_checkpoint h rfl hbefore hafter
  | appendRequestToolFact other fact =>
    refine change_modify rfl ?_ hbefore hafter
    rintro rfl
    exact .toolFact fact rfl
  | replaceRequestTurnMessages other messages =>
    exact change_modify rfl (fun _ => .turnMessages _) hbefore hafter
  | appendRequestTurnMessages other messages =>
    simp only [perform, appendRequestTurnMessages] at hafter
    split at hafter
    · exact change_same rfl hbefore hafter
    · exact change_modify rfl (fun _ => .turnMessages _) hbefore hafter
  | finishRequest other status response diagnostic =>
    simp only [perform, finishRequest] at hafter
    split at hafter
    · exact change_same rfl hbefore hafter
    · rename_i stored hstored
      split at hafter
      · exact change_same rfl hbefore hafter
      · rename_i hstatus
        refine change_modify rfl ?_ hbefore hafter
        rintro rfl
        obtain rfl := some_inj.mp (hstored.symm.trans hbefore)
        exact .finished status response diagnostic rfl hstatus
  | interruptRequestIfInProgress other reason =>
    simp only [perform, interruptRequestIfInProgress] at hafter
    split at hafter
    · exact change_same rfl hbefore hafter
    · rename_i stored hstored
      split at hafter
      · exact change_same rfl hbefore hafter
      · rename_i hrunning
        refine change_modify rfl ?_ hbefore hafter
        rintro rfl
        obtain rfl := some_inj.mp (hstored.symm.trans hbefore)
        exact .interrupted _ (not_not.mp hrunning)
  | updateRequestDiagnostic other diagnostic =>
    obtain ⟨merged, updatedAt, rfl⟩ := settle_lookup now other [diagnostic] hbefore hafter
    exact .diagnostic merged updatedAt
  | settleClientToolHandoffOutputs other diagnostics =>
    obtain ⟨merged, updatedAt, rfl⟩ := settle_lookup now other diagnostics hbefore hafter
    exact .diagnostic merged updatedAt
  | recordClientToolHandoffCalls other diagnostics =>
    obtain ⟨merged, updatedAt, rfl⟩ := settle_lookup now other diagnostics hbefore hafter
    exact .diagnostic merged updatedAt
  | recoverInterruptedRequests reason =>
    have hrequests : (recoverInterruptedRequests inner now reason).requests =
        inner.requests.mapValues fun request =>
          if request.status = .inProgress then interrupt now (reasonDiagnostic reason) request
          else request := by
      unfold recoverInterruptedRequests
      split <;> rfl
    rw [perform, hrequests, lookup_mapValues, hbefore, map_some,
      some_inj] at hafter
    split at hafter
    · rename_i hrunning
      subst hafter
      exact .interrupted _ hrunning
    · subst hafter
      exact .kept
  | recordEvent level eventType audience message detail =>
    have hrequests := @requests_recordEvent crates inner now level eventType audience message detail
    split at hrequests
    · exact change_same hrequests hbefore hafter
    · rename_i husage
      refine change_modify hrequests ?_ hbefore hafter
      rintro rfl
      exact .usage _ husage
  | usagePage limit cursor sinceRevision =>
    refine change_same ?_ hbefore hafter
    simp only [perform, usagePage, cachedUsageSummary]
    split
    · rfl
    · split <;> rfl
  | usageSessionDetail other =>
    refine change_same ?_ hbefore hafter
    simp only [perform, cachedUsageSummary]
    split <;> rfl

end Changes

/-- A store with one request, in progress. -/
def checkpointed : StoreInner :=
  run epochCrates id StoreInner.default [(0, .checkpointRequest "resp_a" none none .null)]

theorem checkpointed_reachable : Reachable epochCrates id checkpointed := ⟨_, rfl⟩

end CodeSeeX.Store
