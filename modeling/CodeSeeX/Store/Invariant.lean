import CodeSeeX.Store.Operations

/-!
# The store invariant

What every run of store operations keeps: the request order lists the stored
requests once each, a request is stored under its own id, the events carry
timestamps of the clock, and a cached summary was computed from some such state.
-/
namespace CodeSeeX.Store
open Option AList List

variable {id : Text} {f : StoredRequest → StoredRequest} {event : EventRecord} (now : DateTime)

section Crates
variable {crates : StoreCrates} {redactSecretText : Text → Text}

/-- A text that the clock printed. -/
def IsTimestamp (crates : StoreCrates) (text : Text) : Prop :=
  ∃ time, text = crates.toRfc3339 time

def EventsTimed (crates : StoreCrates) (inner : StoreInner) : Prop :=
  ∀ event ∈ inner.events, IsTimestamp crates event.ts

structure WellFormed (crates : StoreCrates) (inner : StoreInner) : Prop where
  order_nodup : inner.requestOrder.Nodup
  order_mem : ∀ id, id ∈ inner.requestOrder ↔ id ∈ inner.requests
  keyed : ∀ id request, inner.requests.lookup id = some request → request.id = id
  events_timed : EventsTimed crates inner
  cache_computed : ∀ cache, inner.usageCache = some cache →
    ∃ source now, EventsTimed crates source ∧
      cache.summary = freshUsageSummary crates source now

/-- The state into which a new request has been put, before pruning. -/
def insertRequest (crates : StoreCrates) (inner : StoreInner) (now : DateTime) (id : Text)
    (previousResponseId model : Option Text) (input : Value) : StoreInner :=
  { inner with
    requests := inner.requests.insert id
      { id := id
        previousResponseId := previousResponseId
        status := .inProgress
        model := model
        input := requestInputForRuntime crates previousResponseId input
        response := .null
        turnMessages := []
        toolFacts := []
        diagnostic := none
        createdAt := now
        updatedAt := now }
    requestOrder := pushRequestOrder inner.requestOrder id }

variable {inner : StoreInner}

theorem checkpointRequest_new (h : id ∉ inner.requests) (now : DateTime)
    (previousResponseId model : Option Text) (input : Value) :
    checkpointRequest crates inner now id previousResponseId model input =
      bumpUsageRevision (pruneRuntimeRequests
        (insertRequest crates inner now id previousResponseId model input) now) := by
  rw [checkpointRequest, if_neg h]
  rfl

namespace WellFormed

theorem default : WellFormed crates StoreInner.default where
  order_nodup := nodup_nil
  order_mem := by simp [StoreInner.default]
  keyed := by simp [StoreInner.default]
  events_timed := by simp [EventsTimed, StoreInner.default]
  cache_computed := by simp [StoreInner.default]

variable {inner : StoreInner}

/-- The invariant reads the requests, their order, the events, and a cache that is there. -/
theorem of_frame {inner' : StoreInner} (h : WellFormed crates inner)
    (horder : inner'.requestOrder = inner.requestOrder)
    (hrequests : inner'.requests = inner.requests) (hevents : inner'.events = inner.events)
    (hcache : inner'.usageCache = inner.usageCache ∨ inner'.usageCache = none) :
    WellFormed crates inner' where
  order_nodup := horder ▸ h.order_nodup
  order_mem := by
    rw [horder, hrequests]
    exact h.order_mem
  keyed := hrequests ▸ h.keyed
  events_timed := by
    have htimed := h.events_timed
    simpa only [EventsTimed, hevents] using htimed
  cache_computed := by
    intro cache hsome
    rcases hcache with heq | hnone
    · exact h.cache_computed cache (heq ▸ hsome)
    · simp [hnone] at hsome

theorem bumpUsageRevision (h : WellFormed crates inner) :
    WellFormed crates (bumpUsageRevision inner) :=
  h.of_frame rfl rfl rfl (.inr rfl)

variable {requests : HashMap Text StoredRequest}

/-- Requests may change in place as long as they keep their ids. -/
theorem withRequests (h : WellFormed crates inner)
    (hmem : ∀ id, id ∈ requests ↔ id ∈ inner.requests)
    (hkeyed : ∀ id request, requests.lookup id = some request → request.id = id) :
    WellFormed crates { inner with requests := requests } where
  order_nodup := h.order_nodup
  order_mem := fun id => (h.order_mem id).trans (hmem id).symm
  keyed := hkeyed
  events_timed := h.events_timed
  cache_computed := h.cache_computed

theorem updateRequest (h : WellFormed crates inner) (id : Text)
    (hf : ∀ request, (f request).id = request.id) :
    WellFormed crates (updateRequest inner id f) := by
  apply h.withRequests
  · exact fun other => HashMap.mem_modify inner.requests id other f
  · intro other request hlook
    by_cases hother : other = id
    · subst hother
      rw [HashMap.lookup_modify_self, map_eq_some_iff] at hlook
      obtain ⟨stored, hstored, rfl⟩ := hlook
      rw [hf, h.keyed other stored hstored]
    · rw [HashMap.lookup_modify_ne _ _ hother] at hlook
      exact h.keyed other request hlook

theorem mapRequests (h : WellFormed crates inner) (hf : ∀ request, (f request).id = request.id) :
    WellFormed crates { inner with requests := inner.requests.mapValues f } := by
  apply h.withRequests
  · intro id
    rw [AList.mem_keys, AList.mem_keys, HashMap.keys_mapValues]
  · intro id request hlook
    rw [HashMap.lookup_mapValues, map_eq_some_iff] at hlook
    obtain ⟨stored, hstored, rfl⟩ := hlook
    rw [hf, h.keyed id stored hstored]

/-! ## Pruning -/

/-- What pruning keeps between the map and the order. -/
structure OrderMatches (requests : HashMap Text StoredRequest) (order : List Text) : Prop where
  nodup : order.Nodup
  mem : ∀ id, id ∈ order ↔ id ∈ requests

theorem orderMatches_rotate {rest : List Text} (h : OrderMatches requests (id :: rest)) :
    OrderMatches requests (rest ++ [id]) := by
  have hperm : (rest ++ [id]).Perm (id :: rest) := perm_append_singleton id rest
  exact ⟨hperm.nodup_iff.mpr h.nodup, fun other => hperm.mem_iff.trans (h.mem other)⟩

theorem orderMatches_erase {rest : List Text} (h : OrderMatches requests (id :: rest)) :
    OrderMatches (requests.erase id) rest := by
  have hnodup := nodup_cons.mp h.nodup
  refine ⟨hnodup.2, fun other => ?_⟩
  rw [mem_erase, ← h.mem other, mem_cons]
  constructor
  · intro hrest
    exact ⟨fun heq => hnodup.1 (heq ▸ hrest), .inr hrest⟩
  · rintro ⟨hne, hor⟩
    exact hor.resolve_left hne

theorem pruneLoop_spec (requests : HashMap Text StoredRequest) (order : List Text) (scanned : ℕ)
    (h : OrderMatches requests order) :
    OrderMatches (pruneLoop requests order scanned).1 (pruneLoop requests order scanned).2 ∧
      ∀ id request, (pruneLoop requests order scanned).1.lookup id = some request →
        requests.lookup id = some request := by
  fun_induction pruneLoop requests order scanned with
  | case1 => exact ⟨h, fun _ _ hlook => hlook⟩
  | case2 => exact ⟨h, fun _ _ hlook => hlook⟩
  | case3 => exact ⟨orderMatches_rotate h, fun _ _ hlook => hlook⟩
  | case4 _ _ _ _ _ _ _ ih => exact ih (orderMatches_rotate h)
  | case5 requests scanned _ id rest _ ih =>
    obtain ⟨hmatches, hlookup⟩ := ih (orderMatches_erase h)
    refine ⟨hmatches, fun other request hlook => ?_⟩
    have herased := hlookup other request hlook
    by_cases hother : other = id
    · subst hother
      simp at herased
    · rwa [lookup_erase_ne hother] at herased

theorem markStaleInProgressRequests (h : WellFormed crates inner) (now : DateTime) :
    WellFormed crates (markStaleInProgressRequests inner now) := by
  have hmarked := h.mapRequests (f := fun request =>
    if isStale now request then interrupt now staleDiagnostic request else request)
    (fun request => by split <;> rfl)
  unfold Store.markStaleInProgressRequests
  split
  · exact hmarked.bumpUsageRevision
  · exact hmarked

theorem pruneRuntimeRequests (h : WellFormed crates inner) (now : DateTime) :
    WellFormed crates (pruneRuntimeRequests inner now) := by
  have hmarked := h.markStaleInProgressRequests now
  obtain ⟨hmatches, hlookup⟩ :=
    pruneLoop_spec _ _ 0 ⟨hmarked.order_nodup, hmarked.order_mem⟩
  exact
    { order_nodup := hmatches.nodup
      order_mem := hmatches.mem
      keyed := fun id request hlook => hmarked.keyed id request (hlookup id request hlook)
      events_timed := hmarked.events_timed
      cache_computed := hmarked.cache_computed }

/-! ## Operations -/

section
variable (h : WellFormed crates inner)
include h

theorem insertRequest (hnew : id ∉ inner.requests) (now : DateTime)
    (previousResponseId model : Option Text) (input : Value) :
    WellFormed crates (insertRequest crates inner now id previousResponseId model input) := by
  have hfresh : id ∉ inner.requestOrder := fun hmem => hnew ((h.order_mem id).mp hmem)
  have hpush : pushRequestOrder inner.requestOrder id = inner.requestOrder ++ [id] := by
    rw [pushRequestOrder, erase_of_not_mem hfresh]
  exact
    { order_nodup := by
        rw [Store.insertRequest, hpush]
        exact (perm_append_singleton id _).nodup_iff.mpr
          (nodup_cons.mpr ⟨hfresh, h.order_nodup⟩)
      order_mem := by
        intro other
        rw [Store.insertRequest, hpush, mem_insert, ← h.order_mem other]
        simp [or_comm]
      keyed := by
        intro other request hlook
        rw [Store.insertRequest] at hlook
        by_cases hother : other = id
        · subst hother
          rw [lookup_insert, some_inj] at hlook
          rw [← hlook]
        · rw [lookup_insert_ne hother] at hlook
          exact h.keyed other request hlook
      events_timed := h.events_timed
      cache_computed := h.cache_computed }

section
variable (now : DateTime)

theorem checkpointRequest (id : Text)
    (previousResponseId model : Option Text) (input : Value) :
    WellFormed crates (checkpointRequest crates inner now id previousResponseId model input) := by
  by_cases hmem : id ∈ inner.requests
  · rw [Store.checkpointRequest, if_pos hmem]
    exact h
  · rw [checkpointRequest_new hmem]
    exact ((h.insertRequest hmem now previousResponseId model input).pruneRuntimeRequests
      now).bumpUsageRevision

theorem finishRequest (id : Text)
    (status : RequestStatus) (response diagnostic : Option Value) :
    WellFormed crates (finishRequest crates inner now id status response diagnostic) := by
  unfold Store.finishRequest
  split
  · exact h
  · split
    · exact h
    · exact (h.updateRequest id (by intro request; rfl)).bumpUsageRevision

theorem interruptRequestIfInProgress
    (id reason : Text) : WellFormed crates (interruptRequestIfInProgress inner now id reason) := by
  unfold Store.interruptRequestIfInProgress
  split
  · exact h
  · split
    · exact h
    · exact (h.updateRequest id (by intro request; rfl)).bumpUsageRevision

theorem updateRequestDiagnostic (id : Text)
    (diagnostic : Value) :
    WellFormed crates (updateRequestDiagnostic crates inner now id diagnostic) := by
  unfold Store.updateRequestDiagnostic
  split
  · exact h
  · exact (h.updateRequest id (by intro request; rfl)).bumpUsageRevision

theorem settleClientToolHandoffOutputs (requestId : Text) (diagnostics : List Value) :
    WellFormed crates (settleClientToolHandoffOutputs crates inner now requestId diagnostics) := by
  induction diagnostics generalizing inner with
  | nil => exact h
  | cons diagnostic diagnostics ih =>
    exact ih (h.updateRequestDiagnostic now requestId diagnostic)

theorem recoverInterruptedRequests
    (reason : Text) : WellFormed crates (recoverInterruptedRequests inner now reason) := by
  have hrecovered := h.mapRequests (f := fun request =>
    if request.status = .inProgress then interrupt now (reasonDiagnostic reason) request
    else request) (fun request => by split <;> rfl)
  unfold Store.recoverInterruptedRequests
  split
  · exact hrecovered.bumpUsageRevision
  · exact hrecovered

theorem applyUpstreamUsageEventToRequest (event : EventRecord) :
    WellFormed crates (applyUpstreamUsageEventToRequest inner now event) := by
  unfold Store.applyUpstreamUsageEventToRequest
  split
  · exact h
  · exact h.updateRequest _ (by intro request; rfl)

end

theorem appendEvent (hevent : IsTimestamp crates event.ts) :
    WellFormed crates (appendEvent inner event) where
  order_nodup := h.order_nodup
  order_mem := h.order_mem
  keyed := h.keyed
  events_timed := by
    intro other hmem
    rcases mem_append.mp ((newest_sublist _ _).subset hmem) with hmem | hmem
    · exact h.events_timed other hmem
    · rw [mem_singleton.mp hmem]
      exact hevent
  cache_computed := h.cache_computed

theorem pushRuntimeEvent (hevent : IsTimestamp crates event.ts) :
    WellFormed crates (pushRuntimeEvent inner now event) := by
  have happlied : WellFormed crates
      (bumpEventRevision (Store.applyUpstreamUsageEventToRequest inner now event)) :=
    (h.applyUpstreamUsageEventToRequest now event).of_frame rfl rfl rfl (.inl rfl)
  apply WellFormed.appendEvent _ hevent
  split
  · exact happlied.bumpUsageRevision
  · exact happlied

theorem recordEvent (level eventType audience message : Text) (detail : Option Value) :
    WellFormed crates (recordEvent crates inner now level eventType audience message detail) := by
  apply WellFormed.pushRuntimeEvent
  · exact h.of_frame rfl rfl rfl (.inl rfl)
  · exact ⟨now, rfl⟩

theorem cachedUsageSummary :
    WellFormed crates (cachedUsageSummary crates inner now).2 := by
  unfold Store.cachedUsageSummary
  split
  · exact h
  · exact
      { order_nodup := h.order_nodup
        order_mem := h.order_mem
        keyed := h.keyed
        events_timed := h.events_timed
        cache_computed := by
          intro cache hcache
          obtain rfl := some_inj.mp hcache
          exact ⟨inner, now, h.events_timed, rfl⟩ }

theorem usagePage (limit : ℕ) (cursor : Option Text) (sinceRevision : Option ℕ) :
    WellFormed crates (usagePage crates inner now limit cursor sinceRevision).2 := by
  unfold Store.usagePage
  split
  · exact h
  · exact h.cachedUsageSummary now

theorem setPricingTable (pricing : Pricing.PricingTable) :
    WellFormed crates (setPricingTable inner pricing) := by
  unfold Store.setPricingTable
  split
  · exact h.of_frame rfl rfl rfl (.inr rfl)
  · exact h

theorem perform (now : DateTime) (operation : Operation) :
    WellFormed crates (perform crates redactSecretText inner now operation) := by
  cases operation with
  | setPricingTable pricing => exact h.setPricingTable pricing
  | checkpointRequest id previousResponseId model input =>
    exact h.checkpointRequest now id previousResponseId model input
  | appendRequestToolFact id fact => exact h.updateRequest id (by intro request; rfl)
  | replaceRequestTurnMessages id messages => exact h.updateRequest id (by intro request; rfl)
  | appendRequestTurnMessages id messages =>
    simp only [Store.perform, Store.appendRequestTurnMessages]
    split
    · exact h
    · exact h.updateRequest id (by intro request; rfl)
  | finishRequest id status response diagnostic =>
    exact h.finishRequest now id status response diagnostic
  | interruptRequestIfInProgress id reason => exact h.interruptRequestIfInProgress now id reason
  | updateRequestDiagnostic id diagnostic => exact h.updateRequestDiagnostic now id diagnostic
  | settleClientToolHandoffOutputs requestId diagnostics =>
    exact h.settleClientToolHandoffOutputs now requestId diagnostics
  | recordClientToolHandoffCalls requestId diagnostics =>
    exact (h.settleClientToolHandoffOutputs now requestId diagnostics).bumpUsageRevision
  | recoverInterruptedRequests reason => exact h.recoverInterruptedRequests now reason
  | recordEvent level eventType audience message detail =>
    exact h.recordEvent now level eventType audience message detail
  | usagePage limit cursor sinceRevision => exact h.usagePage now limit cursor sinceRevision
  | usageSessionDetail _ => exact h.cachedUsageSummary now

theorem run (operations : List (DateTime × Operation)) :
    WellFormed crates (run crates redactSecretText inner operations) := by
  induction operations generalizing inner with
  | nil => exact h
  | cons operation operations ih => exact ih (h.perform operation.1 operation.2)

end

end WellFormed

/-- Every state that the store can be in is well formed. -/
theorem Reachable.wellFormed (h : Reachable crates redactSecretText inner) :
    WellFormed crates inner := by
  obtain ⟨operations, rfl⟩ := h
  exact WellFormed.default.run operations

/-- In a well-formed state the ordered requests are the stored ones, once each. -/
theorem WellFormed.orderedRequests_ids (h : WellFormed crates inner) :
    inner.orderedRequests.map StoredRequest.id = inner.requestOrder := by
  have hmap : ∀ order : List Text, (∀ id ∈ order, id ∈ inner.requests) →
      (order.filterMap fun id => inner.requests.lookup id).map StoredRequest.id = order := by
    intro order hstored
    induction order with
    | nil => rfl
    | cons id order ih =>
      obtain ⟨request, hrequest⟩ :=
        isSome_iff_exists.mp (lookup_isSome.mpr (hstored id mem_cons_self))
      rw [@filterMap_cons_some _ _ (fun id => inner.requests.lookup id) _ _ _ hrequest,
        map_cons, h.keyed id request hrequest,
        ih fun other hmem => hstored other (mem_cons_of_mem _ hmem)]
  exact hmap inner.requestOrder fun id hmem => (h.order_mem id).mp hmem

theorem WellFormed.mem_orderedRequests (h : WellFormed crates inner) {request : StoredRequest} :
    request ∈ inner.orderedRequests ↔ inner.requests.lookup request.id = some request := by
  simp only [StoreInner.orderedRequests, mem_filterMap]
  constructor
  · rintro ⟨id, _, hlook⟩
    rwa [h.keyed id request hlook]
  · intro hlook
    exact ⟨request.id, (h.order_mem _).mpr (lookup_isSome.mp (by simp [hlook])), hlook⟩

end Crates
end CodeSeeX.Store
