import CodeSeeX.General.Eviction
import CodeSeeX.Store.Invariant

/-!
# The order of the requests

The store lists its requests in `request_order`, and pruning evicts from the front
of it. A request in progress is passed over and moved to the back, so the list
keeps the order of the checkpoints exactly as long as no pruning passes over one.
-/
namespace CodeSeeX.Store
open List Option HashMap AList

/-! ## The prune loop -/

/-- The loop may evict the request: it is not in progress. -/
def isEvictable (requests : HashMap Text StoredRequest) (id : Text) : Bool :=
  (requests.lookup id).map StoredRequest.status ≠ some .inProgress

/-- How many requests the loop evicts. -/
def evictedCount (requests : HashMap Text StoredRequest) (order : List Text) : ℕ :=
  min (requests.entries.length - maxRuntimeRequests) (order.countP (isEvictable requests))

variable {requests : HashMap Text StoredRequest}

theorem isEvictable_erase {id other : Text}
    (hne : other ≠ id) : isEvictable (requests.erase id) other = isEvictable requests other := by
  simp only [isEvictable, lookup_erase_ne hne]

theorem entries_length_erase {id : Text} (h : id ∈ requests) :
    (requests.erase id).entries.length + 1 = requests.entries.length := by
  obtain ⟨request, hlook⟩ := isSome_iff_exists.mp (lookup_isSome.mpr h)
  have hperm := (values_perm_erase hlook).length_eq
  simpa [values] using hperm.symm

variable {ids : List Text}

theorem countP_isEvictable_erase {id : Text} (h : id ∉ ids) :
    ids.countP (isEvictable (requests.erase id)) = ids.countP (isEvictable requests) := by
  apply countP_congr
  intro other hmem
  have hne : other ≠ id := fun heq => h (heq ▸ hmem)
  rw [isEvictable_erase hne]

/-- Evicting an entry leaves one less to evict. -/
theorem evictedCount_erase {id : Text}
    {front back : List Text} (hlarge : ¬ requests.entries.length ≤ maxRuntimeRequests)
    (hid : id ∈ requests) (hevictable : isEvictable requests id = true)
    (hnotMem : id ∉ front ++ back) (hback : ∀ other ∈ back, isEvictable requests other = false) :
    evictedCount requests (id :: front) = evictedCount (requests.erase id) (front ++ back) + 1 := by
  have hlength := entries_length_erase hid
  have hnone : back.countP (isEvictable requests) = 0 := by
    rw [countP_eq_zero]
    intro other hmem
    simp [hback other hmem]
  rw [evictedCount, evictedCount, countP_isEvictable_erase hnotMem, countP_append, hnone,
    countP_cons_of_pos hevictable]
  omega

/-- The queue that the loop leaves, `back` being what it has passed over since the last eviction. -/
theorem pruneLoop_order (requests : HashMap Text StoredRequest) (order : List Text) (scanned : ℕ)
    (h : WellFormed.OrderMatches requests order) (front back : List Text)
    (horder : order = front ++ back) (hscanned : back.length = scanned)
    (hfront : front ≠ [] ∨ order = [])
    (hback : ∀ id ∈ back, isEvictable requests id = false) :
    (pruneLoop requests order scanned).2 =
      if evictedCount requests front = 0 then
        if requests.entries.length ≤ maxRuntimeRequests then order else back ++ front
      else Eviction.evict (isEvictable requests) (evictedCount requests front) front back := by
  fun_induction pruneLoop requests order scanned generalizing front back with
  | case1 requests order scanned hle =>
    have hzero : evictedCount requests front = 0 := by
      rw [evictedCount, Nat.sub_eq_zero_of_le hle, Nat.zero_min]
    rw [if_pos hzero, if_pos hle]
  | case2 requests scanned hle =>
    obtain ⟨rfl, rfl⟩ := append_eq_nil_iff.mp horder.symm
    simp [evictedCount]
  | case3 requests scanned hlarge id rest hprotected hfull =>
    have hkept : isEvictable requests id = false := by simp [isEvictable, hprotected]
    cases front with
    | nil => simp at hfront
    | cons first front =>
      rw [cons_append, cons.injEq] at horder
      obtain ⟨rfl, hrest⟩ := horder
      have hlength := congrArg length hrest
      obtain rfl : front = [] := by
        apply eq_nil_of_length_eq_zero
        simp only [length_append, length_singleton] at hfull hlength
        omega
      have hzero : evictedCount requests [id] = 0 := by simp [evictedCount, hkept]
      rw [if_pos hzero, if_neg hlarge, hrest, nil_append]
  | case4 requests scanned hlarge id rest hprotected hmore ih =>
    have hkept : isEvictable requests id = false := by simp [isEvictable, hprotected]
    cases front with
    | nil => simp at hfront
    | cons first front =>
      rw [cons_append, cons.injEq] at horder
      obtain ⟨rfl, hrest⟩ := horder
      have hlength := congrArg length hrest
      have hnonempty : front ≠ [] := by
        rintro rfl
        simp only [length_append, length_singleton, nil_append] at hmore hlength
        omega
      have hcount : evictedCount requests (id :: front) = evictedCount requests front := by
        rw [evictedCount, evictedCount, countP_cons_of_neg (by simp [hkept])]
      rw [ih (WellFormed.orderMatches_rotate h) front (back ++ [id]) (by rw [hrest]; simp)
        (by simp [hscanned]) (Or.inl hnonempty), hcount]
      · split
        · simp
        · rename_i hpos
          rw [Eviction.evict_cons_kept hkept (Nat.pos_of_ne_zero hpos)]
      · intro other hmem
        rcases mem_append.mp hmem with hmem | hmem
        · exact hback other hmem
        · rw [mem_singleton.mp hmem, hkept]
  | case5 requests scanned hlarge id rest hevictable ih =>
    have hfree : isEvictable requests id = true := by simpa [isEvictable] using hevictable
    cases front with
    | nil => simp at hfront
    | cons first front =>
      rw [cons_append, cons.injEq] at horder
      obtain ⟨rfl, hrest⟩ := horder
      have hnodup := (nodup_cons.mp h.nodup).1
      rw [hrest] at hnodup
      have hcount := evictedCount_erase hlarge ((h.mem id).mp mem_cons_self) hfree hnodup hback
      rw [ih (WellFormed.orderMatches_erase h) rest [] (by simp) rfl (ne_or_eq rest []) (by simp),
        hrest, hcount, if_neg (Nat.succ_ne_zero _), Eviction.evict_cons_free hfree]
      have hbelow : evictedCount (requests.erase id) (front ++ back) ≤
          front.countP (isEvictable requests) := by
        have hle : evictedCount requests (id :: front) ≤
            (id :: front).countP (isEvictable requests) := Nat.min_le_right _ _
        rw [hcount, countP_cons_of_pos hfree] at hle
        omega
      split
      · rename_i hzero
        rw [hzero]
        simp [Eviction.evict]
      · have hsame : ∀ other ∈ front ++ back,
            isEvictable (requests.erase id) other = isEvictable requests other := by
          intro other hmem
          apply isEvictable_erase
          rintro rfl
          exact hnodup hmem
        rw [Eviction.evict_congr hsame, Eviction.evict_append hbelow, append_nil]

variable {order : List Text}

/-- The loop of a whole pruning. -/
theorem pruneLoop_order_start (h : WellFormed.OrderMatches requests order) :
    (pruneLoop requests order 0).2 =
      Eviction.evict (isEvictable requests) (evictedCount requests order) order [] := by
  rw [pruneLoop_order requests order 0 h order [] (by simp) rfl (ne_or_eq order []) (by simp)]
  split
  · rename_i hzero
    rw [hzero]
    simp [Eviction.evict]
  · rfl

/-- A request in progress stays. -/
theorem pruneLoop_keeps {scanned : ℕ}
    {id : Text} {request : StoredRequest} (hlook : requests.lookup id = some request)
    (hstatus : request.status = .inProgress) :
    (pruneLoop requests order scanned).1.lookup id = some request := by
  fun_induction pruneLoop requests order scanned with
  | case1 => exact hlook
  | case2 => exact hlook
  | case3 => exact hlook
  | case4 _ _ _ _ _ _ _ ih => exact ih hlook
  | case5 requests scanned _ other rest hevictable ih =>
    apply ih
    have hne : id ≠ other := by
      rintro rfl
      simp [hlook, hstatus] at hevictable
    rwa [lookup_erase_ne hne]

theorem orderMatches_perm
    (h : WellFormed.OrderMatches requests order) : order.Perm requests.keys := by
  rw [perm_ext_iff_of_nodup h.nodup requests.keys_nodup]
  intro id
  rw [h.mem id, AList.mem_keys]

/-- The number of requests the loop may evict. -/
def finishedCount (requests : HashMap Text StoredRequest) : ℕ :=
  requests.values.countP fun request => request.status ≠ .inProgress

theorem countP_isEvictable (h : WellFormed.OrderMatches requests order) :
    order.countP (isEvictable requests) = finishedCount requests := by
  rw [(orderMatches_perm h).countP_eq, finishedCount, HashMap.values, AList.keys, List.keys,
    countP_map, countP_map]
  apply countP_congr
  intro entry hmem
  have hlook : requests.lookup entry.1 = some entry.2 := mem_lookup_iff.mpr hmem
  simp [isEvictable, hlook]

theorem pruneLoop_size (h : WellFormed.OrderMatches requests order)
    (hfinished : requests.entries.length - maxRuntimeRequests ≤ finishedCount requests) :
    (pruneLoop requests order 0).1.entries.length ≤ maxRuntimeRequests := by
  obtain ⟨hmatches, _⟩ := WellFormed.pruneLoop_spec requests order 0 h
  have hcount : evictedCount requests order = requests.entries.length - maxRuntimeRequests := by
    rw [evictedCount, countP_isEvictable h, Nat.min_eq_left hfinished]
  have hlength := Eviction.evict_length
    (show evictedCount requests order ≤ order.countP (isEvictable requests) from
      Nat.min_le_right _ _) []
  have hbefore := (orderMatches_perm h).length_eq
  have hafter := (orderMatches_perm hmatches).length_eq
  rw [pruneLoop_order_start h] at hafter
  simp only [AList.keys, List.keys, length_map, length_nil] at hlength hbefore hafter
  omega

/-! ## Checkpoints -/

section Crates
variable (crates : StoreCrates) (redactSecretText : Text → Text)

/-- What the prune loop of a step works on: the new request is in, stale ones are interrupted. -/
def beforePruning (inner : StoreInner) (now : DateTime) : Operation → StoreInner
  | .checkpointRequest id previousResponseId model input =>
      if id ∈ inner.requests then inner
      else markStaleInProgressRequests
        (insertRequest crates inner now id previousResponseId model input) now
  | op => perform crates redactSecretText inner now op

/-- The ids in the order of their checkpoints, one evicted and checkpointed again at its new
place. -/
def checkpointLog (inner : StoreInner) (log : List Text) : Operation → List Text
  | .checkpointRequest id _ _ _ =>
      if id ∈ inner.requests then log else pushRequestOrder log id
  | _ => log

/-- A run beside the log of its checkpoints. -/
def runLogged (operations : List (DateTime × Operation)) : StoreInner × List Text :=
  operations.foldl
    (fun acc op => (perform crates redactSecretText acc.1 op.1 op.2, checkpointLog acc.1 acc.2 op.2))
    (StoreInner.default, [])

/-! ## What is kept -/

/-- The order lists the stored requests once each, as they were checkpointed. -/
structure OrderKept (inner : StoreInner) (log : List Text) : Prop where
  nodup : inner.requestOrder.Nodup
  mem : ∀ id, id ∈ inner.requestOrder ↔ id ∈ inner.requests
  log_nodup : log.Nodup
  ordered : inner.requestOrder.Sublist log

/-- What pruning keeps in one step. -/
structure PruningKeeps (inner : StoreInner) (now : DateTime) (op : Operation) : Prop where
  inProgress : ∀ id request,
    (beforePruning crates redactSecretText inner now op).requests.lookup id = some request →
    request.status = .inProgress →
    (perform crates redactSecretText inner now op).requests.lookup id = some request
  checkpointed : ∀ id previousResponseId model input,
    op = .checkpointRequest id previousResponseId model input →
    id ∈ (perform crates redactSecretText inner now op).requests
  size : ∀ id previousResponseId model input,
    op = .checkpointRequest id previousResponseId model input → id ∉ inner.requests →
    (beforePruning crates redactSecretText inner now op).requests.entries.length -
      maxRuntimeRequests ≤
        finishedCount (beforePruning crates redactSecretText inner now op).requests →
    (perform crates redactSecretText inner now op).requests.entries.length ≤ maxRuntimeRequests

/-- The entries that a checkpoint evicts are the oldest ones. -/
def EvictsOldest (inner : StoreInner) (now : DateTime) (op : Operation) : Prop :=
  ∀ id previousResponseId model input,
    op = .checkpointRequest id previousResponseId model input → id ∉ inner.requests →
    ∀ other ∈ (beforePruning crates redactSecretText inner now op).requestOrder.take
        (evictedCount (beforePruning crates redactSecretText inner now op).requests
          (beforePruning crates redactSecretText inner now op).requestOrder),
      isEvictable (beforePruning crates redactSecretText inner now op).requests other = true

variable {crates : StoreCrates} {redactSecretText : Text → Text} {inner : StoreInner}

section
variable (now : DateTime) {op : Operation}
  (h : ∀ id previousResponseId model input, op ≠ .checkpointRequest id previousResponseId model input)
include h

/-- Only a checkpoint changes the order. -/
theorem requestOrder_perform :
    (perform crates redactSecretText inner now op).requestOrder = inner.requestOrder := by
  have hupdate : ∀ (inner : StoreInner) (diagnostics : List Value) (id : Text),
      (settleClientToolHandoffOutputs crates inner now id diagnostics).requestOrder =
        inner.requestOrder := by
    intro inner diagnostics id
    unfold settleClientToolHandoffOutputs
    induction diagnostics generalizing inner with
    | nil => rfl
    | cons diagnostic diagnostics ih =>
      rw [foldl_cons, ih, updateRequestDiagnostic]
      split <;> rfl
  have hcached : (cachedUsageSummary crates inner now).2.requestOrder = inner.requestOrder := by
    unfold cachedUsageSummary
    split <;> rfl
  cases op with
  | setPricingTable pricing =>
    simp only [perform, setPricingTable]
    split <;> rfl
  | checkpointRequest id previousResponseId model input =>
    exact absurd rfl (h id previousResponseId model input)
  | appendRequestToolFact id fact => rfl
  | replaceRequestTurnMessages id messages => rfl
  | appendRequestTurnMessages id messages =>
    simp only [perform, appendRequestTurnMessages]
    split <;> rfl
  | finishRequest id status response diagnostic =>
    simp only [perform, finishRequest]
    split
    · rfl
    · split <;> rfl
  | interruptRequestIfInProgress id reason =>
    simp only [perform, interruptRequestIfInProgress]
    split
    · rfl
    · split <;> rfl
  | updateRequestDiagnostic id diagnostic =>
    exact hupdate inner [diagnostic] id
  | settleClientToolHandoffOutputs requestId diagnostics =>
    exact hupdate inner diagnostics requestId
  | recordClientToolHandoffCalls requestId diagnostics =>
    exact hupdate inner diagnostics requestId
  | recoverInterruptedRequests reason =>
    simp only [perform, recoverInterruptedRequests]
    split <;> rfl
  | recordEvent level eventType audience message detail =>
    simp only [perform, recordEvent, pushRuntimeEvent, appendEvent]
    split
    · simp only [bumpUsageRevision, bumpEventRevision, applyUpstreamUsageEventToRequest]
      split <;> rfl
    · simp only [bumpEventRevision, applyUpstreamUsageEventToRequest]
      split <;> rfl
  | usagePage limit cursor sinceRevision =>
    simp only [perform, usagePage]
    split
    · rfl
    · exact hcached
  | usageSessionDetail id => exact hcached

end

theorem markStale_requestOrder (now : DateTime) :
    (markStaleInProgressRequests inner now).requestOrder = inner.requestOrder := by
  unfold markStaleInProgressRequests
  split <;> rfl

theorem markStale_requests (now : DateTime) :
    (markStaleInProgressRequests inner now).requests = inner.requests.mapValues fun request =>
      if isStale now request then interrupt now staleDiagnostic request else request := by
  unfold markStaleInProgressRequests
  split <;> rfl

theorem beforePruning_other (now : DateTime) {op : Operation}
    (h : ∀ id previousResponseId model input,
      op ≠ .checkpointRequest id previousResponseId model input) :
    beforePruning crates redactSecretText inner now op =
      perform crates redactSecretText inner now op := by
  cases op with
  | checkpointRequest id previousResponseId model input =>
    exact absurd rfl (h id previousResponseId model input)
  | _ => rfl

section NewCheckpoint
variable (redactSecretText) {op : Operation} {id : Text} {previousResponseId model : Option Text}
  {input : Value} (hop : op = .checkpointRequest id previousResponseId model input)
  (hnew : id ∉ inner.requests) (now : DateTime)
include hop hnew

theorem beforePruning_new :
    beforePruning crates redactSecretText inner now op =
      markStaleInProgressRequests
        (insertRequest crates inner now id previousResponseId model input) now := by
  rw [hop, beforePruning, if_neg hnew]

theorem lookup_beforePruning {other : Text} (hother : other ≠ id) :
    (beforePruning crates redactSecretText inner now op).requests.lookup other =
      (inner.requests.lookup other).map fun request =>
        if isStale now request then interrupt now staleDiagnostic request else request := by
  rw [beforePruning_new _ hop hnew, markStale_requests, lookup_mapValues, insertRequest,
    lookup_insert_ne hother]

theorem wellFormed_beforePruning (h : WellFormed crates inner) :
    WellFormed crates (beforePruning crates redactSecretText inner now op) := by
  rw [beforePruning_new _ hop hnew]
  exact (h.insertRequest hnew now previousResponseId model input).markStaleInProgressRequests now

theorem perform_new :
    let before := beforePruning crates redactSecretText inner now op
    let after := perform crates redactSecretText inner now op
    after.requests = (pruneLoop before.requests before.requestOrder 0).1 ∧
      after.requestOrder = (pruneLoop before.requests before.requestOrder 0).2 := by
  rw [beforePruning_new _ hop hnew]
  simp only [hop, perform, checkpointRequest_new hnew]
  exact ⟨rfl, rfl⟩

/-- The new request is in progress and last in the order when the loop starts. -/
theorem beforePruning_last (h : WellFormed crates inner) :
    let before := beforePruning crates redactSecretText inner now op
    before.requestOrder = inner.requestOrder ++ [id] ∧
      ∃ request, before.requests.lookup id = some request ∧ request.status = .inProgress := by
  have hfresh : id ∉ inner.requestOrder := fun hmem => hnew ((h.order_mem id).mp hmem)
  rw [beforePruning_new _ hop hnew]
  dsimp only
  rw [markStale_requestOrder]
  refine ⟨by rw [insertRequest, pushRequestOrder, erase_of_not_mem hfresh], ?_⟩
  rw [markStale_requests, lookup_mapValues, insertRequest, lookup_insert, map_some]
  refine ⟨_, rfl, ?_⟩
  -- it was created just now
  rw [if_neg (by simp [isStale, inProgressTtlSeconds])]

end NewCheckpoint

theorem pruningKeeps (h : WellFormed crates inner) (now : DateTime) (op : Operation) :
    PruningKeeps crates redactSecretText inner now op where
  inProgress := by
    intro id request hlook hstatus
    by_cases hop : ∃ id previousResponseId model input,
        op = .checkpointRequest id previousResponseId model input
    · obtain ⟨other, previousResponseId, model, input, rfl⟩ := hop
      by_cases hmem : other ∈ inner.requests
      · rw [beforePruning, if_pos hmem] at hlook
        rwa [perform, checkpointRequest, if_pos hmem]
      · rw [(perform_new _ rfl hmem now).1]
        exact pruneLoop_keeps hlook hstatus
    · rwa [← beforePruning_other now fun id previousResponseId model input heq =>
        hop ⟨id, previousResponseId, model, input, heq⟩]
  checkpointed := by
    intro id previousResponseId model input hop
    by_cases hmem : id ∈ inner.requests
    · rwa [hop, perform, checkpointRequest, if_pos hmem]
    · obtain ⟨_, request, hlook, hstatus⟩ := beforePruning_last redactSecretText hop hmem now h
      rw [(perform_new _ hop hmem now).1]
      exact lookup_isSome.mp (by rw [pruneLoop_keeps hlook hstatus]; rfl)
  size := by
    intro id previousResponseId model input hop hnew hfinished
    have hbefore := wellFormed_beforePruning redactSecretText hop hnew now h
    rw [(perform_new _ hop hnew now).1]
    exact pruneLoop_size ⟨hbefore.order_nodup, hbefore.order_mem⟩ hfinished

/-! ## Runs -/

theorem runLogged_fst (operations : List (DateTime × Operation)) :
    (runLogged crates redactSecretText operations).1 =
      run crates redactSecretText StoreInner.default operations := by
  have hfold : ∀ (operations : List (DateTime × Operation)) (acc : StoreInner × List Text),
      (operations.foldl (fun acc op => (perform crates redactSecretText acc.1 op.1 op.2,
        checkpointLog acc.1 acc.2 op.2)) acc).1 =
      operations.foldl (fun inner op => perform crates redactSecretText inner op.1 op.2) acc.1 := by
    intro operations
    induction operations with
    | nil => exact fun _ => rfl
    | cons op operations ih => exact fun acc => ih _
  exact hfold operations _

/-- A step keeps the order exactly when it evicts the oldest entries. -/
theorem orderKept_step (h : WellFormed crates inner) {log : List Text} (hlog : log.Nodup)
    (hordered : inner.requestOrder.Sublist log) (now : DateTime) (op : Operation) :
    OrderKept (perform crates redactSecretText inner now op) (checkpointLog inner log op) ↔
      EvictsOldest crates redactSecretText inner now op := by
  have hafter := @WellFormed.perform crates redactSecretText inner h now op
  have hsplit : OrderKept (perform crates redactSecretText inner now op)
      (checkpointLog inner log op) ↔ (checkpointLog inner log op).Nodup ∧
        (perform crates redactSecretText inner now op).requestOrder.Sublist
          (checkpointLog inner log op) :=
    ⟨fun hkept => ⟨hkept.log_nodup, hkept.ordered⟩,
      fun hkept => ⟨hafter.order_nodup, hafter.order_mem, hkept.1, hkept.2⟩⟩
  rw [hsplit]
  by_cases hop : ∃ id previousResponseId model input,
      op = .checkpointRequest id previousResponseId model input
  · obtain ⟨id, previousResponseId, model, input, hop⟩ := hop
    by_cases hmem : id ∈ inner.requests
    · constructor
      · rintro _ other _ _ _ heq hnew
        cases hop.symm.trans heq
        exact absurd hmem hnew
      · intro _
        rw [hop, perform, checkpointRequest, if_pos hmem, checkpointLog, if_pos hmem]
        exact ⟨hlog, hordered⟩
    · have hbefore := wellFormed_beforePruning redactSecretText hop hmem now h
      obtain ⟨horder, request, hlook, hstatus⟩ :=
        beforePruning_last redactSecretText hop hmem now h
      have hfresh : id ∉ inner.requestOrder := fun hid => hmem ((h.order_mem id).mp hid)
      have hnewLog : (log.erase id ++ [id]).Nodup :=
        (perm_append_singleton id _).nodup_iff.mpr
          (nodup_cons.mpr ⟨hlog.not_mem_erase, hlog.erase id⟩)
      have hnewOrder : (inner.requestOrder ++ [id]).Sublist (log.erase id ++ [id]) := by
        have herased := hordered.erase id
        rw [erase_of_not_mem hfresh] at herased
        exact herased.append_right [id]
      have hevict := @Eviction.evict_sublist_iff _
        (isEvictable (beforePruning crates redactSecretText inner now op).requests)
        (evictedCount (beforePruning crates redactSecretText inner now op).requests
          (inner.requestOrder ++ [id]))
        (inner.requestOrder ++ [id]) (log.erase id ++ [id]) (Nat.min_le_right _ _) hnewLog hnewOrder
        (by
          intro last hlast
          obtain rfl : id = last := by simpa using hlast
          simp [isEvictable, hlook, hstatus])
      have hlogged : checkpointLog inner log op = log.erase id ++ [id] := by
        rw [hop, checkpointLog, if_neg hmem, pushRequestOrder]
      rw [hlogged, (perform_new _ hop hmem now).2, pruneLoop_order_start ⟨hbefore.order_nodup, hbefore.order_mem⟩, horder, hevict,
        and_iff_right hnewLog]
      constructor
      · rintro holdest _ _ _ _ heq _
        cases hop.symm.trans heq
        rwa [horder]
      · intro holdest
        have hall := holdest id previousResponseId model input hop hmem
        rwa [horder] at hall
  · have hother : ∀ id previousResponseId model input,
        op ≠ .checkpointRequest id previousResponseId model input :=
      fun id previousResponseId model input heq => hop ⟨id, previousResponseId, model, input, heq⟩
    have hsame : checkpointLog inner log op = log := by
      cases op with
      | checkpointRequest id previousResponseId model input =>
        exact absurd rfl (hother id previousResponseId model input)
      | _ => rfl
    rw [hsame, requestOrder_perform now hother]
    constructor
    · rintro _ id previousResponseId model input heq
      exact absurd heq (hother id previousResponseId model input)
    · exact fun _ => ⟨hlog, hordered⟩

section
variable (operations : List (DateTime × Operation)) (op : DateTime × Operation)

theorem runLogged_concat :
    (runLogged crates redactSecretText (operations ++ [op])).2 =
      checkpointLog (runLogged crates redactSecretText operations).1
        (runLogged crates redactSecretText operations).2 op.2 := by
  simp [runLogged]

theorem run_concat :
    run crates redactSecretText inner (operations ++ [op]) =
      perform crates redactSecretText (run crates redactSecretText inner operations) op.1 op.2 := by
  simp [run]

end

/-- The requests of every state of a run, and what pruning keeps in every step of it. -/
def RequestsKept (crates : StoreCrates) (redactSecretText : Text → Text)
    (operations : List (DateTime × Operation)) : Prop :=
  (∀ before, before <+: operations →
    OrderKept (run crates redactSecretText StoreInner.default before)
      (runLogged crates redactSecretText before).2) ∧
  ∀ before op, before ++ [op] <+: operations →
    PruningKeeps crates redactSecretText
      (run crates redactSecretText StoreInner.default before) op.1 op.2

theorem requestsKept_iff (operations : List (DateTime × Operation)) :
    RequestsKept crates redactSecretText operations ↔
      ∀ before op, before ++ [op] <+: operations →
        EvictsOldest crates redactSecretText
          (run crates redactSecretText StoreInner.default before) op.1 op.2 := by
  have hreachable : ∀ before : List (DateTime × Operation),
      WellFormed crates (run crates redactSecretText StoreInner.default before) :=
    fun before => WellFormed.default.run before
  have hstep : ∀ before op, OrderKept (run crates redactSecretText StoreInner.default before)
      (runLogged crates redactSecretText before).2 →
      (OrderKept (run crates redactSecretText StoreInner.default (before ++ [op]))
          (runLogged crates redactSecretText (before ++ [op])).2 ↔
        EvictsOldest crates redactSecretText
          (run crates redactSecretText StoreInner.default before) op.1 op.2) := by
    intro before op hkept
    rw [runLogged_concat, run_concat, runLogged_fst]
    exact orderKept_step (hreachable before) hkept.log_nodup hkept.ordered op.1 op.2
  constructor
  · rintro ⟨horder, _⟩ before op hbegins
    have hbefore := horder before ((prefix_append before [op]).trans hbegins)
    exact (hstep before op hbefore).mp (horder _ hbegins)
  · intro holdest
    refine ⟨?_, fun before op _ => pruningKeeps (hreachable before) op.1 op.2⟩
    intro before
    induction before using reverseRecOn with
    | nil =>
      intro _
      exact ⟨nodup_nil, by simp [run, StoreInner.default], nodup_nil, Sublist.refl _⟩
    | append_singleton before op ih =>
      intro hbegins
      have hbefore := ih ((prefix_append before [op]).trans hbegins)
      exact (hstep before op hbefore).mpr (holdest before op hbegins)

/-- The order of the requests is that of their checkpoints throughout a run exactly when every
checkpoint of it that evicts requests evicts the oldest. -/
theorem request_order_kept_iff (operations : List (DateTime × Operation)) :
    RequestsKept crates redactSecretText operations ↔
      ∀ before op, before ++ [op] <+: operations →
        EvictsOldest crates redactSecretText
          (run crates redactSecretText StoreInner.default before) op.1 op.2 :=
  requestsKept_iff operations

end Crates

/-! ## A full store with a request in progress in front -/

variable {inner : StoreInner}

/-- A full store with a running request in front passes over it when any other has finished. -/
theorem not_evictsOldest {crates : StoreCrates} {redactSecretText : Text → Text}
    (h : WellFormed crates inner) {now : DateTime} {front new done : Text} {rest : List Text} (horder : inner.requestOrder = front :: rest) (hnew : new ∉ inner.requests)
    (hfull : maxRuntimeRequests ≤ inner.requestOrder.length) {running finished : StoredRequest}
    (hfront : inner.requests.lookup front = some running) (hrunning : running.status = .inProgress)
    (hfresh : isStale now running = false) (hdone : inner.requests.lookup done = some finished)
    (hfinished : finished.status ≠ .inProgress) {op : Operation}
    {previousResponseId model : Option Text} {input : Value}
    (hop : op = .checkpointRequest new previousResponseId model input) :
    ¬ EvictsOldest crates redactSecretText inner now op := by
  intro holdest
  have hall := holdest new previousResponseId model input hop hnew
  have hlast := (beforePruning_last redactSecretText hop hnew now h).1
  have hbefore := wellFormed_beforePruning redactSecretText hop hnew now h
  have hlookup := fun other request (hlook : inner.requests.lookup other = some request) =>
    @lookup_beforePruning crates redactSecretText inner _ _ _ _ _ hop hnew now other
      (fun heq => hnew (lookup_isSome.mp (by rw [← heq, hlook]; rfl)))
  have hkept :
      isEvictable (beforePruning crates redactSecretText inner now op).requests front = false := by
    simp [isEvictable, hlookup front running hfront, hfront, hfresh, hrunning]
  have hfree :
      isEvictable (beforePruning crates redactSecretText inner now op).requests done = true := by
    simp [isEvictable, hlookup done finished hdone, hdone, isStale, hfinished]
  have hsize := (orderMatches_perm ⟨hbefore.order_nodup, hbefore.order_mem⟩).length_eq
  rw [AList.keys, List.keys, length_map] at hsize
  generalize beforePruning crates redactSecretText inner now op = before
    at hall hlast hkept hfree hsize
  rw [hlast] at hall hsize
  have hcount : 0 < (inner.requestOrder ++ [new]).countP (isEvictable before.requests) :=
    countP_pos_iff.mpr ⟨done, mem_append_left _
      ((h.order_mem done).mpr (lookup_isSome.mp (by rw [hdone]; rfl))), hfree⟩
  have hexcess : 0 < before.requests.entries.length - maxRuntimeRequests := by
    rw [← hsize, length_append, length_singleton]
    omega
  obtain ⟨k, hk⟩ := Nat.exists_eq_succ_of_ne_zero (Nat.pos_iff_ne_zero.mp (lt_min hexcess hcount))
  rw [evictedCount, hk, horder] at hall
  rw [hall front (by simp)] at hkept
  cases hkept

/-- Ids that are told apart by their length. -/
def unaryId (n : ℕ) : Text := replicate n 'x'

theorem unaryId_inj {m n : ℕ} (h : unaryId m = unaryId n) : m = n := by
  simpa [unaryId] using congrArg length h

def checkpoint (id : Text) : DateTime × Operation := (0, .checkpointRequest id none none .null)

/-- These requests are stored in this order, all in progress since the epoch. -/
structure AllRunning (inner : StoreInner) (ids : List Text) : Prop where
  order : inner.requestOrder = ids
  running : ∀ id ∈ ids, ∃ request, inner.requests.lookup id = some request ∧
    request.status = .inProgress ∧ request.createdAt = 0

section
variable (h : AllRunning inner ids) (hwell : WellFormed epochCrates inner)
include h hwell

theorem AllRunning.notMem {new : Text} (hnew : new ∉ ids) :
    new ∉ inner.requests := by
  rwa [← hwell.order_mem, h.order]

theorem AllRunning.beforePruning {new : Text} (hnew : new ∉ ids) :
    AllRunning (beforePruning epochCrates id inner 0 (checkpoint new).2) (ids ++ [new]) where
  order := by
    rw [← h.order]
    exact (beforePruning_last id rfl (h.notMem hwell hnew) 0 hwell).1
  running := by
    have hinserted : ∀ other ∈ ids ++ [new], ∃ request,
        (insertRequest epochCrates inner 0 new none none .null).requests.lookup other =
          some request ∧ request.status = .inProgress ∧ request.createdAt = 0 := by
      intro other hmem
      rw [insertRequest]
      by_cases hother : other = new
      · subst hother
        rw [lookup_insert]
        exact ⟨_, rfl, rfl, rfl⟩
      · rw [lookup_insert_ne hother]
        rcases mem_append.mp hmem with hmem | hmem
        · exact h.running other hmem
        · exact absurd (mem_singleton.mp hmem) hother
    intro other hmem
    obtain ⟨request, hlook, hstatus, hcreated⟩ := hinserted other hmem
    refine ⟨request, ?_, hstatus, hcreated⟩
    rw [checkpoint, beforePruning_new id rfl (h.notMem hwell hnew), markStale_requests,
      lookup_mapValues, hlook, map_some]
    simp [isStale, hcreated, inProgressTtlSeconds]

theorem AllRunning.size : inner.requests.entries.length = ids.length := by
  have hlength := (orderMatches_perm ⟨hwell.order_nodup, hwell.order_mem⟩).length_eq
  rw [h.order, AList.keys, List.keys, length_map] at hlength
  exact hlength.symm

/-- Up to the limit a checkpoint only adds its request. -/
theorem AllRunning.checkpoint {new : Text} (hnew : new ∉ ids)
    (hroom : ids.length < maxRuntimeRequests) :
    AllRunning (perform epochCrates id inner 0 (checkpoint new).2) (ids ++ [new]) := by
  have hbefore := h.beforePruning hwell hnew
  have hsize := hbefore.size
    (wellFormed_beforePruning id rfl (h.notMem hwell hnew) 0 hwell)
  have hfits : (Store.beforePruning epochCrates id inner 0
      (Store.checkpoint new).2).requests.entries.length ≤ maxRuntimeRequests := by
    rw [hsize, length_append, length_singleton]
    omega
  obtain ⟨hrequests, horder⟩ :=
    @perform_new epochCrates id inner _ new none none .null rfl (h.notMem hwell hnew) 0
  have hloop : pruneLoop (Store.beforePruning epochCrates id inner 0
        (Store.checkpoint new).2).requests
      (Store.beforePruning epochCrates id inner 0 (Store.checkpoint new).2).requestOrder 0 =
      ((Store.beforePruning epochCrates id inner 0 (Store.checkpoint new).2).requests,
        (Store.beforePruning epochCrates id inner 0 (Store.checkpoint new).2).requestOrder) := by
    rw [pruneLoop.eq_def, if_pos hfits]
  constructor
  · exact horder.trans ((congrArg Prod.snd hloop).trans hbefore.order)
  · intro other hmem
    obtain ⟨request, hlook, hrunning⟩ := hbefore.running other hmem
    refine ⟨request, ?_, hrunning⟩
    rw [← hlook]
    exact congrArg (AList.lookup other) (hrequests.trans (congrArg Prod.fst hloop))

end

/-- Checkpoints of `n` requests. -/
def filling (n : ℕ) : List (DateTime × Operation) :=
  (range n).map fun i => checkpoint (unaryId i)

theorem filling_allRunning {n : ℕ} (h : n ≤ maxRuntimeRequests) :
    AllRunning (run epochCrates id StoreInner.default (filling n)) ((range n).map unaryId) := by
  induction n with
  | zero => exact ⟨rfl, by simp⟩
  | succ n ih =>
    have hwell : WellFormed epochCrates (run epochCrates id StoreInner.default (filling n)) :=
      WellFormed.default.run _
    have hnew : unaryId n ∉ (range n).map unaryId := by
      intro hmem
      obtain ⟨i, hi, heq⟩ := mem_map.mp hmem
      rw [unaryId_inj heq, mem_range] at hi
      omega
    have hroom : ((range n).map unaryId).length < maxRuntimeRequests := by
      rw [length_map, length_range]
      omega
    have hstep := (ih (by omega)).checkpoint hwell hnew hroom
    rw [filling, range_succ, map_append, map_append, map_singleton,
      map_singleton, run_concat]
    exact hstep

/-- A store filled to `n` requests, its second request finished, and one request more. -/
def overfilled (n : ℕ) : List (DateTime × Operation) :=
  filling n ++ [(0, .finishRequest (unaryId 1) .completed none none), checkpoint (unaryId n)]

theorem overfilled_loses_order {n : ℕ} (hn : n = maxRuntimeRequests) :
    ¬ RequestsKept epochCrates id (overfilled n) := by
  intro h
  have hpos : 1 < n := by rw [hn, maxRuntimeRequests]; omega
  have holdest := (requestsKept_iff (overfilled n)).mp h
    (filling n ++ [(0, .finishRequest (unaryId 1) .completed none none)])
    (checkpoint (unaryId n)) (by simp [overfilled])
  have hfilled := filling_allRunning (Nat.le_of_eq hn)
  have hwell := @WellFormed.run epochCrates id _ WellFormed.default
    (filling n ++ [(0, .finishRequest (unaryId 1) .completed none none)])
  rw [run_concat] at holdest hwell
  generalize run epochCrates id StoreInner.default (filling n) = filled at holdest hfilled hwell
  have hmem : ∀ i, i < n → unaryId i ∈ (range n).map unaryId :=
    fun i hi => mem_map_of_mem (mem_range.mpr hi)
  obtain ⟨first, hfirst, hfirstStatus, hfirstCreated⟩ :=
    hfilled.running (unaryId 0) (hmem 0 (by omega))
  obtain ⟨second, hsecond, hsecondStatus, _⟩ := hfilled.running (unaryId 1) (hmem 1 hpos)
  -- the second request is finished, everything else is as it was
  have hfinish : perform epochCrates id filled 0 (.finishRequest (unaryId 1) .completed none none) =
      bumpUsageRevision (updateRequest filled (unaryId 1)
        (finishedRequest epochCrates 0 .completed none none)) := by
    simp [perform, finishRequest, hsecond, hsecondStatus]
  rw [hfinish] at holdest hwell
  set finished := bumpUsageRevision (updateRequest filled (unaryId 1)
    (finishedRequest epochCrates 0 .completed none none)) with hfinished
  have horder : finished.requestOrder =
      unaryId 0 :: (range (n - 1)).map fun i => unaryId (i + 1) := by
    have hrange : (range n).map unaryId =
        unaryId 0 :: (range (n - 1)).map fun i => unaryId (i + 1) := by
      obtain ⟨m, rfl⟩ := Nat.exists_eq_succ_of_ne_zero (show n ≠ 0 by omega)
      simp [range_succ_eq_map, Function.comp_def]
    exact hfilled.order.trans hrange
  have hnew : unaryId n ∉ finished.requests := by
    rw [← hwell.order_mem]
    show unaryId n ∉ filled.requestOrder
    rw [hfilled.order]
    intro hin
    obtain ⟨i, hi, heq⟩ := mem_map.mp hin
    rw [unaryId_inj heq, mem_range] at hi
    omega
  have hother : unaryId 0 ≠ unaryId 1 := fun heq => absurd (unaryId_inj heq) (by decide)
  have hfull : maxRuntimeRequests ≤ finished.requestOrder.length := by
    rw [horder, length_cons, length_map, length_range]
    omega
  have hdone : finished.requests.lookup (unaryId 1) =
      some (finishedRequest epochCrates 0 .completed none none second) := by
    rw [hfinished, bumpUsageRevision, updateRequest, lookup_modify_self, hsecond, map_some]
  have hfresh : isStale 0 first = false := by
    simp [isStale, hfirstCreated, inProgressTtlSeconds]
  exact not_evictsOldest hwell horder hnew hfull
    ((lookup_modify_ne _ _ hother).trans hfirst) hfirstStatus hfresh hdone
    (by simp [finishedRequest]) rfl holdest

theorem fullStore_loses_order : ¬ RequestsKept epochCrates id (overfilled maxRuntimeRequests) :=
  overfilled_loses_order rfl

end CodeSeeX.Store
