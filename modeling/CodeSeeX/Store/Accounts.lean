import CodeSeeX.Store.Buckets
import CodeSeeX.Store.Conservation
import CodeSeeX.Store.SettledSessions

/-!
# Two accountings

The buckets of all sessions against the buckets of the store. The rows of the
sessions bring the billable requests and the finished turns counted a second
time; of the vision results the sessions bring those that were recorded for a
request whose own lifecycle reads `vision_deepseek`, the store those whose tool
says that it ran on DeepSeek.
-/
namespace CodeSeeX.Store

open Pricing List Option

variable (inner : StoreInner) {turns : List RequestTurn}
  {turnHistory billableHistory : List RequestTurn}

/-! ## Vision results in a session -/

/-- What a tool result reports as vision usage in a session. -/
def toolVisionItem (event : EventRecord) : Option UsageBillingItem :=
  if event.eventType = ("tool_result" : Text) then do
    let detail ← event.detail
    let _ ← detail.getStr "name"
    let vision ← usageVisionSegmentFromEvent event
    some vision.billingItem
  else none

/-- The vision results of a row that its session takes for billable. -/
def relabelledVision (inner : StoreInner) (id lifecycle : Text) : List UsageBillingItem :=
  if lifecycle = "vision_deepseek" then (requestEvents inner id).filterMap toolVisionItem else []

/-- The billable vision items among segments. -/
def visionItems (segments : List UsageSegment) : List UsageBillingItem :=
  (segments.filter visionSegmentIsDeepseekBillable).map (·.billingItem)

@[simp] theorem visionItems_append (left right : List UsageSegment) :
    visionItems (left ++ right) = visionItems left ++ visionItems right := by
  simp [visionItems]

variable {segment : UsageSegment}

theorem visionItems_of_kind (h : segment.kind ≠ ("vision" : Text)) :
    visionItems [segment] = [] := by
  simp [visionItems, visionSegmentIsDeepseekBillable, h]

variable {row : UsageSessionRow} {event : EventRecord}

theorem modelSegment_kind (h : usageModelSegmentFromEvent event row = some segment) :
    segment.kind ≠ ("vision" : Text) := by
  simp only [usageModelSegmentFromEvent, bind_eq_some_iff] at h
  obtain ⟨detail, _, h⟩ := h
  split at h
  · cases h
  · obtain rfl := some_inj.mp h
    split
    · simp
    · split <;> simp

theorem toolCallSegment_kind (h : usageToolCallSegmentFromEvent event row = some segment) :
    segment.kind ≠ ("vision" : Text) := by
  simp only [usageToolCallSegmentFromEvent, bind_eq_bind, bind_eq_some_iff,
    some_inj] at h
  obtain ⟨detail, _, toolName, _, rfl⟩ := h
  simp

theorem visionSegment_completedAt (h : usageVisionSegmentFromEvent event = some segment) :
    segment.completedAt = some event.ts := by
  simp only [usageVisionSegmentFromEvent, bind_eq_bind, bind_eq_some_iff,
    some_inj] at h
  obtain ⟨_, _, _, _, _, _, _, _, _, _, rfl⟩ := h
  rfl

/-- A tool result carries its vision usage under the lifecycle of the row. -/
theorem toolSegment_items (row : UsageSessionRow) (h : event.eventType = ("tool_result" : Text)) :
    visionItems (usageToolSegmentFromEvent event row).toList =
      if row.lifecycle = "vision_deepseek" then (toolVisionItem event).toList else [] := by
  simp only [usageToolSegmentFromEvent, toolVisionItem, h, if_true]
  cases hdetail : event.detail with
  | none => simp [visionItems]
  | some detail =>
    cases hname : detail.getStr "name" with
    | none => simp [visionItems, hname]
    | some toolName =>
      cases hvision : usageVisionSegmentFromEvent event with
      | none => simp [visionItems, hname, visionSegmentIsDeepseekBillable]
      | some vision =>
        have hcompleted := visionSegment_completedAt hvision
        by_cases hrow : row.lifecycle = ("vision_deepseek" : Text)
        · simp [visionItems, hname, visionSegmentIsDeepseekBillable, hrow,
            UsageSegment.billingItem, hcompleted]
        · simp [visionItems, hname, visionSegmentIsDeepseekBillable, hrow]

theorem eventSegment_items (row : UsageSessionRow) (completedToolKeys : List Text)
    (hasToolEvents : Bool) (event : EventRecord) :
    visionItems (usageEventSegment row completedToolKeys hasToolEvents event).toList =
      if row.lifecycle = "vision_deepseek" then (toolVisionItem event).toList else [] := by
  have hnone : ∀ segment : Option UsageSegment, event.eventType ≠ ("tool_result" : Text) →
      (∀ s, segment = some s → s.kind ≠ ("vision" : Text)) →
      visionItems segment.toList =
        if row.lifecycle = "vision_deepseek" then (toolVisionItem event).toList else [] := by
    intro segment htype hkind
    rw [toolVisionItem, if_neg htype]
    cases segment with
    | none => simp [visionItems]
    | some segment => simp [visionItems_of_kind (hkind segment rfl)]
  unfold usageEventSegment
  split
  · rename_i htype
    apply hnone
    · rw [htype.1]
      simp
    · exact fun _ => modelSegment_kind
  · split
    · rename_i htype
      apply hnone
      · rw [htype]
        simp
      · intro segment hsome
        obtain ⟨key, _, hsome⟩ := bind_eq_some_iff.mp hsome
        split at hsome
        · cases hsome
        · exact toolCallSegment_kind hsome
    · split
      · rename_i htype
        exact toolSegment_items row htype
      · rename_i htype
        exact hnone none htype (by simp)

theorem eventSegments_items (row : UsageSessionRow) (completedToolKeys : List Text)
    (hasToolEvents : Bool) (events : List EventRecord) :
    visionItems (events.filterMap (usageEventSegment row completedToolKeys hasToolEvents)) =
      if row.lifecycle = "vision_deepseek" then events.filterMap toolVisionItem else [] := by
  induction events with
  | nil => simp [visionItems]
  | cons event events ih =>
    have hevent := eventSegment_items row completedToolKeys hasToolEvents event
    have hcons : ∀ (f : EventRecord → Option UsageSegment), (event :: events).filterMap f =
        (f event).toList ++ events.filterMap f := by
      intro f
      cases hf : f event <;> simp [hf]
    rw [hcons, visionItems_append, hevent, ih]
    split
    · cases hitem : toolVisionItem event <;> simp [hitem]
    · rfl

/-- A segment without a tool is a model call. -/
theorem eventSegment_kind {completedToolKeys : List Text} {hasToolEvents : Bool}
    (h : usageEventSegment row completedToolKeys hasToolEvents event = some segment)
    (htool : segment.toolName = none) : segment.kind ≠ ("vision" : Text) := by
  unfold usageEventSegment at h
  split at h
  · exact modelSegment_kind h
  · split at h
    · obtain ⟨key, _, h⟩ := bind_eq_some_iff.mp h
      split at h
      · cases h
      · exact toolCallSegment_kind h
    · split at h
      · simp only [usageToolSegmentFromEvent, bind_eq_bind, bind_eq_some_iff,
          some_inj] at h
        obtain ⟨_, _, toolName, _, rfl⟩ := h
        simp at htool
      · cases h

theorem modifyLast_items {p : UsageSegment → Bool} {f : UsageSegment → UsageSegment}
    {segments : List UsageSegment}
    (h : ∀ segment ∈ segments, p segment = true →
      visionItems [segment] = [] ∧ visionItems [f segment] = []) :
    visionItems (modifyLast p f segments) = visionItems segments := by
  have hcons : ∀ (segment : UsageSegment) (rest : List UsageSegment),
      visionItems (segment :: rest) = visionItems [segment] ++ visionItems rest := by
    intro segment rest
    rw [← visionItems_append, singleton_append]
  induction segments with
  | nil => rfl
  | cons segment segments ih =>
    have hrest := ih fun other hmem => h other (mem_cons_of_mem _ hmem)
    unfold modifyLast
    split
    · rw [hcons, hrest, ← hcons]
    · split
      · rename_i hp
        obtain ⟨hbefore, hafter⟩ := h segment mem_cons_self hp
        rw [hcons, hcons segment, hbefore, hafter]
      · rfl

theorem attachRow_kind (row : UsageSessionRow) (segment : UsageSegment) :
    (attachRowToSegment row segment).kind = segment.kind := by
  unfold attachRowToSegment
  split <;> rfl

theorem requestSegments_items (hkind : row.kind ≠ ("vision" : Text)) :
    visionItems (usageRequestEventSegments inner row) =
      relabelledVision inner row.id row.lifecycle := by
  have hmodel : ∀ (completedToolKeys : List Text) (hasToolEvents : Bool),
      ∀ segment ∈ (requestEvents inner row.id).filterMap
        (usageEventSegment row completedToolKeys hasToolEvents),
      isBillableModelSegment segment = true → segment.kind ≠ ("vision" : Text) := by
    intro completedToolKeys hasToolEvents segment hmem hbillable
    obtain ⟨event, _, hsome⟩ := mem_filterMap.mp hmem
    simp only [isBillableModelSegment, isNone_iff_eq_none, decide_eq_true_eq] at hbillable
    exact eventSegment_kind hsome hbillable.1
  have hrow : visionItems [usageSegmentFromRow row] = [] := visionItems_of_kind hkind
  unfold usageRequestEventSegments
  dsimp only
  split
  · split
    · rw [markLastBillableModelSegmentAsFinal, modifyLast_items, eventSegments_items,
        relabelledVision]
      intro segment hmem hbillable
      refine ⟨visionItems_of_kind (hmodel _ _ segment hmem hbillable), visionItems_of_kind ?_⟩
      rw [markSegmentAsFinal, attachRow_kind]
      exact hkind
    · rw [attachRowToLastBillableModelSegment, modifyLast_items, eventSegments_items,
        relabelledVision]
      intro segment hmem hbillable
      have hsegment := hmodel _ _ segment hmem hbillable
      refine ⟨visionItems_of_kind hsegment, visionItems_of_kind ?_⟩
      rwa [attachRow_kind]
  · rw [visionItems_append, hrow, append_nil, eventSegments_items, relabelledVision]

/-- The segments of a session bring the vision results of its rows. -/
theorem sessionSegments_items {rows : List UsageSessionRow}
    (hkind : ∀ row ∈ rows, row.kind ≠ ("vision" : Text)) :
    visionItems (usageSessionSegments inner rows) =
      rows.flatMap fun row => relabelledVision inner row.id row.lifecycle := by
  have hfold : ∀ (rows : List UsageSessionRow) (segments : List UsageSegment),
      (∀ row ∈ rows, row.kind ≠ ("vision" : Text)) →
      visionItems (rows.foldl (addRowSegments inner) segments) = visionItems segments ++
        rows.flatMap fun row => relabelledVision inner row.id row.lifecycle := by
    intro rows
    induction rows with
    | nil => simp
    | cons row rows ih =>
      intro segments hkinds
      have hself := hkinds row mem_cons_self
      have hrow : visionItems [usageSegmentFromRow row] = [] := visionItems_of_kind hself
      have hstep : visionItems (addRowSegments inner segments row) =
          visionItems segments ++ relabelledVision inner row.id row.lifecycle := by
        unfold addRowSegments
        dsimp only
        split
        · rw [visionItems_append, requestSegments_items inner hself]
        · rw [visionItems_append, visionItems_append, requestSegments_items inner hself,
            hrow, append_nil]
      rw [foldl_cons, ih _ fun other hmem => hkinds other (mem_cons_of_mem _ hmem),
        hstep, flatMap_cons, append_assoc]
  have hall := hfold rows [] hkind
  unfold usageSessionSegments
  dsimp only
  split
  · rename_i hempty
    have hnone : visionItems (rows.map usageSegmentFromRow) = [] := by
      rw [visionItems, map_eq_nil_iff, filter_eq_nil_iff]
      intro segment hmem
      obtain ⟨row, hrow, rfl⟩ := mem_map.mp hmem
      simpa [visionItems] using visionItems_of_kind (hkind row hrow)
    rw [isEmpty_iff.mp hempty] at hall
    rw [hnone]
    exact hall
  · rw [hall]
    rfl

/-! ## The rows of all sessions -/

theorem rowOf_kind (h : RowOf turns row) :
    row.kind ≠ ("vision" : Text) := by
  obtain ⟨turn, _, isFinal, rfl⟩ := h
  simp only [usageSessionRow]
  split
  · simp
  · split
    · simp
    · split <;> simp

/-- A settled session is billed for its rows and for the vision results of its rows. -/
theorem settled_billingItems {inner : StoreInner} {session : UsageSession}
    (h : Settled inner turnHistory billableHistory session) :
    session.billingItems = session.rows.map (·.billingItem) ++
      session.rows.flatMap fun row => relabelledVision inner row.id row.lifecycle := by
  have hbuilt : session.segments = usageSessionSegments inner session.rows ∧
      ∀ row ∈ session.rows, row.kind ≠ ("vision" : Text) := by
    cases h with
    | finalTurn _ hrows => exact ⟨rfl, fun row hmem => rowOf_kind (hrows row hmem)⟩
    | nonFinal hrows => exact ⟨rfl, fun row hmem => rowOf_kind (hrows row hmem)⟩
    | leftOver hturn =>
      refine ⟨rfl, fun row hmem => ?_⟩
      rw [mem_singleton.mp hmem]
      exact rowOf_kind ⟨_, hturn, false, rfl⟩
  rw [UsageSession.billingItems, hbuilt.1, ← sessionSegments_items inner hbuilt.2]
  rfl

section Crates
variable {crates : StoreCrates} {redactSecretText : Text → Text} {inner : StoreInner}

theorem stateSessions_idle (hidle : ∀ request ∈ inner.requests.values, request.status ≠ .inProgress)
    (now : DateTime) :
    (stateSessions crates inner now).Perm (settledSessions crates inner
      (completedConversationTurns crates inner) (completedBillableRequests crates inner)) := by
  have hnone : (inner.orderedRequests.filter fun request => request.status = .inProgress) = [] := by
    rw [filter_eq_nil_iff]
    intro request hmem
    obtain ⟨id, _, hlook⟩ := mem_filterMap.mp hmem
    simpa using hidle request (HashMap.mem_values.mpr ⟨id, hlook⟩)
  have hsorted := perm_insertionSort
    (fun left right : UsageSession => left.completedAt ≤ right.completedAt)
    (withActiveSessions crates inner now (settledSessions crates inner
      (completedConversationTurns crates inner) (completedBillableRequests crates inner)))
  rw [withActiveSessions, hnone] at hsorted
  rw [stateSessions, usageSessionsFromInner, withActiveSessions, hnone]
  exact hsorted

/-! ## What is counted beside the billable requests -/

/-- The billable finished turns that do not keep a row of their own. -/
def recountedTurns (crates : StoreCrates) (inner : StoreInner) : List RequestTurn :=
  (completedConversationTurns crates inner).filter fun turn =>
    turn.billable ∧ ¬ KeepsRow crates inner
      ((completedConversationTurns crates inner).takeWhile (·.id ≠ turn.id)) turn

/-- The vision results recorded for billable requests with the lifecycle `vision_deepseek`. -/
def relabelledItems (crates : StoreCrates) (inner : StoreInner) : List UsageBillingItem :=
  (completedBillableRequests crates inner).flatMap fun turn =>
    relabelledVision inner turn.id turn.lifecycle

/-- The vision results of tools that ran on DeepSeek. -/
def deepseekItems (inner : StoreInner) : List UsageBillingItem := visionItems (visionSegments inner)

/-- Key by key the usage of recounted turns and of relabelled vision results is that of the
DeepSeek vision results, where the counts do not saturate. -/
def ExtrasBalance (crates : StoreCrates) (inner : StoreInner) : Prop :=
  ∀ key field,
    let billed := keyTokens inner.pricing
      ((completedBillableRequests crates inner).map (·.billingItem)) key field
    min (billed + (keyTokens inner.pricing
        ((recountedTurns crates inner).map (·.billingItem)) key field +
          keyTokens inner.pricing (relabelledItems crates inner) key field)) u64Max =
      min (billed + keyTokens inner.pricing (deepseekItems inner) key field) u64Max

/-- The buckets of all sessions add up to the buckets of the store, at the same prices. -/
structure AccountsAgree (crates : StoreCrates) (inner : StoreInner) (now : DateTime) : Prop where
  tokens : ∀ key field,
    saturatingSum ((stateSessions crates inner now).map fun session =>
        bucketTokens (usageBillingBucketsFromSession session inner.pricing) key field) =
      bucketTokens (usageBillingBuckets crates inner) key field
  prices : ∀ session ∈ stateSessions crates inner now,
    ∀ bucket ∈ usageBillingBucketsFromSession session inner.pricing,
    ∀ total ∈ usageBillingBuckets crates inner,
      bucket.key = total.key → bucket.withoutTokens = total.withoutTokens

theorem keyTokens_filter_billable {pricing : PricingTable}
    (h : ∀ turn ∈ turns, turn.billable = false → ∀ field, turn.billingItem.tokens field = 0)
    (key : BucketKey) (field : TokenField) :
    keyTokens pricing (turns.map (·.billingItem)) key field =
      keyTokens pricing ((turns.filter (·.billable)).map (·.billingItem)) key field := by
  induction turns with
  | nil => rfl
  | cons turn turns ih =>
    have hrest := ih fun other hmem => h other (mem_cons_of_mem _ hmem)
    have hcons : ∀ items : List UsageBillingItem,
        keyTokens pricing (turn.billingItem :: items) key field =
          keyTokens pricing [turn.billingItem] key field + keyTokens pricing items key field := by
      intro items
      rw [← keyTokens_append, singleton_append]
    cases hbillable : turn.billable with
    | true =>
      rw [map_cons, hcons (turns.map _), hrest, filter_cons_of_pos hbillable,
        map_cons, ← hcons]
    | false =>
      have hzero : keyTokens pricing [turn.billingItem] key field = 0 := by
        have htokens := h turn mem_cons_self hbillable field
        by_cases hkey : turn.billingItem.key pricing = key <;> simp [keyTokens, hkey, htokens]
      rw [map_cons, hcons (turns.map _), hzero, Nat.zero_add, hrest,
        filter_cons_of_neg (by simp [hbillable])]

theorem tokens_of_not_billable {request : StoredRequest}
    (h : (turnFromRequest crates request).billable = false) (field : TokenField) :
    (turnFromRequest crates request).billingItem.tokens field = 0 := by
  have hcounts := usageCounts_of_not_billable h
  cases field <;> simp [turnFromRequest, RequestTurn.billingItem, UsageBillingItem.tokens, hcounts]

/-- The turns that get a row made for them are, up to turns without usage, the recounted ones. -/
theorem fallback_billable (h : WellFormed crates inner) {fallback : List RequestTurn}
    (hfallback : FallbackTurns (initialPass crates inner (completedConversationTurns crates inner)
        (completedBillableRequests crates inner))
      (usageChains inner (completedConversationTurns crates inner))
      (completedConversationTurns crates inner) fallback) :
    (fallback.filter (·.billable)).Perm (recountedTurns crates inner) := by
  obtain ⟨hsub, hstarved⟩ := hfallback
  have hnodup : (completedConversationTurns crates inner).Nodup :=
    Nodup.of_map _ h.histories.turns_nodup
  rw [recountedTurns,
    perm_ext_iff_of_nodup ((hnodup.sublist hsub).filter _) (hnodup.filter _)]
  intro turn
  rw [mem_filter, mem_filter]
  have hmain : turn ∈ completedConversationTurns crates inner → turn.billable = true →
      (turn ∈ fallback ↔ ¬ KeepsRow crates inner
        ((completedConversationTurns crates inner).takeWhile (·.id ≠ turn.id)) turn) := by
    intro hmem hbillable
    obtain ⟨before, after, hsplit⟩ := append_of_mem hmem
    have hbefore : (completedConversationTurns crates inner).takeWhile (·.id ≠ turn.id) =
        before := by
      have hids := h.histories.turns_nodup
      rw [hsplit, map_append, nodup_append] at hids
      rw [hsplit, takeWhile_append_of_pos]
      · simp
      · intro other hother
        simpa using hids.2.2 _ (mem_map_of_mem hother) _ (by simp)
    rw [hbefore, hstarved before turn after hsplit, ← not_starvedAfter_iff h hsplit hbillable,
      not_not]
  constructor
  · rintro ⟨hmem, hbillable⟩
    have hturn := hsub.subset hmem
    exact ⟨hturn, by simpa [hbillable] using (hmain hturn hbillable).mp hmem⟩
  · rintro ⟨hturn, hcond⟩
    have hcond' : turn.billable = true ∧ ¬ KeepsRow crates inner
        ((completedConversationTurns crates inner).takeWhile (·.id ≠ turn.id)) turn := by
      simpa using hcond
    exact ⟨(hmain hturn hcond'.1).mpr hcond'.2, hcond'.1⟩

/-! ## The two sums -/

theorem directTokens_eq (crates : StoreCrates) (inner : StoreInner) (key : BucketKey)
    (field : TokenField) :
    bucketTokens (usageBillingBuckets crates inner) key field =
      min (keyTokens inner.pricing
          ((completedBillableRequests crates inner).map (·.billingItem)) key field +
        keyTokens inner.pricing (deepseekItems inner) key field) u64Max := by
  rw [usageBillingBuckets, bucketTokens_collect, usageBillingItems, keyTokens_append]
  rfl

/-- Settled sessions are billed for their rows and for the vision results of these. -/
theorem settledItems_perm :
    ((settledSessions crates inner turnHistory billableHistory).flatMap
        UsageSession.billingItems).Perm
      ((sessionRows (settledSessions crates inner turnHistory billableHistory)).map (·.billingItem)
        ++ (sessionRows (settledSessions crates inner turnHistory billableHistory)).flatMap
          fun row => relabelledVision inner row.id row.lifecycle) := by
  rw [flatMap_congr fun session hmem =>
    settled_billingItems (settled_settledSessions crates hmem)]
  simp only [sessionRows, map_flatMap, flatMap_assoc]
  exact (flatMap_append_perm _ _ _).symm

section
variable (h : WellFormed crates inner)
  (hidle : ∀ request ∈ inner.requests.values, request.status ≠ .inProgress) (now : DateTime)
include h hidle

theorem sessionsTokens_eq (key : BucketKey) (field : TokenField) :
    saturatingSum ((stateSessions crates inner now).map fun session =>
        bucketTokens (usageBillingBucketsFromSession session inner.pricing) key field) =
      min (keyTokens inner.pricing
          ((completedBillableRequests crates inner).map (·.billingItem)) key field +
        (keyTokens inner.pricing ((recountedTurns crates inner).map (·.billingItem)) key field +
          keyTokens inner.pricing (relabelledItems crates inner) key field)) u64Max := by
  obtain ⟨fallback, hfallback, hrows⟩ := rows_settledSessions h.histories
  have hsessions := @stateSessions_idle crates inner hidle now
  have hsum : saturatingSum ((stateSessions crates inner now).map fun session =>
      bucketTokens (usageBillingBucketsFromSession session inner.pricing) key field) =
      min (((stateSessions crates inner now).map fun session =>
        keyTokens inner.pricing session.billingItems key field).sum) u64Max := by
    rw [saturatingSum_eq, ← min_sum_min ((stateSessions crates inner now).map fun session =>
      keyTokens inner.pricing session.billingItems key field), List.map_map]
    simp only [usageBillingBucketsFromSession, bucketTokens_collect, Function.comp_def]
  rw [hsum, ← keyTokens_flatMap, keyTokens_perm (hsessions.flatMap_right _),
    keyTokens_perm settledItems_perm, keyTokens_append]
  -- the rows are those of the billable requests and of the turns that got one made
  have hitems : ((sessionRows (settledSessions crates inner (completedConversationTurns crates inner)
      (completedBillableRequests crates inner))).map (·.billingItem)).Perm
      ((completedBillableRequests crates inner).map (·.billingItem) ++
        fallback.map (·.billingItem)) := by
    have hmap := hrows.map fun account => account.2.2
    simpa [Function.comp_def, UsageSessionRow.account, RequestTurn.account] using hmap
  have hvision : ((sessionRows (settledSessions crates inner (completedConversationTurns crates inner)
      (completedBillableRequests crates inner))).flatMap fun row =>
        relabelledVision inner row.id row.lifecycle).Perm
      (relabelledItems crates inner ++
        fallback.flatMap fun turn => relabelledVision inner turn.id turn.lifecycle) := by
    have hflat := hrows.flatMap_right fun account => relabelledVision inner account.1 account.2.1
    simpa [flatMap_map, UsageSessionRow.account, RequestTurn.account, relabelledItems]
      using hflat
  have hstored : ∀ turn ∈ fallback, ∃ request, turn = turnFromRequest crates request ∧
      requestIsCompletedFinalTurn request = true := by
    intro turn hmem
    obtain ⟨request, _, hturn, hfinal⟩ := h.histories.turns_stored turn (hfallback.1.subset hmem)
    exact ⟨request, hturn, hfinal⟩
  have hunlabelled :
      (fallback.flatMap fun turn => relabelledVision inner turn.id turn.lifecycle) = [] := by
    rw [flatMap_eq_nil_iff]
    intro turn hmem
    obtain ⟨request, rfl, hfinal⟩ := hstored turn hmem
    simp only [requestIsCompletedFinalTurn, decide_eq_true_eq] at hfinal
    simp [relabelledVision, hfinal.2.1]
  have hunbilled : ∀ turn ∈ fallback, turn.billable = false →
      ∀ field, turn.billingItem.tokens field = 0 := by
    intro turn hmem hbillable field
    obtain ⟨request, rfl, _⟩ := hstored turn hmem
    exact tokens_of_not_billable hbillable field
  rw [keyTokens_perm hitems, keyTokens_perm hvision, hunlabelled, append_nil,
    keyTokens_append, keyTokens_filter_billable hunbilled,
    keyTokens_perm ((fallback_billable h hfallback).map _), Nat.add_assoc]

theorem accountsAgree_iff :
    AccountsAgree crates inner now ↔ ExtrasBalance crates inner := by
  constructor
  · intro hagree key field
    have htokens := hagree.tokens key field
    rwa [sessionsTokens_eq h hidle, directTokens_eq] at htokens
  · intro hbalance
    refine ⟨fun key field => ?_, fun session _ bucket hbucket total htotal hkey => ?_⟩
    · rw [sessionsTokens_eq h hidle, directTokens_eq]
      exact hbalance key field
    · exact withoutTokens_of_key hbucket htotal hkey

end

/-- Nothing is counted beside the billable requests: the usual case. -/
theorem extrasBalance_of_none (hrecounted : recountedTurns crates inner = [])
    (hrelabelled : relabelledItems crates inner = []) (hdeepseek : deepseekItems inner = []) :
    ExtrasBalance crates inner := by
  intro key field
  simp [hrecounted, hrelabelled, hdeepseek]

/-- Both accountings agree exactly when what each counts beside the billable requests balances. -/
theorem accounts_agree_iff (h : Reachable crates redactSecretText inner)
    (hidle : ∀ request ∈ inner.requests.values, request.status ≠ .inProgress) (now : DateTime) :
    AccountsAgree crates inner now ↔ ExtrasBalance crates inner :=
  accountsAgree_iff h.wellFormed hidle now

end Crates

/-! ## A vision result on DeepSeek -/

theorem twoSessions_accounts_agree :
    AccountsAgree epochCrates (run epochCrates id StoreInner.default twoSessions) 0 :=
  (accounts_agree_iff ⟨twoSessions, rfl⟩ (by decide +kernel) 0).mpr
    (extrasBalance_of_none (by decide +kernel) (by decide +kernel) (by decide +kernel))

/-- The logged detail of a tool result with vision usage. -/
def visionDetail : Value :=
  .object
    [("id", .string "resp_a"), ("name", .string "vision_analyze"), ("ok", .bool true),
      ("vision", .object
        [("backend", .string "deepseek"), ("model", .string "deepseek-v4-flash-vision-exp"),
          ("usage", .object [("input_tokens", natValue 100), ("output_tokens", natValue 7)])])]

/-- A finished turn whose vision tool ran on DeepSeek. -/
def visionTurn : List (DateTime × Operation) :=
  singleTurn ++
    [(0, .recordEvent "info" "tool_result" "user" "Vision tool result returned." (some visionDetail))]

theorem visionTurn_accounts_differ :
    (∀ request ∈ (run epochCrates id StoreInner.default visionTurn).requests.values,
      request.status ≠ .inProgress) ∧
    ¬ AccountsAgree epochCrates (run epochCrates id StoreInner.default visionTurn) 0 := by
  refine ⟨by decide +kernel, fun h => ?_⟩
  have htokens := h.tokens
    ("deepseek-v4-flash-vision-exp", "deepseek-v4-flash-vision-exp", "off_peak") .total
  exact absurd htokens (by decide +kernel)

end CodeSeeX.Store
