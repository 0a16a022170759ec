import CodeSeeX.Store.RequestOrder

/-!
# What a usage revision promises

A poll of the usage page and the cached summary both rely on the usage revision: as long as it
stays, usage is taken to be what it was. It is, up to the requests in progress, as long as every
operation that writes to a finished request, or drops an event that usage is computed from,
advances the revision.
-/
namespace CodeSeeX.Store
open List HashMap Pricing

variable {event : EventRecord} {f : StoredRequest → StoredRequest} {summary : RuntimeSummary}
  {cursor : Option Text}

/-! ## Sorting and filtering -/

section Sorting
variable {α : Type} {r : α → α → Prop} [DecidableRel r]

theorem filter_orderedInsert [IsTrans α r] (p : α → Bool) (a : α) {l : List α} (h : l.Pairwise r) :
    (l.orderedInsert r a).filter p =
      if p a then (l.filter p).orderedInsert r a else l.filter p := by
  induction l with
  | nil => by_cases ha : p a = true <;> simp [ha]
  | cons b l ih =>
    obtain ⟨hb, hl⟩ := pairwise_cons.mp h
    rw [orderedInsert_cons]
    by_cases hab : r a b
    · rw [if_pos hab]
      by_cases ha : p a = true
      · have hall : ∀ c ∈ (b :: l).filter p, r a c := by
          intro c hc
          rcases mem_cons.mp (mem_of_mem_filter hc) with rfl | hmem
          · exact hab
          · exact Trans.trans hab (hb c hmem)
        rw [filter_cons_of_pos ha, if_pos ha]
        cases hrest : (b :: l).filter p with
        | nil => rfl
        | cons c rest =>
          rw [orderedInsert_cons_of_le r rest (hall c (hrest ▸ mem_cons_self))]
      · rw [filter_cons_of_neg ha, if_neg ha]
    · rw [if_neg hab]
      by_cases hpb : p b = true
      · rw [filter_cons_of_pos hpb, filter_cons_of_pos hpb, ih hl]
        by_cases ha : p a = true
        · rw [if_pos ha, if_pos ha, orderedInsert_of_not_le r _ hab]
        · rw [if_neg ha, if_neg ha]
      · rw [filter_cons_of_neg hpb, filter_cons_of_neg hpb, ih hl]

/-- A stable sort and a filter commute. -/
theorem filter_insertionSort [IsTrans α r] [Std.Total r] (p : α → Bool) (l : List α) :
    (l.insertionSort r).filter p = (l.filter p).insertionSort r := by
  induction l with
  | nil => rfl
  | cons a l ih =>
    rw [insertionSort_cons, filter_orderedInsert p a (pairwise_insertionSort r l), ih]
    by_cases ha : p a = true
    · rw [if_pos ha, filter_cons_of_pos ha, insertionSort_cons]
    · rw [if_neg ha, filter_cons_of_neg ha]

end Sorting

/-! ## The events that usage is computed from -/

def isUsageEvent (event : EventRecord) : Bool :=
  event.eventType ∈ [("tool_call" : Text), "tool_result", "upstream_call_usage_breakdown"]

theorem eventAffectsUsage_of_isUsageEvent (h : isUsageEvent event = true) :
    eventAffectsUsage event.eventType = true := by
  simp only [isUsageEvent, decide_eq_true_eq, mem_cons, not_mem_nil, or_false] at h
  simp only [eventAffectsUsage, decide_eq_true_eq, mem_cons]
  rcases h with h | h | h
  · exact .inl (.inl h)
  · exact .inl (.inr (.inl h))
  · exact .inl (.inr (.inr (.inl h)))

instance : IsTrans EventRecord EventRecord.le where
  trans := by
    intro a b c hab hbc
    unfold EventRecord.le at hab hbc ⊢
    rcases hab with hab | ⟨hab, hid⟩
    · rcases hbc with hbc | ⟨hbc, -⟩
      · exact .inl (lt_trans hab hbc)
      · exact .inl (hbc ▸ hab)
    · rcases hbc with hbc | ⟨hbc, hid'⟩
      · exact .inl (hab ▸ hbc)
      · exact .inr ⟨hab.trans hbc, hid.trans hid'⟩

instance : Std.Total EventRecord.le where
  total := by
    intro a b
    unfold EventRecord.le
    rcases lt_trichotomy a.ts b.ts with h | h | h
    · exact .inl (.inl h)
    · rcases le_total a.id b.id with hid | hid
      · exact .inl (.inr ⟨h, hid⟩)
      · exact .inr (.inr ⟨h.symm, hid⟩)
    · exact .inr (.inl h)

/-! ## States with the same usage -/

/-- A request as it was, or one of neither history with other tool facts, turn messages or time of
its last change, and the same user summary. -/
structure Alike (request later : StoredRequest) : Prop where
  eq : later = { request with
    turnMessages := later.turnMessages
    toolFacts := later.toolFacts
    updatedAt := later.updatedAt }
  summary : usageSummaryKey later = usageSummaryKey request
  listed : requestIsCompletedFinalTurn request = true ∨
    requestIsCompletedBillableRequest request = true → later = request

section Alike
variable {request later last : StoredRequest}

theorem Alike.refl (request : StoredRequest) : Alike request request := ⟨rfl, rfl, fun _ => rfl⟩

section
variable (h : Alike request later)
include h

theorem Alike.id : later.id = request.id := by
  rw [h.eq]

theorem Alike.status : later.status = request.status := by
  rw [h.eq]

theorem Alike.createdAt : later.createdAt = request.createdAt := by
  rw [h.eq]

theorem Alike.previousResponseId :
    later.previousResponseId = request.previousResponseId := by
  rw [h.eq]

theorem Alike.lifecycle :
    requestLifecycle later = requestLifecycle request := by
  rw [h.eq]
  rfl

theorem Alike.guardStopped :
    requestHasGuardStopped later = requestHasGuardStopped request := by
  rw [h.eq]
  rfl

end

theorem Alike.promptCacheKey (crates : StoreCrates) (h : Alike request later) :
    usagePromptCacheKey crates later = usagePromptCacheKey crates request := by
  rw [h.eq]
  rfl

theorem Alike.completedFinalTurn (h : Alike request later) :
    requestIsCompletedFinalTurn later = requestIsCompletedFinalTurn request := by
  rw [h.eq]
  rfl

theorem Alike.completedBillable (h : Alike request later) :
    requestIsCompletedBillableRequest later = requestIsCompletedBillableRequest request := by
  rw [h.eq]
  rfl

theorem Alike.trans (h : Alike request later) (hlast : Alike later last) : Alike request last where
  eq := by
    rw [hlast.eq, h.eq]
  summary := hlast.summary.trans h.summary
  listed := by
    intro hlisted
    rw [hlast.listed (h.completedFinalTurn ▸ h.completedBillable ▸ hlisted), h.listed hlisted]

end Alike

/-- Nothing that usage is computed from differs, but for requests of neither history. -/
structure SameUsage (inner later : StoreInner) : Prop where
  order : later.requestOrder = inner.requestOrder
  requests : ∀ id, Option.Rel Alike (inner.requests.lookup id) (later.requests.lookup id)
  counts : ∀ p : StoredRequest → Bool, (∀ request other, Alike request other → p other = p request) →
    countRequests later p = countRequests inner p
  events : later.events.filter isUsageEvent = inner.events.filter isUsageEvent

section SameUsage
variable {crates : StoreCrates} {inner later last : StoreInner}

theorem alike_refl (stored : Option StoredRequest) : Option.Rel Alike stored stored := by
  cases stored with
  | none => exact Option.Rel.none
  | some request => exact Option.Rel.some (Alike.refl request)

theorem alike_trans {stored other third : Option StoredRequest} (h : Option.Rel Alike stored other)
    (hthird : Option.Rel Alike other third) : Option.Rel Alike stored third := by
  cases h with
  | none => exact hthird
  | some hsome =>
    cases hthird with
    | some hlater => exact Option.Rel.some (hsome.trans hlater)

theorem SameUsage.refl (inner : StoreInner) : SameUsage inner inner :=
  ⟨rfl, fun _ => alike_refl _, fun _ _ => rfl, rfl⟩

theorem SameUsage.trans (h : SameUsage inner later) (hlast : SameUsage later last) :
    SameUsage inner last where
  order := hlast.order.trans h.order
  requests := fun id => alike_trans (h.requests id) (hlast.requests id)
  counts := fun p hp => (hlast.counts p hp).trans (h.counts p hp)
  events := hlast.events.trans h.events

/-- What is read of a stored request is the same where requests alike agree on it. -/
theorem map_alike {ρ : Type} {read : StoredRequest → ρ} (h : SameUsage inner later)
    (hread : ∀ request other, Alike request other → read other = read request) (id : Text) :
    (later.requests.lookup id).map read = (inner.requests.lookup id).map read := by
  have hid := h.requests id
  revert hid
  generalize inner.requests.lookup id = stored
  generalize later.requests.lookup id = other
  intro hid
  cases hid with
  | none => rfl
  | some halike => exact congrArg some (hread _ _ halike)

/-! ### The histories -/

theorem orderedRequests_alike (h : SameUsage inner later) :
    List.Forall₂ Alike inner.orderedRequests later.orderedRequests := by
  rw [StoreInner.orderedRequests, StoreInner.orderedRequests, h.order]
  induction inner.requestOrder with
  | nil => exact Forall₂.nil
  | cons id order ih =>
    have hid := h.requests id
    rw [filterMap_cons, filterMap_cons]
    revert hid
    generalize inner.requests.lookup id = stored
    generalize later.requests.lookup id = other
    intro hid
    cases hid with
    | none => exact ih
    | some halike => exact Forall₂.cons halike ih

/-- Requests of the histories are listed unchanged. -/
theorem filter_alike {p : StoredRequest → Bool} {requests others : List StoredRequest}
    (h : List.Forall₂ Alike requests others)
    (hp : ∀ request other, Alike request other → p other = p request)
    (hlisted : ∀ request, p request = true → requestIsCompletedFinalTurn request = true ∨
      requestIsCompletedBillableRequest request = true) :
    others.filter p = requests.filter p := by
  induction h with
  | nil => rfl
  | @cons request other requests others halike _ ih =>
    by_cases hrequest : p request = true
    · have hother := (hp request other halike).trans hrequest
      rw [filter_cons_of_pos hrequest, filter_cons_of_pos hother, ih,
        halike.listed (hlisted request hrequest)]
    · have hother : ¬ p other = true := by rwa [hp request other halike]
      rw [filter_cons_of_neg hrequest, filter_cons_of_neg hother, ih]

theorem finalTurns_same (h : SameUsage inner later) :
    completedConversationTurns crates later = completedConversationTurns crates inner := by
  rw [completedConversationTurns, completedConversationTurns,
    filter_alike (orderedRequests_alike h) fun _ _ halike => halike.completedFinalTurn]
  exact fun _ => .inl

theorem billableRequests_same (h : SameUsage inner later) :
    completedBillableRequests crates later = completedBillableRequests crates inner := by
  rw [completedBillableRequests, completedBillableRequests,
    filter_alike (orderedRequests_alike h) fun _ _ halike => halike.completedBillable]
  exact fun _ => .inr

/-! ### Events -/

theorem filter_toolResults (events : List EventRecord) :
    events.filter (fun event => event.eventType = ("tool_result" : Text)) =
      (events.filter isUsageEvent).filter
        (fun event => event.eventType = ("tool_result" : Text)) := by
  rw [filter_filter]
  refine filter_congr fun event _ => ?_
  by_cases htype : event.eventType = ("tool_result" : Text)
  · simp [isUsageEvent, htype]
  · simp [htype]

theorem visionSegments_same (h : SameUsage inner later) :
    visionSegments later = visionSegments inner := by
  rw [visionSegments, visionSegments, filter_toolResults later.events, h.events,
    ← filter_toolResults]

theorem requestEvents_same (h : SameUsage inner later) (id : Text) :
    (requestEvents later id).filter isUsageEvent = (requestEvents inner id).filter isUsageEvent := by
  have hread : ∀ events : List EventRecord,
      (events.filter fun event => eventDetailId event = some id).filter isUsageEvent =
        (events.filter isUsageEvent).filter fun event => eventDetailId event = some id := by
    intro events
    rw [filter_filter, filter_filter]
    exact filter_congr fun event _ => Bool.and_comm _ _
  rw [requestEvents, requestEvents, filter_insertionSort, filter_insertionSort, hread, hread,
    h.events]

/-- The segments of a row are made of the events that usage is computed from. -/
theorem rowSegments_same (h : SameUsage inner later) (row : UsageSessionRow) :
    usageRequestEventSegments later row = usageRequestEventSegments inner row := by
  have htools : ∀ events : List EventRecord,
      (events.any fun event =>
        event.eventType = ("tool_call" : Text) ∨ event.eventType = ("tool_result" : Text)) =
      (events.filter isUsageEvent).any fun event =>
        event.eventType = ("tool_call" : Text) ∨ event.eventType = ("tool_result" : Text) := by
    intro events
    rw [any_filter]
    refine any_congr rfl fun event => ?_
    by_cases htype : event.eventType = ("tool_call" : Text) ∨
        event.eventType = ("tool_result" : Text)
    · rcases htype with htype | htype <;> simp [isUsageEvent, htype]
    · simp [htype]
  have hsegments : ∀ (completed : List Text) (hasTools : Bool) (events : List EventRecord),
      events.filterMap (usageEventSegment row completed hasTools) =
        (events.filter isUsageEvent).filterMap (usageEventSegment row completed hasTools) := by
    intro completed hasTools events
    rw [filterMap_filter]
    refine filterMap_congr fun event _ => ?_
    by_cases htype : isUsageEvent event = true
    · rw [if_pos htype]
    · rw [if_neg htype]
      simp only [isUsageEvent, decide_eq_true_eq, mem_cons, not_mem_nil, or_false,
        not_or] at htype
      obtain ⟨hcall, hresult, husage⟩ := htype
      rw [usageEventSegment, if_neg fun hboth => husage hboth.1, if_neg hcall, if_neg hresult]
  have hevents := requestEvents_same h row.id
  unfold usageRequestEventSegments
  dsimp only
  rw [filter_toolResults (requestEvents later row.id), htools (requestEvents later row.id),
    hsegments, hevents, ← filter_toolResults, ← htools, ← hsegments]

/-! ### One session -/

section
variable (h : SameUsage inner later)
include h

theorem rowSortTs_same : rowSortTs later = rowSortTs inner := by
  funext id
  rw [rowSortTs, rowSortTs, map_alike h fun _ _ halike => halike.createdAt]

theorem rowLe_same : rowLe later = rowLe inner := by
  funext left right
  rw [rowLe, rowLe, rowSortTs_same h]

theorem sessionSegments_same (rows : List UsageSessionRow) :
    usageSessionSegments later rows = usageSessionSegments inner rows := by
  have hstep : addRowSegments later = addRowSegments inner := by
    funext segments row
    rw [addRowSegments, addRowSegments, rowSegments_same h]
  rw [usageSessionSegments, usageSessionSegments, hstep]

theorem sessionTitle_same (anchor : RequestTurn) (id : Text) :
    usageSessionTitle anchor (later.requests.lookup id) =
      usageSessionTitle anchor (inner.requests.lookup id) := by
  have hsummary : (later.requests.lookup id).bind latestUserSummary =
      (inner.requests.lookup id).bind latestUserSummary := by
    have hmap := map_alike h (fun _ _ halike => halike.summary) id
    have hjoin : ∀ stored : Option StoredRequest,
        stored.bind latestUserSummary = (stored.map usageSummaryKey).join := by
      intro stored
      cases stored <;> rfl
    rw [hjoin, hjoin, hmap]
  rw [usageSessionTitle, usageSessionTitle, hsummary]

theorem sessionFromRows_same (anchor : RequestTurn) (id : Text)
    (rows : List UsageSessionRow) (conversationTurn : Bool) :
    usageSessionFromRows later anchor (later.requests.lookup id) rows conversationTurn =
      usageSessionFromRows inner anchor (inner.requests.lookup id) rows conversationTurn := by
  rw [usageSessionFromRows, usageSessionFromRows, sessionTitle_same h, sessionSegments_same h]

end

/-! ### The passes -/

section
variable (h : SameUsage inner later)
include h

theorem usageChains_same :
    usageChains later = usageChains inner := by
  have hchain : usageChainForFinalTurn later = usageChainForFinalTurn inner := by
    funext id
    rw [usageChainForFinalTurn, usageChainForFinalTurn,
      PointerWalk.walk_congr (map_alike h fun _ _ halike => halike.previousResponseId)]
  funext history
  rw [usageChains, usageChains, hchain]

theorem finalAnchors_same (history : List RequestTurn) :
    usageFinalAnchors crates later history = usageFinalAnchors crates inner history := by
  have hanchor : ∀ turn : RequestTurn,
      (later.requests.lookup turn.id).map (fun request => usageFinalAnchor crates request turn.id) =
        (inner.requests.lookup turn.id).map fun request =>
          usageFinalAnchor crates request turn.id := by
    intro turn
    refine map_alike h (fun request other halike => ?_) turn.id
    rw [usageFinalAnchor, usageFinalAnchor, halike.createdAt, halike.summary,
      halike.promptCacheKey crates]
  rw [usageFinalAnchors, usageFinalAnchors, funext hanchor]

theorem requestsByFinalTurn_same (finals : List UsageFinalAnchor)
    {matches_ : StoredRequest → Bool}
    (hmatches : ∀ request other, Alike request other → matches_ other = matches_ request) :
    usageRequestsByFinalTurn crates later finals matches_ =
      usageRequestsByFinalTurn crates inner finals matches_ := by
  have hfold : ∀ (requests others : List StoredRequest) (output : HashMap Text (List Text)),
      Forall₂ Alike requests others →
        others.foldl (addAnchored crates finals matches_) output =
          requests.foldl (addAnchored crates finals matches_) output := by
    intro requests others output halike
    induction halike generalizing output with
    | nil => rfl
    | @cons request other requests others hhead _ ih =>
      have hstep : addAnchored crates finals matches_ output other =
          addAnchored crates finals matches_ output request := by
        rw [addAnchored, addAnchored, hmatches request other hhead, usageFinalAnchorForHandoff,
          usageFinalAnchorForHandoff, hhead.summary, hhead.promptCacheKey crates, hhead.createdAt,
          hhead.id]
      rw [foldl_cons, foldl_cons, hstep, ih]
  exact hfold _ _ ∅ (orderedRequests_alike h)

theorem initialPass_same (turnHistory billableHistory : List RequestTurn) :
    initialPass crates later turnHistory billableHistory =
      initialPass crates inner turnHistory billableHistory := by
  have hhandoffs : ∀ request other, Alike request other →
      handoffMatches (usageChains inner turnHistory) other =
        handoffMatches (usageChains inner turnHistory) request := by
    intro request other halike
    rw [handoffMatches, handoffMatches, halike.lifecycle, halike.id]
  rw [initialPass, initialPass, usageChains_same h, finalAnchors_same h,
    requestsByFinalTurn_same h _ hhandoffs,
    requestsByFinalTurn_same h _ fun _ _ halike => halike.guardStopped]

theorem finalTurnStep_same (chains : HashMap Text (List Text)) :
    finalTurnStep later chains = finalTurnStep inner chains := by
  funext pass finalTurn
  simp only [finalTurnStep, rowLe_same h, sessionFromRows_same h]

theorem finalPass_same (turnHistory billableHistory : List RequestTurn) :
    finalPass crates later turnHistory billableHistory =
      finalPass crates inner turnHistory billableHistory := by
  rw [finalPass, finalPass, initialPass_same h, usageChains_same h, finalTurnStep_same h]

theorem nonFinalGroups_same (pool : HashMap Text RequestTurn) :
    sortedNonFinalGroups crates later pool = sortedNonFinalGroups crates inner pool := by
  have hadd : addNonFinal crates later = addNonFinal crates inner := by
    funext groups turn
    have hid := h.requests turn.id
    rw [addNonFinal, addNonFinal]
    revert hid
    generalize inner.requests.lookup turn.id = stored
    generalize later.requests.lookup turn.id = other
    intro hid
    cases hid with
    | none => rfl
    | some halike =>
      dsimp only
      rw [halike.guardStopped, usageNonFinalSessionKey, usageNonFinalSessionKey, halike.summary,
        halike.promptCacheKey crates, halike.id]
  have hts : nonFinalGroupTs later = nonFinalGroupTs inner := by
    funext ids
    rw [nonFinalGroupTs, nonFinalGroupTs, rowSortTs_same h]
  simp only [sortedNonFinalGroups, nonFinalGroups, hadd, hts]

theorem nonFinalGroupStep_same :
    nonFinalGroupStep later = nonFinalGroupStep inner := by
  have hsession : usageNonFinalSessionFromRows later = usageNonFinalSessionFromRows inner := by
    funext anchor rows
    rw [usageNonFinalSessionFromRows, usageNonFinalSessionFromRows, sessionFromRows_same h]
  funext acc group
  simp only [nonFinalGroupStep, rowLe_same h, hsession]

theorem leftOverStep_same (ids : List Text) :
    leftOverStep later ids = leftOverStep inner ids := by
  have hguard : requestHasGuardStoppedById later = requestHasGuardStoppedById inner := by
    funext id
    rw [requestHasGuardStoppedById, requestHasGuardStoppedById,
      map_alike h fun _ _ halike => halike.guardStopped]
  funext acc turn
  simp only [leftOverStep, hguard, sessionFromRows_same h]

theorem settledSessions_same (turnHistory billableHistory : List RequestTurn) :
    settledSessions crates later turnHistory billableHistory =
      settledSessions crates inner turnHistory billableHistory := by
  rw [settledSessions, settledSessions, nonFinalPass, nonFinalPass, finalPass_same h,
    nonFinalGroups_same h, nonFinalGroupStep_same h, leftOverStep_same h]

end

end SameUsage

/-! ## Steps -/

section Steps
variable {crates : StoreCrates} {redactSecretText : Text → Text} {inner later : StoreInner}
  {now : DateTime} {tracked : Prop}

/-- What an operation does to the revision: it advances it and drops the cache, or usage stays if
the operation is tracked. -/
inductive RevisionStep (crates : StoreCrates) (tracked : Prop) (inner later : StoreInner) : Prop where
  | advanced (cache : later.usageCache = none) (bound : later.usageRevision ≤ u64Max)
      (up : inner.usageRevision ≤ u64Max → inner.usageRevision ≤ later.usageRevision)
      (strict : inner.usageRevision < u64Max → inner.usageRevision < later.usageRevision)
  | kept (same : tracked → SameUsage inner later)
      (revision : later.usageRevision = inner.usageRevision)
      (cache : later.usageCache = none ∨ later.usageCache = inner.usageCache ∨
        SameUsage inner later ∧ ∃ time, later.usageCache =
          some ⟨inner.usageRevision, freshUsageSummary crates inner time⟩)

theorem RevisionStep.refl (inner : StoreInner) : RevisionStep crates tracked inner inner :=
  .kept (fun _ => SameUsage.refl inner) rfl (.inr (.inl rfl))

/-- The revision is advanced behind a step, whatever else is done. -/
theorem revisionStep_bump {middle wide : StoreInner} (h : RevisionStep crates tracked inner middle)
    (hwide : wide.usageRevision = middle.usageRevision) :
    RevisionStep crates tracked inner (bumpUsageRevision wide) := by
  have hrevision : (bumpUsageRevision wide).usageRevision =
      min (middle.usageRevision + 1) u64Max := by
    rw [bumpUsageRevision, saturatingAdd, hwide]
  have hbound : (bumpUsageRevision wide).usageRevision ≤ u64Max := by
    rw [hrevision]
    exact Nat.min_le_right _ _
  cases h with
  | kept same revision cache =>
    refine .advanced rfl hbound ?_ ?_
    · intro hle
      omega
    · intro hlt
      omega
  | advanced cache bound up strict =>
    refine .advanced rfl hbound ?_ ?_
    · intro hle
      have hup := up hle
      omega
    · intro hlt
      have hup := strict hlt
      omega

theorem sameUsage_frame (horder : later.requestOrder = inner.requestOrder)
    (hrequests : later.requests = inner.requests)
    (hevents : later.events.filter isUsageEvent = inner.events.filter isUsageEvent) :
    SameUsage inner later where
  order := horder
  requests := by
    intro id
    rw [hrequests]
    exact alike_refl _
  counts := by
    intro p _
    rw [countRequests, countRequests, hrequests]
  events := hevents

theorem sameUsage_update {id : Text}
    (hf : ∀ request, inner.requests.lookup id = some request → Alike request (f request)) :
    SameUsage inner (updateRequest inner id f) where
  order := rfl
  requests := by
    intro other
    rw [updateRequest]
    by_cases hother : other = id
    · subst hother
      rw [lookup_modify_self]
      cases hstored : inner.requests.lookup other with
      | none => exact Option.Rel.none
      | some request => exact Option.Rel.some (hf request hstored)
    · rw [lookup_modify_ne _ _ hother]
      exact alike_refl _
  counts := by
    intro p hp
    rw [countRequests, countRequests, updateRequest]
    cases hstored : inner.requests.lookup id with
    | none => simp [HashMap.modify, hstored]
    | some request =>
      have hbefore := values_perm_erase hstored
      have hafter : HashMap.values (inner.requests.modify id f) =
          f request :: HashMap.values (inner.requests.erase id) := by
        rw [HashMap.modify, hstored]
        rfl
      rw [hafter, hbefore.countP_eq, countP_cons, countP_cons,
        hp request (f request) (hf request hstored)]
  events := rfl

/-- A request that is changed is in neither history and keeps its user summary. -/
def LeavesListed (inner later : StoreInner) (id : Text) : Prop :=
  ∀ request changed, inner.requests.lookup id = some request →
    later.requests.lookup id = some changed → changed ≠ request →
      requestIsCompletedFinalTurn request = false ∧
        requestIsCompletedBillableRequest request = false ∧
        usageSummaryKey changed = usageSummaryKey request

/-- Tool facts and turn messages are written to requests of neither history and leave their user
summary, and an event that does not advance the revision pushes none out of the buffer that usage is
computed from. -/
def Tracked (crates : StoreCrates) (redactSecretText : Text → Text) (inner : StoreInner)
    (now : DateTime) (op : Operation) : Prop :=
  match op with
  | .appendRequestToolFact id _ | .replaceRequestTurnMessages id _
  | .appendRequestTurnMessages id _ =>
      LeavesListed inner (perform crates redactSecretText inner now op) id
  | .recordEvent _ eventType _ _ _ => eventAffectsUsage eventType = false →
      ∀ event ∈ inner.events.take (inner.events.length + 1 - maxRuntimeEvents),
        isUsageEvent event = false
  | _ => True

theorem sameUsage_written {id : Text} (hf : ∀ request, f request = { request with
      turnMessages := (f request).turnMessages
      toolFacts := (f request).toolFacts
      updatedAt := (f request).updatedAt })
    (h : LeavesListed inner (updateRequest inner id f) id) :
    SameUsage inner (updateRequest inner id f) := by
  apply sameUsage_update
  intro request hstored
  by_cases hchanged : f request = request
  · rw [hchanged]
    exact Alike.refl request
  · have hlater : (updateRequest inner id f).requests.lookup id = some (f request) := by
      rw [updateRequest, lookup_modify_self, hstored]
      rfl
    obtain ⟨hfinal, hbillable, hsummary⟩ := h request (f request) hstored hlater hchanged
    refine ⟨hf request, hsummary, ?_⟩
    rintro (hlisted | hlisted)
    · rw [hfinal] at hlisted
      cases hlisted
    · rw [hbillable] at hlisted
      cases hlisted

/-! ### Operations -/

theorem revisionStep_prune {start : StoreInner} (h : start.usageRevision = inner.usageRevision)
    (now : DateTime) :
    RevisionStep crates tracked inner (bumpUsageRevision (pruneRuntimeRequests start now)) := by
  have hmarked : RevisionStep crates tracked inner (bumpUsageRevision start) :=
    revisionStep_bump (RevisionStep.refl inner) h
  unfold pruneRuntimeRequests markStaleInProgressRequests
  split_ifs
  · exact revisionStep_bump hmarked rfl
  · exact revisionStep_bump (RevisionStep.refl inner) h

theorem revisionStep_checkpoint (now : DateTime) (id : Text)
    (previousResponseId model : Option Text) (input : Value) :
    RevisionStep crates tracked inner
      (checkpointRequest crates inner now id previousResponseId model input) := by
  by_cases hmem : id ∈ inner.requests
  · rw [checkpointRequest, if_pos hmem]
    exact RevisionStep.refl inner
  · rw [checkpointRequest_new hmem]
    exact @revisionStep_prune crates inner _
      (insertRequest crates inner now id previousResponseId model input) rfl now

section
variable {middle : StoreInner} (h : RevisionStep crates tracked inner middle) (now : DateTime) (id : Text)
include h

theorem revisionStep_diagnostic (diagnostic : Value) :
    RevisionStep crates tracked inner (updateRequestDiagnostic crates middle now id diagnostic) := by
  unfold updateRequestDiagnostic
  cases middle.requests.lookup id with
  | none => exact h
  | some request => exact revisionStep_bump h rfl

theorem revisionStep_settle (diagnostics : List Value) :
    RevisionStep crates tracked inner
      (settleClientToolHandoffOutputs crates middle now id diagnostics) := by
  induction diagnostics generalizing middle with
  | nil => exact h
  | cons diagnostic diagnostics ih => exact ih (revisionStep_diagnostic h now id diagnostic)

end

theorem mapValues_self {requests : HashMap Text StoredRequest}
    (h : ∀ request ∈ requests.values, f request = request) : requests.mapValues f = requests := by
  apply AList.ext
  refine (map_congr_left fun entry hmem => ?_).trans (map_id _)
  obtain ⟨id, request⟩ := entry
  have hsame := h request (mem_map.mpr ⟨_, hmem, rfl⟩)
  rw [hsame]
  rfl

theorem revisionStep_recover (now : DateTime) (reason : Text) :
    RevisionStep crates tracked inner (recoverInterruptedRequests inner now reason) := by
  unfold recoverInterruptedRequests
  split_ifs with hany
  · exact revisionStep_bump (RevisionStep.refl inner) rfl
  · have hnone : ∀ request ∈ inner.requests.values, request.status ≠ .inProgress := by
      intro request hmem hstatus
      exact hany (any_eq_true.mpr ⟨request, hmem, by simp [hstatus]⟩)
    rw [mapValues_self fun request hmem => if_neg (hnone request hmem)]
    exact RevisionStep.refl inner

/-- An event that usage is not computed from leaves usage, if it pushes out no other. -/
theorem sameUsage_append (hevent : isUsageEvent event = false)
    (hdropped : ∀ dropped ∈ inner.events.take (inner.events.length + 1 - maxRuntimeEvents),
      isUsageEvent dropped = false) (horder : later.requestOrder = inner.requestOrder)
    (hrequests : later.requests = inner.requests)
    (hevents : later.events = newest maxRuntimeEvents (inner.events ++ [event])) :
    SameUsage inner later := by
  refine sameUsage_frame horder hrequests ?_
  have hlength : (inner.events ++ [event]).length - maxRuntimeEvents =
      inner.events.length + 1 - maxRuntimeEvents := by
    rw [length_append, length_singleton]
  have hle : inner.events.length + 1 - maxRuntimeEvents ≤ inner.events.length := by
    rw [maxRuntimeEvents]
    omega
  have hkept : (inner.events.take (inner.events.length + 1 - maxRuntimeEvents)).filter
      isUsageEvent = [] := by
    rw [filter_eq_nil_iff]
    intro dropped hmem
    rw [hdropped dropped hmem]
    exact Bool.false_ne_true
  rw [hevents, newest_eq_drop, hlength, drop_append_of_le_length hle, filter_append,
    filter_cons_of_neg (by rw [hevent]; exact Bool.false_ne_true), filter_nil,
    append_nil]
  conv_rhs => rw [← take_append_drop
    (inner.events.length + 1 - maxRuntimeEvents) inner.events]
  rw [filter_append, hkept, nil_append]

theorem usageRevision_apply {state : StoreInner} (now : DateTime) (event : EventRecord) :
    (applyUpstreamUsageEventToRequest state now event).usageRevision = state.usageRevision := by
  unfold applyUpstreamUsageEventToRequest
  cases upstreamUsageUpdate state event <;> rfl

theorem revisionStep_event (now : DateTime) (level eventType audience message : Text)
    (detail : Option Value) :
    RevisionStep crates (eventAffectsUsage eventType = false →
        ∀ dropped ∈ inner.events.take (inner.events.length + 1 - maxRuntimeEvents),
          isUsageEvent dropped = false) inner
      (recordEvent crates inner now level eventType audience message detail) := by
  rw [recordEvent]
  generalize hevent : ({ id := min (inner.nextEventId + 1) (2 ^ 63 - 1)
                         level := level
                         eventType := eventType
                         audience := some audience
                         message := message
                         detail := detail
                         ts := crates.toRfc3339 now } : EventRecord) = event
  have htype : event.eventType = eventType := by rw [← hevent]
  rw [pushRuntimeEvent]
  split_ifs with haffects
  · exact @revisionStep_bump crates inner _ inner (appendEvent (bumpEventRevision
      (applyUpstreamUsageEventToRequest
        { inner with nextEventId := min (inner.nextEventId + 1) (2 ^ 63 - 1) } now event)) event)
      (RevisionStep.refl inner) (usageRevision_apply now event)
  · rw [not_or] at haffects
    have hnone : upstreamUsageUpdate
        { inner with nextEventId := min (inner.nextEventId + 1) (2 ^ 63 - 1) } event = none :=
      Option.not_isSome_iff_eq_none.mp haffects.2
    have husage : isUsageEvent event = false := by
      by_contra husage
      exact haffects.1 (eventAffectsUsage_of_isUsageEvent (Bool.not_eq_false _ ▸ husage))
    rw [applyUpstreamUsageEventToRequest, hnone]
    refine .kept (fun hdropped => ?_) rfl (.inr (.inl rfl))
    exact sameUsage_append husage (hdropped (htype ▸ Bool.eq_false_of_not_eq_true haffects.1)) rfl
      rfl rfl

theorem revisionStep_cached (now : DateTime) :
    RevisionStep crates tracked inner (cachedUsageSummary crates inner now).2 := by
  unfold cachedUsageSummary
  split
  · exact RevisionStep.refl inner
  · exact .kept (fun _ => sameUsage_frame rfl rfl rfl) rfl
      (.inr (.inr ⟨sameUsage_frame rfl rfl rfl, now, rfl⟩))

theorem revisionStep (op : Operation) :
    RevisionStep crates (Tracked crates redactSecretText inner now op) inner
      (perform crates redactSecretText inner now op) := by
  cases op with
  | setPricingTable pricing =>
    rw [perform, setPricingTable]
    split_ifs
    · exact .kept (fun _ => sameUsage_frame rfl rfl rfl) rfl (.inl rfl)
    · exact RevisionStep.refl inner
  | checkpointRequest id previousResponseId model input =>
    exact revisionStep_checkpoint now id previousResponseId model input
  | appendRequestToolFact id fact =>
    exact .kept (sameUsage_written fun _ => rfl) rfl (.inr (.inl rfl))
  | replaceRequestTurnMessages id messages =>
    exact .kept (sameUsage_written fun _ => rfl) rfl (.inr (.inl rfl))
  | appendRequestTurnMessages id messages =>
    rw [Tracked, perform, appendRequestTurnMessages]
    split_ifs with hempty
    · exact RevisionStep.refl inner
    · exact .kept (sameUsage_written fun _ => rfl) rfl (.inr (.inl rfl))
  | finishRequest id status response diagnostic =>
    rw [perform, finishRequest]
    cases inner.requests.lookup id with
    | none => exact RevisionStep.refl inner
    | some request =>
      dsimp only
      split_ifs
      · exact RevisionStep.refl inner
      · exact revisionStep_bump (RevisionStep.refl inner) rfl
  | interruptRequestIfInProgress id reason =>
    rw [perform, interruptRequestIfInProgress]
    cases inner.requests.lookup id with
    | none => exact RevisionStep.refl inner
    | some request =>
      dsimp only
      split_ifs
      · exact RevisionStep.refl inner
      · exact revisionStep_bump (RevisionStep.refl inner) rfl
  | updateRequestDiagnostic id diagnostic =>
    exact revisionStep_diagnostic (RevisionStep.refl inner) now id diagnostic
  | settleClientToolHandoffOutputs id diagnostics =>
    exact revisionStep_settle (RevisionStep.refl inner) now id diagnostics
  | recordClientToolHandoffCalls id diagnostics =>
    exact revisionStep_bump (revisionStep_settle (RevisionStep.refl inner) now id diagnostics) rfl
  | recoverInterruptedRequests reason => exact revisionStep_recover now reason
  | recordEvent level eventType audience message detail =>
    exact revisionStep_event now level eventType audience message detail
  | usagePage limit cursor sinceRevision =>
    rw [perform, usagePage]
    split_ifs
    · exact RevisionStep.refl inner
    · exact revisionStep_cached now
  | usageSessionDetail id => exact revisionStep_cached now

end Steps

/-! ## Runs -/

section Runs
variable {crates : StoreCrates} {redactSecretText : Text → Text} {inner later : StoreInner}
  {operations : List (DateTime × Operation)}

/-- The operations of a run are tracked, each in the state in which it begins. -/
def TrackedRun (crates : StoreCrates) (redactSecretText : Text → Text) (inner : StoreInner) :
    List (DateTime × Operation) → Prop
  | [] => True
  | (now, op) :: operations =>
      Tracked crates redactSecretText inner now op ∧
        TrackedRun crates redactSecretText (perform crates redactSecretText inner now op) operations

/-- The operations of a run are tracked as long as a summary is cached. -/
def CachedRun (crates : StoreCrates) (redactSecretText : Text → Text) (inner : StoreInner) :
    List (DateTime × Operation) → Prop
  | [] => True
  | (now, op) :: operations =>
      (inner.usageCache = none ∨ Tracked crates redactSecretText inner now op) ∧
        CachedRun crates redactSecretText (perform crates redactSecretText inner now op) operations

/-- The summary was computed in a state of the same revision, with the same usage. -/
def ComputedAlike (crates : StoreCrates) (inner : StoreInner) (summary : RuntimeSummary) : Prop :=
  ∃ source time, SameUsage source inner ∧ source.usageRevision = inner.usageRevision ∧
    summary = freshUsageSummary crates source time

theorem computedAlike_fresh (inner : StoreInner) (time : DateTime) :
    ComputedAlike crates inner (freshUsageSummary crates inner time) :=
  ⟨inner, time, SameUsage.refl inner, rfl, rfl⟩

theorem ComputedAlike.same (h : ComputedAlike crates inner summary) (hsame : SameUsage inner later)
    (hrevision : later.usageRevision = inner.usageRevision) :
    ComputedAlike crates later summary := by
  obtain ⟨source, time, hsource, hequal, hsummary⟩ := h
  exact ⟨source, time, hsource.trans hsame, hequal.trans hrevision.symm, hsummary⟩

/-- A summary that is cached was computed in a state of the same revision, with the same usage. -/
def CacheSound (crates : StoreCrates) (inner : StoreInner) : Prop :=
  ∀ cache, inner.usageCache = some cache → ComputedAlike crates inner cache.summary

theorem CacheSound.step {tracked : Prop} (h : CacheSound crates inner)
    (hstep : RevisionStep crates tracked inner later) (htracked : inner.usageCache = none ∨ tracked) :
    CacheSound crates later := by
  intro stored hstored
  cases hstep with
  | advanced cache bound up strict =>
    rw [cache] at hstored
    cases hstored
  | kept same revision cache =>
    rcases cache with hnone | hequal | ⟨hsame, time, hfresh⟩
    · rw [hnone] at hstored
      cases hstored
    · rw [hequal] at hstored
      rcases htracked with hnone | htracked
      · rw [hnone] at hstored
        cases hstored
      · exact (h stored hstored).same (same htracked) revision
    · rw [hfresh, Option.some_inj] at hstored
      subst hstored
      exact (computedAlike_fresh inner time).same hsame revision

theorem CacheSound.run (h : CacheSound crates inner)
    (hcached : CachedRun crates redactSecretText inner operations) :
    CacheSound crates (run crates redactSecretText inner operations) := by
  induction operations generalizing inner with
  | nil => exact h
  | cons op operations ih => exact ih (h.step (revisionStep op.2) hcached.1) hcached.2

/-- The revision never goes back, and while it stays, usage stays. -/
theorem sameUsage_run (h : inner.usageRevision ≤ u64Max)
    (htracked : TrackedRun crates redactSecretText inner operations) :
    inner.usageRevision ≤ (run crates redactSecretText inner operations).usageRevision ∧
      ((run crates redactSecretText inner operations).usageRevision = inner.usageRevision →
        inner.usageRevision < u64Max →
          SameUsage inner (run crates redactSecretText inner operations)) := by
  induction operations generalizing inner with
  | nil => exact ⟨le_rfl, fun _ _ => SameUsage.refl inner⟩
  | cons op operations ih =>
    obtain ⟨hfirst, hrest⟩ := htracked
    have hrun : run crates redactSecretText inner (op :: operations) =
        run crates redactSecretText (perform crates redactSecretText inner op.1 op.2)
          operations := rfl
    rw [hrun]
    cases @revisionStep crates redactSecretText inner op.1 op.2 with
    | advanced cache bound up strict =>
      obtain ⟨hle, -⟩ := ih bound hrest
      have hup := up h
      refine ⟨hup.trans hle, fun hequal hlt => ?_⟩
      have hstrict := strict hlt
      omega
    | kept same revision cache =>
      obtain ⟨hle, hsame⟩ := ih (revision.le.trans h) hrest
      refine ⟨revision.ge.trans hle, fun hequal hlt => ?_⟩
      exact (same hfirst).trans (hsame (hequal.trans revision.symm) (revision.le.trans_lt hlt))

end Runs

/-! ## What is served -/

section Served
variable {crates : StoreCrates} {redactSecretText : Text → Text} {inner source : StoreInner}
  {now time : DateTime}

def stateSettled (crates : StoreCrates) (inner : StoreInner) : List UsageSession :=
  settledSessions crates inner (completedConversationTurns crates inner)
    (completedBillableRequests crates inner)

/-- Sessions, with the requests that a state had in progress at a time joined to them. -/
def joinedSessions (crates : StoreCrates) (source : StoreInner) (time : DateTime)
    (settled : List UsageSession) : List UsageSession :=
  (withActiveSessions crates source time settled).insertionSort fun left right =>
    left.completedAt ≤ right.completedAt

/-- A summary tells the usage of a state: computed now it would differ at most in the event
revision, the rates of the last minute, the time of the last activity and the sessions, and in the
sessions only by what requests in progress add to them. -/
structure TellsUsage (crates : StoreCrates) (inner : StoreInner) (now : DateTime)
    (summary : RuntimeSummary) : Prop where
  computed : ComputedAlike crates inner summary
  usage : summary = { freshUsageSummary crates inner now with
    eventRevision := summary.eventRevision
    rpm := summary.rpm
    tpm := summary.tpm
    lastActivityAt := summary.lastActivityAt
    usageSessions := summary.usageSessions }
  sessions : ∃ source time, SameUsage source inner ∧
    summary.usageSessions = joinedSessions crates source time (stateSettled crates inner)
  idle : summary.activeRequests = 0 →
    summary.usageSessions = (freshUsageSummary crates inner now).usageSessions

theorem stateSettled_same (h : SameUsage source inner) :
    stateSettled crates inner = stateSettled crates source := by
  rw [stateSettled, stateSettled, settledSessions_same h, finalTurns_same h,
    billableRequests_same h]

theorem visionTotals_same (h : SameUsage source inner) :
    usageVisionTotals inner = usageVisionTotals source := by
  rw [usageVisionTotals, usageVisionTotals, visionSegments_same h]

/-- Without requests in progress nothing is joined to the sessions. -/
theorem withActiveSessions_idle
    (h : countRequests inner (fun request => request.status = .inProgress) = 0)
    (sessions : List UsageSession) : withActiveSessions crates inner now sessions = sessions := by
  have hnone : inner.orderedRequests.filter (fun request => request.status = .inProgress) = [] := by
    rw [filter_eq_nil_iff]
    intro request hmem
    obtain ⟨id, -, hstored⟩ := mem_filterMap.mp hmem
    exact countP_eq_zero.mp h request (mem_values.mpr ⟨id, hstored⟩)
  rw [withActiveSessions, hnone, foldl_nil]

theorem ComputedAlike.tellsUsage (h : ComputedAlike crates inner summary) (now : DateTime) :
    TellsUsage crates inner now summary := by
  have hcomputed := h
  obtain ⟨source, time, hsame, hrevision, rfl⟩ := h
  have hactive : countRequests inner (fun request => request.status = .inProgress) =
      countRequests source fun request => request.status = .inProgress :=
    hsame.counts _ fun request other halike => by rw [halike.status]
  have hfailed : countRequests inner
        (fun request => request.status = .failed ∨ request.status = .interrupted) =
      countRequests source
        fun request => request.status = .failed ∨ request.status = .interrupted :=
    hsame.counts _ fun request other halike => by rw [halike.status]
  have hsettled : (freshUsageSummary crates source time).usageSessions =
      joinedSessions crates source time (stateSettled crates inner) := by
    rw [stateSettled_same hsame]
    rfl
  refine ⟨hcomputed, ?_, ⟨source, time, hsame, hsettled⟩, fun hidle => ?_⟩
  · simp only [freshUsageSummary, runtimeSummaryFromInner, hrevision, hactive, hfailed,
      hsame.counts _ fun _ _ halike => halike.completedFinalTurn,
      hsame.counts _ fun _ _ halike => halike.completedBillable, finalTurns_same hsame,
      billableRequests_same hsame, visionTotals_same hsame]
  · have hjoined : (freshUsageSummary crates inner now).usageSessions =
        joinedSessions crates inner now (stateSettled crates inner) := rfl
    rw [hsettled, hjoined, joinedSessions, joinedSessions, withActiveSessions_idle hidle,
      withActiveSessions_idle (hactive.trans hidle)]

/-- The summary that is served, from the cache or not. -/
theorem computedAlike_cached (h : CacheSound crates inner) (now : DateTime) :
    ComputedAlike crates inner (cachedUsageSummary crates inner now).1 := by
  unfold cachedUsageSummary
  split
  · rename_i cache hcache
    exact h cache (Option.filter_eq_some_iff.mp hcache).1
  · exact computedAlike_fresh inner now

theorem sameUsage_cached (inner : StoreInner) (now : DateTime) :
    SameUsage inner (cachedUsageSummary crates inner now).2 ∧
      (cachedUsageSummary crates inner now).2.usageRevision = inner.usageRevision := by
  unfold cachedUsageSummary
  split
  · exact ⟨SameUsage.refl inner, rfl⟩
  · exact ⟨sameUsage_frame rfl rfl rfl, rfl⟩

theorem billingBuckets_same (h : SameUsage source inner) (hpricing : inner.pricing = source.pricing) :
    usageBillingBuckets crates inner = usageBillingBuckets crates source := by
  rw [usageBillingBuckets, usageBillingBuckets, usageBillingItems, usageBillingItems, hpricing,
    billableRequests_same h, visionSegments_same h]

/-- The page of a summary that is computed afresh. -/
def recomputedPage (crates : StoreCrates) (inner : StoreInner) (now : DateTime) (limit : ℕ)
    (cursor : Option Text) : UsagePage :=
  usagePageFromSummary crates inner.pricing (freshUsageSummary crates inner now) limit cursor
    (usageBillingBuckets crates inner)

/-- Two pages show the same usage, and the same sessions if no request is in progress. -/
structure SamePage (page recomputed : UsagePage) : Prop where
  usage : page = { recomputed with
    eventRevision := page.eventRevision
    lastActivityAt := page.lastActivityAt
    usageSessions := page.usageSessions
    hasMore := page.hasMore
    nextCursor := page.nextCursor }
  idle : recomputed.activeRequests = 0 → page.usageSessions = recomputed.usageSessions ∧
    page.hasMore = recomputed.hasMore ∧ page.nextCursor = recomputed.nextCursor

/-- The page of a summary that tells the usage of a state is the page computed afresh. -/
theorem TellsUsage.page (h : TellsUsage crates inner now summary) (limit : ℕ)
    (cursor : Option Text) :
    SamePage (usagePageFromSummary crates inner.pricing summary limit cursor
      (usageBillingBuckets crates inner)) (recomputedPage crates inner now limit cursor) := by
  have husage := h.usage
  have hidle := h.idle
  rw [recomputedPage]
  generalize freshUsageSummary crates inner now = fresh at husage hidle ⊢
  obtain ⟨⟩ := summary
  obtain ⟨⟩ := fresh
  simp only [RuntimeSummary.mk.injEq, true_and] at husage
  obtain ⟨rfl, rfl, rfl, rfl, rfl, rfl, rfl, rfl, rfl, rfl, rfl, rfl, rfl, rfl⟩ := husage
  refine ⟨rfl, fun hnone => ?_⟩
  obtain rfl := hidle hnone
  exact ⟨rfl, rfl, rfl⟩

theorem usagePage_full {limit : ℕ} {sinceRevision : Option ℕ}
    (h : (usagePage crates inner now limit cursor sinceRevision).1.unchanged = false) :
    usagePage crates inner now limit cursor sinceRevision =
      (usagePageFromSummary crates (cachedUsageSummary crates inner now).2.pricing
        (cachedUsageSummary crates inner now).1 limit cursor
        (usageBillingBuckets crates (cachedUsageSummary crates inner now).2),
      (cachedUsageSummary crates inner now).2) := by
  unfold usagePage at h ⊢
  split_ifs at h ⊢ with hsince
  · cases h
  · rfl

theorem usagePage_unchanged {limit : ℕ} {revision : ℕ}
    (h : (usagePage crates inner now limit cursor (some revision)).1.unchanged = true) :
    inner.usageRevision = revision := by
  unfold usagePage at h
  split_ifs at h with hsince
  · exact (Option.some_inj.mp hsince).symm
  · cases h

/-- A summary that is served tells the usage of the state if each write since it was cached is
tracked, and a poll that is answered with `unchanged` would show the usage of the page before it if
each write between the two is. -/
theorem usage_revision_sound (crates : StoreCrates) (redactSecretText : Text → Text)
    (before : List (DateTime × Operation)) (now : DateTime)
    (hbefore : CachedRun crates redactSecretText StoreInner.default before) :
    TellsUsage crates (run crates redactSecretText StoreInner.default before) now
        (cachedUsageSummary crates (run crates redactSecretText StoreInner.default before) now).1 ∧
      ∀ (between : List (DateTime × Operation)) (later : DateTime) (limit : ℕ)
        (cursor : Option Text) (sinceRevision : Option ℕ),
        let first := usagePage crates (run crates redactSecretText StoreInner.default before) now
          limit cursor sinceRevision
        let current := run crates redactSecretText first.2 between
        first.1.unchanged = false →
        TrackedRun crates redactSecretText first.2 between →
        current.pricing = first.2.pricing →
        current.usageRevision < u64Max →
        (usagePage crates current later limit cursor (some first.1.usageRevision)).1.unchanged =
          true →
        SamePage first.1 (recomputedPage crates current later limit cursor) := by
  have hdefault : CacheSound crates StoreInner.default := nofun
  have hsound := hdefault.run hbefore
  generalize run crates redactSecretText StoreInner.default before = inner at hsound ⊢
  have hserved := computedAlike_cached hsound now
  refine ⟨hserved.tellsUsage now, fun between later limit cursor sinceRevision => ?_⟩
  dsimp only
  intro hfull htracked hprices hroom hunchanged
  rw [usagePage_full hfull] at htracked hprices hroom hunchanged ⊢
  obtain ⟨hsame, hrevision⟩ := @sameUsage_cached crates inner now
  have hstate := hserved.same hsame hrevision
  generalize (cachedUsageSummary crates inner now).1 = summary at *
  generalize (cachedUsageSummary crates inner now).2 = polled at *
  -- the revision that the first page names is that of the state behind it
  have hnamed : summary.usageRevision = polled.usageRevision :=
    congrArg RuntimeSummary.usageRevision (hstate.tellsUsage now).usage
  have hstays : (run crates redactSecretText polled between).usageRevision =
      polled.usageRevision := (usagePage_unchanged hunchanged).trans hnamed
  have hbound : polled.usageRevision < u64Max := hstays ▸ hroom
  have hcurrent : SameUsage polled (run crates redactSecretText polled between) :=
    (sameUsage_run hbound.le htracked).2 hstays hbound
  have hpage := ((hstate.same hcurrent hstays).tellsUsage later).page limit cursor
  rwa [hprices, billingBuckets_same hcurrent hprices] at hpage

end Served

/-! ### A finished request and one in progress -/

def startRequest : DateTime × Operation :=
  (0, .checkpointRequest "resp_a" none "deepseek-flash" .null)

def finishStarted : DateTime × Operation :=
  (0, .finishRequest "resp_a" .completed
    (some (.object [("usage", usageCountsValue 10 0 10 5 15)])) none)

def startNext : DateTime × Operation := (0, .checkpointRequest "resp_b" none none .null)

def dearTable : PricingTable :=
  { PricingTable.default with revision := "0.0.1", rates := [("deepseek-flash", ⟨1, 2, 3⟩)] }

/-- A poll behind a new price table is told that nothing changed. -/
theorem table_change_unseen :
    let inner := run epochCrates id StoreInner.default [startRequest, finishStarted]
    let first := usagePage epochCrates inner 0 20 none none
    let repriced := run epochCrates id first.2 [(0, .setPricingTable dearTable)]
    (usagePage epochCrates repriced 0 20 none (some first.1.usageRevision)).1.unchanged = true ∧
      (recomputedPage epochCrates repriced 0 20 none).billingBuckets ≠
        first.1.billingBuckets := by
  decide +kernel

def noteEvent : DateTime × Operation := (0, .recordEvent "info" "note" "user" [] none)

def polledRun : List (DateTime × Operation) :=
  [startRequest, finishStarted, startNext, (0, .usagePage 20 none none), noteEvent]

def factOfNext : DateTime × Operation := (0, .appendRequestToolFact "resp_b" "read a file")

/-- What was cached is served behind an event, and again behind a tool fact of a running request. -/
theorem finished_page_current :
    let first := usagePage epochCrates (run epochCrates id StoreInner.default polledRun) 0 20 none none
    SamePage first.1 (recomputedPage epochCrates (run epochCrates id first.2 [factOfNext])
      1000000000 20 none) := by
  refine (usage_revision_sound epochCrates id polledRun 0 ⟨.inl rfl,
    .inr trivial, .inr trivial, .inr trivial, .inr fun _ => by decide +kernel, trivial⟩).2
    [factOfNext] 1000000000 20 none none (by decide +kernel) ⟨?_, trivial⟩ (by decide +kernel)
    (by decide +kernel) (by decide +kernel)
  intro request changed hstored hlater _
  have hlisted : ((usagePage epochCrates (run epochCrates id StoreInner.default polledRun) 0 20
      none none).2.requests.lookup (Text.lit "resp_b")).all (fun stored =>
        !requestIsCompletedFinalTurn stored && !requestIsCompletedBillableRequest stored) = true := by
    decide +kernel
  rw [hstored, Option.all_some, Bool.and_eq_true, Bool.not_eq_true', Bool.not_eq_true'] at hlisted
  simp only [perform, appendRequestToolFact, updateRequest, lookup_modify_self, hstored,
    Option.map_some, Option.some_inj] at hlater
  subst hlater
  exact ⟨hlisted.1, hlisted.2, rfl⟩

/-- The time that a request in progress has taken is not that of the page behind `unchanged`. -/
theorem running_time_stale :
    let inner := run epochCrates id StoreInner.default [startNext]
    let first := usagePage epochCrates inner 0 20 none none
    (usagePage epochCrates first.2 1000000000 20 none
        (some first.1.usageRevision)).1.unchanged = true ∧
      (recomputedPage epochCrates first.2 1000000000 20 none).usageSessions ≠
        first.1.usageSessions := by
  decide +kernel

end CodeSeeX.Store
