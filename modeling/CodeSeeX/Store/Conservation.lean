import CodeSeeX.Store.Invariant
import CodeSeeX.Store.Passes

/-!
# Usage conservation

Over the full history every billable request has a row in the sessions, and no
row but the one made for a finished turn without a row can repeat it. So usage is
counted once exactly when every billable finished turn finds a row of its own.
-/
namespace CodeSeeX.Store
open List Option

variable {finalTurn : RequestTurn}

section Crates
variable {crates : StoreCrates} {redactSecretText : Text → Text} {inner : StoreInner}

/-! ## The histories of a state -/

theorem completedConversationTurns_ids_sublist (h : WellFormed crates inner) :
    ((completedConversationTurns crates inner).map (·.id)).Sublist inner.requestOrder := by
  have hnewest := (newest_sublist maxRuntimeTurns
    ((inner.orderedRequests.filter requestIsCompletedFinalTurn).map (turnFromRequest crates))).map
    RequestTurn.id
  refine hnewest.trans ?_
  rw [← h.orderedRequests_ids, List.map_map]
  exact filter_sublist.map StoredRequest.id

theorem completedBillableRequests_ids_sublist (h : WellFormed crates inner) :
    ((completedBillableRequests crates inner).map (·.id)).Sublist inner.requestOrder := by
  rw [completedBillableRequests, ← h.orderedRequests_ids, List.map_map]
  exact filter_sublist.map StoredRequest.id

theorem WellFormed.histories (h : WellFormed crates inner) :
    Histories crates inner (completedConversationTurns crates inner)
      (completedBillableRequests crates inner) where
  turns_nodup := h.order_nodup.sublist (completedConversationTurns_ids_sublist h)
  billable_nodup := h.order_nodup.sublist (completedBillableRequests_ids_sublist h)
  turns_stored := by
    intro turn hturn
    have hmem := (newest_sublist _ _).subset hturn
    obtain ⟨request, hrequest, rfl⟩ := mem_map.mp hmem
    obtain ⟨hordered, hfinal⟩ := mem_filter.mp hrequest
    exact ⟨request, h.mem_orderedRequests.mp hordered, rfl, hfinal⟩
  billable_stored := by
    intro turn hturn
    obtain ⟨request, hrequest, rfl⟩ := mem_map.mp hturn
    obtain ⟨hordered, hbillable⟩ := mem_filter.mp hrequest
    exact ⟨request, h.mem_orderedRequests.mp hordered, rfl, hbillable⟩

/-! ## What a finished turn claims -/

/-- A stored request with billable usage. -/
def IsBillable (inner : StoreInner) (id : Text) : Prop :=
  ∃ request, inner.requests.lookup id = some request ∧
    requestIsCompletedBillableRequest request = true

/-- The request lies on the chain of one of these finished turns. -/
def OnChainOf (inner : StoreInner) (turns : List RequestTurn) (id : Text) : Prop :=
  ∃ turn ∈ turns, id ∈ usageChainForFinalTurn inner turn.id

/-- The finished turn that a handed-back round is anchored to. -/
def anchorOf (crates : StoreCrates) (inner : StoreInner) (request : StoredRequest) : Option Text :=
  usageFinalAnchorForHandoff crates request
    (usageFinalAnchors crates inner (completedConversationTurns crates inner))

/-- A handed-back round outside every chain, or a guard stop, anchored to the finished turn. -/
def AnchoredRound (crates : StoreCrates) (inner : StoreInner) (finalId id : Text) : Prop :=
  ∃ request, inner.requests.lookup id = some request ∧
    anchorOf crates inner request = some finalId ∧
    ((requestLifecycle request = "client_tool_handoff" ∧
        ¬ OnChainOf inner (completedConversationTurns crates inner) id) ∨
      requestHasGuardStopped request = true)

/-- A search behind a lookup looks at one value. -/
instance decidableLookup {κ ν : Type} [DecidableEq κ] (m : HashMap κ ν) (key : κ) (p : ν → Prop)
    [DecidablePred p] : Decidable (∃ value, m.lookup key = some value ∧ p value) :=
  decidable_of_iff ((m.lookup key).any (p ·) = true) (by simp [Option.any_eq_true])

instance (inner : StoreInner) (id : Text) : Decidable (IsBillable inner id) :=
  inferInstanceAs (Decidable (∃ request, inner.requests.lookup id = some request ∧
    requestIsCompletedBillableRequest request = true))

instance (inner : StoreInner) (turns : List RequestTurn) (id : Text) :
    Decidable (OnChainOf inner turns id) :=
  inferInstanceAs (Decidable (∃ turn ∈ turns, id ∈ usageChainForFinalTurn inner turn.id))

instance (crates : StoreCrates) (inner : StoreInner) (finalId id : Text) :
    Decidable (AnchoredRound crates inner finalId id) :=
  decidableLookup inner.requests id fun request => anchorOf crates inner request = some finalId ∧
    ((requestLifecycle request = "client_tool_handoff" ∧
        ¬ OnChainOf inner (completedConversationTurns crates inner) id) ∨
      requestHasGuardStopped request = true)

section
variable (h : WellFormed crates inner)
include h

theorem mem_chains (id : Text) :
    id ∈ (usageChains inner (completedConversationTurns crates inner)).values.flatten ↔
      OnChainOf inner (completedConversationTurns crates inner) id := by
  have hvalues := HashMap.values_fill RequestTurn.id
    (fun turn : RequestTurn => usageChainForFinalTurn inner turn.id)
    (completedConversationTurns crates inner) h.histories.turns_nodup
  simp only [mem_flatten, usageChains, hvalues.mem_iff, List.mem_map, OnChainOf]
  constructor
  · rintro ⟨_, ⟨turn, hturn, rfl⟩, hid⟩
    exact ⟨turn, hturn, hid⟩
  · rintro ⟨turn, hturn, hid⟩
    exact ⟨_, ⟨turn, hturn, rfl⟩, hid⟩

theorem anchored_iff (matches_ : StoredRequest → Bool)
    (finalId id : Text) :
    id ∈ ((usageRequestsByFinalTurn crates inner
        (usageFinalAnchors crates inner (completedConversationTurns crates inner))
        matches_).lookup finalId).getD [] ↔
      ∃ request, inner.requests.lookup id = some request ∧
        anchorOf crates inner request = some finalId ∧ matches_ request = true := by
  rw [mem_usageRequestsByFinalTurn]
  constructor
  · rintro ⟨request, hmem, hmatch, hanchor, rfl⟩
    exact ⟨request, h.mem_orderedRequests.mp hmem, hanchor, hmatch⟩
  · rintro ⟨request, hlook, hanchor, hmatch⟩
    have hid := h.keyed id request hlook
    subst hid
    exact ⟨request, h.mem_orderedRequests.mpr hlook, hmatch, hanchor, rfl⟩

/-- A finished turn claims its chain and the rounds anchored to it. -/
theorem claims_iff (hfinal : finalTurn ∈ completedConversationTurns crates inner) (id : Text) :
    Claims (initialPass crates inner (completedConversationTurns crates inner)
        (completedBillableRequests crates inner))
        (usageChains inner (completedConversationTurns crates inner)) finalTurn id ↔
      id ∈ usageChainForFinalTurn inner finalTurn.id ∨
        AnchoredRound crates inner finalTurn.id id := by
  have hchain : (usageChains inner (completedConversationTurns crates inner)).lookup finalTurn.id =
      some (usageChainForFinalTurn inner finalTurn.id) :=
    HashMap.lookup_fill RequestTurn.id _ _ ∅ h.histories.turns_nodup hfinal
  simp only [Claims, hchain, getD_some, initialPass, anchored_iff h]
  apply or_congr_right
  simp only [AnchoredRound, handoffMatches, mem_chains h, decide_eq_true_eq]
  constructor
  · rintro (⟨request, hlook, hanchor, hlife, hchain⟩ | ⟨request, hlook, hanchor, hguard⟩)
    · rw [h.keyed id request hlook] at hchain
      exact ⟨request, hlook, hanchor, .inl ⟨hlife, hchain⟩⟩
    · exact ⟨request, hlook, hanchor, .inr hguard⟩
  · rintro ⟨request, hlook, hanchor, ⟨hlife, hchain⟩ | hguard⟩
    · rw [← h.keyed id request hlook] at hchain
      exact .inl ⟨request, hlook, hanchor, hlife, hchain⟩
    · exact .inr ⟨request, hlook, hanchor, hguard⟩

theorem lookup_initialPool (id : Text) :
    (initialPass crates inner (completedConversationTurns crates inner)
      (completedBillableRequests crates inner)).billableById.lookup id = none ↔
      ¬ IsBillable inner id := by
  rw [initialPass, eq_none_iff_forall_ne_some]
  constructor
  · rintro hnone ⟨request, hlook, hbillable⟩
    have hid := h.keyed id request hlook
    subst hid
    apply hnone (turnFromRequest crates request)
    rw [lookup_turnPool h.histories.billable_nodup]
    refine ⟨mem_map_of_mem (mem_filter.mpr ⟨?_, hbillable⟩), rfl⟩
    exact h.mem_orderedRequests.mpr hlook
  · intro hnot turn hlook
    obtain ⟨hmem, rfl⟩ := (lookup_turnPool h.histories.billable_nodup).mp hlook
    obtain ⟨request, hrequest, _, hbillable⟩ := h.histories.billable_stored turn hmem
    exact hnot ⟨request, hrequest, hbillable⟩

end

/-! ## Rows of finished turns -/

/-- A finished turn keeps a row unless the chain of a turn listed before it took its own row
and no round that is anchored to it is left. -/
def KeepsRow (crates : StoreCrates) (inner : StoreInner) (before : List RequestTurn)
    (finalTurn : RequestTurn) : Prop :=
  OnChainOf inner before finalTurn.id →
    ∃ id, IsBillable inner id ∧ AnchoredRound crates inner finalTurn.id id ∧
      ¬ OnChainOf inner before id

instance (crates : StoreCrates) (inner : StoreInner) (before : List RequestTurn)
    (finalTurn : RequestTurn) : Decidable (KeepsRow crates inner before finalTurn) :=
  decidable_of_iff
    (OnChainOf inner before finalTurn.id →
      ∃ id ∈ inner.requests.keys, IsBillable inner id ∧
        AnchoredRound crates inner finalTurn.id id ∧ ¬ OnChainOf inner before id) <| by
    apply imp_congr_right
    intro _
    constructor
    · rintro ⟨id, _, hid⟩
      exact ⟨id, hid⟩
    · rintro ⟨id, hbillable, hid⟩
      have hstored : id ∈ inner.requests.keys := by
        obtain ⟨request, hlook, _⟩ := hbillable
        exact AList.lookup_isSome.mp (by simp [hlook])
      exact ⟨id, hstored, hbillable, hid⟩

theorem finalTurn_mem_chain (h : WellFormed crates inner)
    (hfinal : finalTurn ∈ completedConversationTurns crates inner) :
    finalTurn.id ∈ usageChainForFinalTurn inner finalTurn.id := by
  obtain ⟨request, hlook, _⟩ := h.histories.turns_stored finalTurn hfinal
  rw [usageChainForFinalTurn, mem_reverse]
  exact PointerWalk.start_mem_walk (AList.lookup_isSome.mp (by simp [hlook]))

theorem chain_subset {outer target id : Text} (h : target ∈ usageChainForFinalTurn inner outer)
    (hid : id ∈ usageChainForFinalTurn inner target) : id ∈ usageChainForFinalTurn inner outer := by
  rw [usageChainForFinalTurn, mem_reverse] at h hid ⊢
  exact PointerWalk.walk_subset h hid

/-- A finished turn is anchored to no other. -/
theorem not_anchoredRound_of_final (h : WellFormed crates inner)
    (hfinal : finalTurn ∈ completedConversationTurns crates inner) (finalId : Text) :
    ¬ AnchoredRound crates inner finalId finalTurn.id := by
  rintro ⟨request, hlook, _, hround⟩
  obtain ⟨stored, hstored, _, hisFinal⟩ := h.histories.turns_stored finalTurn hfinal
  obtain rfl : stored = request := some_inj.mp (hstored.symm.trans hlook)
  rcases hround with ⟨hlife, _⟩ | hguard
  · simp only [requestIsCompletedFinalTurn, decide_eq_true_eq] at hisFinal
    rw [hlife] at hisFinal
    exact absurd hisFinal.2.1 (by decide)
  · rw [not_guardStopped_of_final hisFinal] at hguard
    cases hguard

theorem anchoredRound_unique {left right id : Text} (hl : AnchoredRound crates inner left id)
    (hr : AnchoredRound crates inner right id) : left = right := by
  obtain ⟨request, hlook, hanchor, _⟩ := hl
  obtain ⟨request', hlook', hanchor', _⟩ := hr
  obtain rfl : request = request' := some_inj.mp (hlook.symm.trans hlook')
  exact some_inj.mp (hanchor.symm.trans hanchor')

theorem not_starvedAfter_iff (h : WellFormed crates inner) {before after : List RequestTurn}
    (hsplit : completedConversationTurns crates inner = before ++ finalTurn :: after)
    (hbillable : finalTurn.billable = true) :
    ¬ StarvedAfter (initialPass crates inner (completedConversationTurns crates inner)
        (completedBillableRequests crates inner))
        (usageChains inner (completedConversationTurns crates inner)) before finalTurn ↔
      KeepsRow crates inner before finalTurn := by
  have hfinal : finalTurn ∈ completedConversationTurns crates inner := by simp [hsplit]
  have hbefore : ∀ other ∈ before, other ∈ completedConversationTurns crates inner :=
    fun other hmem => by simp [hsplit, hmem]
  have hne : ∀ other ∈ before, other.id ≠ finalTurn.id := by
    intro other hmem heq
    have hnodup := h.histories.turns_nodup
    rw [hsplit, map_append, nodup_append] at hnodup
    exact hnodup.2.2 _ (mem_map_of_mem hmem) _ (by simp) heq
  simp only [StarvedAfter, not_forall, not_or, not_exists, not_and, claims_iff h hfinal,
    lookup_initialPool h, not_not, exists_prop]
  constructor
  · rintro ⟨id, hclaim, hpool, hfree⟩ ⟨other, hother, hchain⟩
    have hnotChain : ¬ OnChainOf inner before id := by
      rintro ⟨turn, hturn, hid⟩
      exact hfree turn hturn ((claims_iff h (hbefore turn hturn) id).mpr (.inl hid))
    rcases hclaim with hclaim | hclaim
    · exact absurd ⟨other, hother, chain_subset hchain hclaim⟩ hnotChain
    · exact ⟨id, hpool, hclaim, hnotChain⟩
  · intro hkeeps
    by_cases hreached : OnChainOf inner before finalTurn.id
    · obtain ⟨id, hpool, hround, hnotChain⟩ := hkeeps hreached
      refine ⟨id, .inr hround, hpool, fun other hother hclaim => ?_⟩
      rcases (claims_iff h (hbefore other hother) id).mp hclaim with hid | hid
      · exact hnotChain ⟨other, hother, hid⟩
      · exact hne other hother (anchoredRound_unique hid hround)
    · refine ⟨finalTurn.id, .inl (finalTurn_mem_chain h hfinal), ?_, fun other hother hclaim => ?_⟩
      · obtain ⟨request, hlook, hturn, hisFinal⟩ := h.histories.turns_stored finalTurn hfinal
        refine ⟨request, hlook, ?_⟩
        rw [hturn] at hbillable
        have husage : requestHasBillableUsage request = true := hbillable
        simp only [requestIsCompletedFinalTurn, decide_eq_true_eq] at hisFinal
        simp [requestIsCompletedBillableRequest, hisFinal.1, husage]
      · rcases (claims_iff h (hbefore other hother) _).mp hclaim with hid | hid
        · exact hreached ⟨other, hother, hid⟩
        · exact not_anchoredRound_of_final h hfinal _ hid

/-! ## Conservation -/

/-- The request has one row in one session. -/
def CountedOnce (sessions : List UsageSession) (id : Text) : Prop :=
  ((sessionRows sessions).map (·.id)).count id = 1

/-- Every billable request of the state has one row in one session. -/
def UsageConserved (crates : StoreCrates) (inner : StoreInner) (now : DateTime) : Prop :=
  ∀ id, IsBillable inner id → CountedOnce (stateSessions crates inner now) id

theorem usageConserved_iff (h : WellFormed crates inner) (now : DateTime) :
    UsageConserved crates inner now ↔
      ∀ before finalTurn after,
        completedConversationTurns crates inner = before ++ finalTurn :: after →
        finalTurn.billable = true → KeepsRow crates inner before finalTurn := by
  obtain ⟨fallback, ⟨hsub, hstarved⟩, hrows⟩ := rows_usageSessions h.histories now
  have hids : ((sessionRows (stateSessions crates inner now)).map (·.id)).Perm
      ((completedBillableRequests crates inner).map (·.id) ++ fallback.map (·.id)) := by
    have hfst := hrows.map Prod.fst
    simpa [stateSessions, Function.comp_def, UsageSessionRow.account,
      RequestTurn.account] using hfst
  have hcount : ∀ id, IsBillable inner id →
      (CountedOnce (stateSessions crates inner now) id ↔ id ∉ fallback.map (·.id)) := by
    rintro id ⟨request, hlook, hbillable⟩
    have hid := h.keyed id request hlook
    subst hid
    have hmem : request.id ∈ (completedBillableRequests crates inner).map (·.id) := by
      refine mem_map.mpr ⟨turnFromRequest crates request, ?_, rfl⟩
      exact mem_map_of_mem
        (mem_filter.mpr ⟨h.mem_orderedRequests.mpr hlook, hbillable⟩)
    rw [CountedOnce, hids.count_eq, count_append,
      count_eq_one_of_mem h.histories.billable_nodup hmem, ← count_eq_zero]
    omega
  constructor
  · intro hconserved before finalTurn after hsplit hbillable
    rw [← not_starvedAfter_iff h hsplit hbillable, ← hstarved before finalTurn after hsplit]
    intro hfallback
    have hfinal : finalTurn ∈ completedConversationTurns crates inner := by simp [hsplit]
    obtain ⟨request, hlook, hturn, hisFinal⟩ := h.histories.turns_stored finalTurn hfinal
    have hisBillable : IsBillable inner finalTurn.id := by
      refine ⟨request, hlook, ?_⟩
      rw [hturn] at hbillable
      have husage : requestHasBillableUsage request = true := hbillable
      simp only [requestIsCompletedFinalTurn, decide_eq_true_eq] at hisFinal
      simp [requestIsCompletedBillableRequest, hisFinal.1, husage]
    exact (hcount _ hisBillable).mp (hconserved _ hisBillable) (mem_map_of_mem hfallback)
  · intro hkeeps id hisBillable
    rw [hcount id hisBillable]
    intro hmem
    obtain ⟨finalTurn, hfallback, rfl⟩ := mem_map.mp hmem
    have hfinal := hsub.subset hfallback
    obtain ⟨before, after, hsplit⟩ := append_of_mem hfinal
    have hbillable : finalTurn.billable = true := by
      obtain ⟨request, hlook, hturn, _⟩ := h.histories.turns_stored finalTurn hfinal
      obtain ⟨stored, hstored, hbillable⟩ := hisBillable
      obtain rfl : stored = request := some_inj.mp (hstored.symm.trans hlook)
      rw [hturn]
      simp only [requestIsCompletedBillableRequest, decide_eq_true_eq] at hbillable
      exact hbillable.2
    exact (not_starvedAfter_iff h hsplit hbillable).mpr (hkeeps before finalTurn after hsplit hbillable)
      ((hstarved before finalTurn after hsplit).mp hfallback)

/-- Usage is counted once exactly when every billable finished turn keeps a row of its own. -/
theorem usage_counted_once_iff (h : Reachable crates redactSecretText inner) (now : DateTime) :
    UsageConserved crates inner now ↔
      ∀ before finalTurn after,
        completedConversationTurns crates inner = before ++ finalTurn :: after →
        finalTurn.billable = true → KeepsRow crates inner before finalTurn :=
  usageConserved_iff h.wellFormed now

end Crates

/-! ## A parent checkpointed after its child -/

def spentResponse : Value :=
  .object [("usage", .object [("input_tokens", natValue 3), ("output_tokens", natValue 2)])]

def finishedTurn (id : Text) (previousResponseId : Option Text) : List Operation :=
  [.checkpointRequest id previousResponseId none (.object [("input", .string "hello")]),
    .finishRequest id .completed (some spentResponse) none]

/-- One finished turn. -/
def singleTurn : List (DateTime × Operation) := (finishedTurn "resp_a" none).map fun op => (0, op)

/-- A turn behind its parent, and a turn of another session. -/
def twoSessions : List (DateTime × Operation) :=
  (finishedTurn "resp_a" none ++ finishedTurn "resp_b" (some "resp_a") ++
    finishedTurn "resp_c" none).map fun op => (0, op)

theorem forall_split {α : Type} {p : List α → α → Prop} {turns : List α}
    (h : ∀ i : Fin turns.length, p (turns.take i) turns[i]) :
    ∀ before turn after, turns = before ++ turn :: after → p before turn := by
  rintro before turn after rfl
  simpa using h ⟨before.length, by simp⟩

theorem twoSessions_counted_once :
    UsageConserved epochCrates (run epochCrates id StoreInner.default twoSessions) 0 :=
  (usage_counted_once_iff ⟨twoSessions, rfl⟩ 0).mpr (forall_split (by decide +kernel))

/-- A turn that names a later one as its previous response. -/
def parentLast : List (DateTime × Operation) :=
  (finishedTurn "resp_a" (some "resp_b") ++ finishedTurn "resp_b" none).map fun op => (0, op)

theorem parentLast_counted_twice :
    ¬ UsageConserved epochCrates (run epochCrates id StoreInner.default parentLast) 0 := by
  intro h
  have hbillable : IsBillable (run epochCrates id StoreInner.default parentLast) "resp_b" := by
    have hsome : ((run epochCrates id StoreInner.default parentLast).requests.lookup
        ("resp_b" : Text)).any requestIsCompletedBillableRequest = true := by decide +kernel
    simpa [IsBillable, Option.any_eq_true] using hsome
  have htwice : ((sessionRows (stateSessions epochCrates
      (run epochCrates id StoreInner.default parentLast) 0)).map (·.id)).count
      ("resp_b" : Text) = 2 := by decide +kernel
  have honce := h "resp_b" hbillable
  rw [CountedOnce, htwice] at honce
  exact absurd honce (by decide)

end CodeSeeX.Store
