import CodeSeeX.Store.RequestChanges

/-!
# Terminal requests

A request that is completed, failed or interrupted keeps its status and its
response through every operation but two: finishing it again, and a late usage
event for a request that has no usage of its own yet.
-/
namespace CodeSeeX.Store
open Option AList List

/-- The request has ended. -/
def IsTerminal (request : StoredRequest) : Prop := request.status ≠ .inProgress

/-- The same outcome: status and response, and with it the usage. -/
def SameOutcome (request later : StoredRequest) : Prop :=
  later.status = request.status ∧ later.response = request.response

theorem SameOutcome.refl (request : StoredRequest) : SameOutcome request request := ⟨rfl, rfl⟩

theorem SameOutcome.trans {first second third : StoredRequest} (h : SameOutcome first second)
    (h' : SameOutcome second third) : SameOutcome first third :=
  ⟨h'.1.trans h.1, h'.2.trans h.2⟩

section Crates
variable (crates : StoreCrates) (redactSecretText : Text → Text)

/-- The operation does not finish a terminal request another way, and brings no usage for one. -/
structure LeavesTerminal (inner : StoreInner) (now : DateTime) (op : Operation) : Prop where
  finish : ∀ id status response diagnostic request,
    op = .finishRequest id status response diagnostic →
    inner.requests.lookup id = some request →
    request.status = .completed ∨ request.status = .failed →
    status = request.status ∧ ∀ value, response = some value →
      memoryJsonValue crates value = request.response
  usage : ∀ id response request,
    recordedUsage crates inner now op = some (id, response) →
    inner.requests.lookup id = some request → IsTerminal request →
    response = request.response

/-- The ids that a run checkpoints. -/
def checkpointedIds (operations : List (DateTime × Operation)) : List Text :=
  operations.filterMap fun op => match op.2 with
    | .checkpointRequest id _ _ _ => some id
    | _ => none

variable {crates : StoreCrates} {redactSecretText : Text → Text} {inner : StoreInner}

/-- Requests that are stored before and after keep the outcome of those that have ended. -/
def KeepsOutcomes (before after : StoreInner) : Prop :=
  ∀ id request later, before.requests.lookup id = some request → IsTerminal request →
    after.requests.lookup id = some later → SameOutcome request later

theorem keepsOutcomes_same {before after : StoreInner} (h : after.requests = before.requests) :
    KeepsOutcomes before after := by
  intro id request later hbefore _ hafter
  rw [h, hbefore] at hafter
  obtain rfl := some_inj.mp hafter
  exact SameOutcome.refl request

/-- Outcomes are kept over two stretches when nothing comes back in between. -/
theorem KeepsOutcomes.trans {before middle after : StoreInner} (h : KeepsOutcomes before middle)
    (hafter : KeepsOutcomes middle after)
    (hstored : ∀ id, id ∈ before.requests → id ∈ after.requests → id ∈ middle.requests) :
    KeepsOutcomes before after := by
  intro id request later hbefore hterminal hlater
  obtain ⟨stored, hmiddle⟩ := isSome_iff_exists.mp (lookup_isSome.mpr
    (hstored id (lookup_isSome.mp (by rw [hbefore]; rfl))
      (lookup_isSome.mp (by rw [hlater]; rfl))))
  have hsame := h id request stored hbefore hterminal hmiddle
  have hstill : IsTerminal stored := by
    rw [IsTerminal, hsame.1]
    exact hterminal
  exact hsame.trans (hafter id stored later hmiddle hstill hlater)

/-! ## Steps -/

/-- A terminal request keeps its outcome in every change that an operation makes which leaves it
alone. -/
theorem Change.outcome {now : DateTime} {id : Text} {op : Operation} {request later : StoredRequest}
    (hchange : Change crates redactSecretText inner now id op request later)
    (hbefore : inner.requests.lookup id = some request) (hterminal : IsTerminal request)
    (hleaves : LeavesTerminal crates inner now op) : SameOutcome request later := by
  cases hchange with
  | interrupted _ hstatus => exact absurd hstatus hterminal
  | finished status response diagnostic hop hstatus =>
    have hended : request.status = .completed ∨ request.status = .failed := by
      cases hcase : request.status <;> simp_all [IsTerminal]
    obtain ⟨hsame, hresponse⟩ := hleaves.finish id status response diagnostic request hop hbefore
      hended
    refine ⟨hsame, ?_⟩
    cases response with
    | none => rfl
    | some value => exact hresponse value rfl
  | usage response hop =>
    exact ⟨rfl, hleaves.usage id response request hop hbefore hterminal⟩
  | _ => exact ⟨rfl, rfl⟩

theorem KeepsOutcomes.finish {now : DateTime} {id : Text} {status : RequestStatus}
    {response diagnostic : Option Value} {request : StoredRequest}
    (hkeeps : KeepsOutcomes inner (finishRequest crates inner now id status response diagnostic))
    (hlook : inner.requests.lookup id = some request)
    (hstatus : request.status = .completed ∨ request.status = .failed) :
    status = request.status ∧ ∀ value, response = some value →
      memoryJsonValue crates value = request.response := by
  have hterminal : IsTerminal request := by
    rcases hstatus with heq | heq <;> simp [IsTerminal, heq]
  have hfinish : finishRequest crates inner now id status response diagnostic =
      bumpUsageRevision
        (updateRequest inner id (finishedRequest crates now status response diagnostic)) := by
    rcases hstatus with heq | heq <;> simp [finishRequest, hlook, heq]
  have hlater : (finishRequest crates inner now id status response diagnostic).requests.lookup id =
      some (finishedRequest crates now status response diagnostic request) := by
    rw [hfinish, bumpUsageRevision, updateRequest, HashMap.lookup_modify_self, hlook,
      map_some]
  obtain ⟨hsame, hresponse⟩ := hkeeps id request _ hlook hterminal hlater
  refine ⟨hsame, ?_⟩
  rintro value rfl
  exact hresponse

/-- An operation keeps the outcomes exactly when it leaves terminal requests alone. -/
theorem keepsOutcomes_perform (h : WellFormed crates inner) (now : DateTime) (op : Operation) :
    KeepsOutcomes inner (perform crates redactSecretText inner now op) ↔
      LeavesTerminal crates inner now op := by
  constructor
  · intro hkeeps
    constructor
    · rintro id status response diagnostic request rfl hlook hstatus
      exact KeepsOutcomes.finish hkeeps hlook hstatus
    · intro id response request hsome hlook hterminal
      cases op with
      | recordEvent level eventType audience message detail =>
        have hrequests :=
          @requests_recordEvent crates inner now level eventType audience message detail
        rw [hsome] at hrequests
        have hlater : (recordEvent crates inner now level eventType audience message
            detail).requests.lookup id =
            some { request with response := response, updatedAt := now } := by
          rw [hrequests, HashMap.lookup_modify_self, hlook, map_some]
        exact (hkeeps id request _ hlook hterminal hlater).2
      | _ => cases hsome
  · intro hleaves id request later hbefore hterminal hafter
    exact (change_perform h now op hbefore hafter).outcome hbefore hterminal hleaves

/-! ## Runs -/

/-- Only a checkpoint brings a request in. -/
theorem mem_perform (h : WellFormed crates inner) (now : DateTime) (op : Operation) {id : Text}
    (hmem : id ∈ (perform crates redactSecretText inner now op).requests) :
    id ∈ inner.requests ∨
      ∃ previousResponseId model input, op = .checkpointRequest id previousResponseId model input := by
  have hafter := @WellFormed.perform crates redactSecretText inner h now op
  by_cases hop : ∃ other previousResponseId model input,
      op = .checkpointRequest other previousResponseId model input
  · obtain ⟨other, previousResponseId, model, input, hop⟩ := hop
    by_cases hstored : other ∈ inner.requests
    · rw [hop, perform, checkpointRequest, if_pos hstored] at hmem
      exact .inl hmem
    · by_cases hid : id = other
      · subst hid
        exact .inr ⟨previousResponseId, model, input, hop⟩
      · left
        have hwell := wellFormed_beforePruning redactSecretText hop hstored now h
        obtain ⟨later, hlook⟩ := isSome_iff_exists.mp (lookup_isSome.mpr hmem)
        rw [(perform_new _ hop hstored now).1] at hlook
        have hkept := (WellFormed.pruneLoop_spec _ _ 0 ⟨hwell.order_nodup, hwell.order_mem⟩).2 id
          later hlook
        rw [lookup_beforePruning _ hop hstored now hid, map_eq_some_iff] at hkept
        obtain ⟨request, hrequest, _⟩ := hkept
        exact lookup_isSome.mp (by rw [hrequest]; rfl)
  · left
    rw [← hafter.order_mem, requestOrder_perform now fun other previousResponseId model input heq =>
      hop ⟨other, previousResponseId, model, input, heq⟩] at hmem
    exact (h.order_mem id).mp hmem

theorem stored_checkpointed (operations : List (DateTime × Operation)) {id : Text}
    (h : id ∈ (run crates redactSecretText StoreInner.default operations).requests) :
    id ∈ checkpointedIds operations := by
  induction operations using reverseRecOn with
  | nil => simp [run, StoreInner.default] at h
  | append_singleton operations op ih =>
    rw [run_concat] at h
    rw [checkpointedIds, filterMap_append, mem_append]
    rcases mem_perform (WellFormed.default.run operations) op.1 op.2 h with hmem | hnew
    · exact .inl (ih hmem)
    · obtain ⟨previousResponseId, model, input, hop⟩ := hnew
      right
      simp [hop]

/-- A run that does not checkpoint an id keeps a request that is stored in the end stored. -/
theorem stored_before {operations : List (DateTime × Operation)} {id : Text} (h : WellFormed crates inner)
    (hnew : id ∉ checkpointedIds operations)
    (hend : id ∈ (run crates redactSecretText inner operations).requests) :
    id ∈ inner.requests := by
  induction operations generalizing inner with
  | nil => exact hend
  | cons op operations ih =>
    rw [checkpointedIds, filterMap_cons] at hnew
    have hrest : id ∉ checkpointedIds operations := by
      intro hmem
      apply hnew
      split
      · exact hmem
      · exact mem_cons_of_mem _ hmem
    have hstep : id ∈ (perform crates redactSecretText inner op.1 op.2).requests :=
      ih (h.perform op.1 op.2) hrest hend
    rcases mem_perform h op.1 op.2 hstep with hmem | ⟨previousResponseId, model, input, hop⟩
    · exact hmem
    · refine absurd ?_ hnew
      rw [hop]
      exact mem_cons_self

theorem stored_next {op : DateTime × Operation} {operations : List (DateTime × Operation)}
    {id : Text} {later : StoredRequest} (h : WellFormed crates inner)
    (hnew : id ∉ checkpointedIds (op :: operations))
    (hafter : (run crates redactSecretText inner (op :: operations)).requests.lookup id = some later) :
    id ∉ checkpointedIds operations ∧
      ∃ middle, (perform crates redactSecretText inner op.1 op.2).requests.lookup id = some middle := by
  rw [← singleton_append, checkpointedIds, filterMap_append, mem_append, not_or] at hnew
  have hend : id ∈ (run crates redactSecretText inner (op :: operations)).requests :=
    lookup_isSome.mp (by rw [hafter]; rfl)
  exact ⟨hnew.2, isSome_iff_exists.mp
    (lookup_isSome.mpr (stored_before (h.perform op.1 op.2) hnew.2 hend))⟩

/-- From every state of a run on, what has ended stays as it ended, as long as it is stored. -/
def OutcomesKept (crates : StoreCrates) (redactSecretText : Text → Text)
    (operations : List (DateTime × Operation)) : Prop :=
  ∀ before after, before ++ after <+: operations →
    KeepsOutcomes (run crates redactSecretText StoreInner.default before)
      (run crates redactSecretText StoreInner.default (before ++ after))

theorem outcomesKept_iff {operations : List (DateTime × Operation)}
    (honce : (checkpointedIds operations).Nodup) :
    OutcomesKept crates redactSecretText operations ↔
      ∀ before op, before ++ [op] <+: operations →
        LeavesTerminal crates (run crates redactSecretText StoreInner.default before) op.1 op.2 := by
  have hwell : ∀ before : List (DateTime × Operation),
      WellFormed crates (run crates redactSecretText StoreInner.default before) :=
    fun before => WellFormed.default.run before
  constructor
  · intro hkept before op hbegins
    have hstep := hkept before [op] hbegins
    rw [run_concat] at hstep
    exact (keepsOutcomes_perform (hwell before) op.1 op.2).mp hstep
  · intro hleaves before after
    induction after using reverseRecOn with
    | nil =>
      intro _
      rw [append_nil]
      exact keepsOutcomes_same rfl
    | append_singleton after op ih =>
      rw [← append_assoc]
      intro hbegins
      have hearlier := ih ((prefix_append (before ++ after) [op]).trans hbegins)
      have hstep := (@keepsOutcomes_perform crates redactSecretText _
        (hwell (before ++ after)) op.1 op.2).mpr (hleaves _ op hbegins)
      rw [run_concat]
      apply hearlier.trans hstep
      intro id hbefore hafter
      rcases mem_perform (hwell (before ++ after)) op.1 op.2 hafter with hmem | hnew
      · exact hmem
      · -- the id was checkpointed before, so it is not checkpointed again
        obtain ⟨previousResponseId, model, input, hop⟩ := hnew
        obtain ⟨rest, hrest⟩ := hbegins
        rw [← hrest] at honce
        have hold := stored_checkpointed before hbefore
        have hsplit : checkpointedIds (before ++ after ++ [op] ++ rest) =
            checkpointedIds before ++ (checkpointedIds after ++ (id :: checkpointedIds rest)) := by
          simp [checkpointedIds, hop]
        rw [hsplit, nodup_append] at honce
        exact absurd rfl (honce.2.2 id hold id (by simp))

/-- In a run that checkpoints no id twice the outcomes of requests are final exactly when no step
finishes a completed or failed request another way or brings usage for one that has ended. -/
theorem terminal_outcome_final_iff {operations : List (DateTime × Operation)}
    (honce : (checkpointedIds operations).Nodup) :
    OutcomesKept crates redactSecretText operations ↔
      ∀ before op, before ++ [op] <+: operations →
        LeavesTerminal crates (run crates redactSecretText StoreInner.default before) op.1 op.2 :=
  outcomesKept_iff honce

end Crates

/-! ## A request that fails after it has completed -/

/-- The status of a stored request. -/
def storedStatus (inner : StoreInner) (id : Text) : Option RequestStatus :=
  (inner.requests.lookup id).map StoredRequest.status

def completedOnce : List (DateTime × Operation) :=
  [(0, .checkpointRequest "resp_a" none none .null), (0, .finishRequest "resp_a" .completed none none)]

/-- A finished request that is interrupted. -/
def interruptedAfterwards : List (DateTime × Operation) :=
  completedOnce ++ [(1, .interruptRequestIfInProgress "resp_a" "stopped")]

theorem interruptedAfterwards_final : OutcomesKept epochCrates id interruptedAfterwards := by
  apply (terminal_outcome_final_iff (by decide)).mpr
  rintro before op ⟨rest, hrest⟩
  match before, hrest with
  | [], hrest =>
    obtain rfl := (cons_eq_cons.mp hrest).1
    exact ⟨nofun, nofun⟩
  | [first], hrest =>
    obtain ⟨rfl, htail⟩ := cons_eq_cons.mp hrest
    obtain rfl := (cons_eq_cons.mp htail).1
    refine ⟨fun other status response diagnostic request heq hlook hended => ?_, nofun⟩
    cases heq
    have hstored : storedStatus (run epochCrates id StoreInner.default
        [(0, .checkpointRequest "resp_a" none none .null)]) "resp_a" = some .inProgress := by
      decide +kernel
    have hstatus := congrArg (Option.map StoredRequest.status) hlook
    have hrunning := some_inj.mp (hstatus.symm.trans hstored)
    simp [hrunning] at hended
  | [first, second], hrest =>
    obtain rfl := (cons_eq_cons.mp (cons_eq_cons.mp (cons_eq_cons.mp hrest).2).2).1
    exact ⟨nofun, nofun⟩
  | first :: second :: third :: others, hrest =>
    have hlength := congrArg length hrest
    simp [interruptedAfterwards, completedOnce] at hlength

/-- The stream fails after its request was finished. -/
def failedAfterwards : List (DateTime × Operation) :=
  completedOnce ++ [(0, .finishRequest "resp_a" .failed none none)]

theorem failedAfterwards_not_final :
    (checkpointedIds failedAfterwards).Nodup ∧ ¬ OutcomesKept epochCrates id failedAfterwards := by
  refine ⟨by decide, fun h => ?_⟩
  have hkept := h completedOnce [(0, .finishRequest "resp_a" .failed none none)]
    (prefix_refl _) "resp_a"
  have hbefore : storedStatus (run epochCrates id StoreInner.default completedOnce) "resp_a" =
      some .completed := by decide +kernel
  have hafter : storedStatus (run epochCrates id StoreInner.default failedAfterwards) "resp_a" =
      some .failed := by decide +kernel
  obtain ⟨request, hrequest, hcompleted⟩ := map_eq_some_iff.mp hbefore
  obtain ⟨later, hlater, hfailed⟩ := map_eq_some_iff.mp hafter
  have hsame := hkept request later hrequest (by simp [IsTerminal, hcompleted]) hlater
  rw [SameOutcome, hcompleted, hfailed] at hsame
  exact absurd hsame.1 (by decide)

end CodeSeeX.Store
