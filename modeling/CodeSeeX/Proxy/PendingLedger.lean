import CodeSeeX.Proxy.PendingGroups

/-!
# The ledger of pending groups

Over a run every registered group is accounted for once: it is pending, or it was
settled, or it is listed as evicted, in a report that was taken or the next one.
-/
namespace CodeSeeX.Native

open NativePendingToolGroups List BTreeMap

variable {groups : BTreeMap Text PendingNativeToolGroup} {request : Value}
  {state : NativePendingToolGroups}

/-! ## The request of a continuation -/

structure RecordedEvent where
  level : Text
  eventType : Text
  message : Text
  detail : Value

structure ResolvedInput where
  continuation : Option NativePendingContinuation
  payload : Value
  events : List RecordedEvent
  state : NativePendingToolGroups

/-- Puts the continuation's items into the payload; without one the payload is left alone. -/
def resolveNativePendingInput (shortHash : Text → Text) (state : NativePendingToolGroups)
    (now : Instant) (id : Text) (input payload : Value) : Option ResolvedInput :=
  match state.continuationFor now input with
  | (none, live) =>
      some {
        continuation := none
        payload := payload
        events := match live.hasRoundFor shortHash input with
          | none => []
          | some pendingHash =>
              [{ level := "warn"
                 eventType := "native_pending_round_not_replayed"
                 message := "CodeSeeX retained a hosted tool round for this session, but this request does not continue it. The request was forwarded unchanged, so the provider does not see that round again."
                 detail := .object [("id", .string id),
                   ("pending_response_id_hash", .string pendingHash)] }]
        state := live }
  | (some continuation, live) =>
      (payload.setIndex "input" (.array continuation.mergedInput)).map fun merged =>
        let evictions := live.takeEvictions
        { continuation := some continuation
          payload := merged
          events := (if evictions.1 = [] then [] else
              [{ level := "warn"
                 eventType := "native_pending_round_evicted"
                 message := "CodeSeeX dropped retained hosted tool rounds because they expired or exceeded the retention bound; the provider will not see those rounds again."
                 detail := .object [("evicted_rounds",
                   .array (evictions.1.map fun responseId => .string (shortHash responseId))),
                   ("id", .string id)] }]) ++
            [{ level := "info"
               eventType := "native_pending_round_replayed"
               message := "CodeSeeX replayed the hosted tool round it executed inside this turn."
               detail := .object [("id", .string id), ("injected_rounds",
                 .number (.posInt (UInt64.ofNat continuation.injectedItems.length)))] }]
          state := evictions.2 }

/-! ## Single steps -/

/-- The ids that a state accounts for: pending ones and those listed as evicted. -/
def held (state : NativePendingToolGroups) : List Text := state.groups.keys ++ state.evicted

/-- Every group is stored under its own response id. -/
def Keyed (groups : BTreeMap Text PendingNativeToolGroup) : Prop :=
  ∀ entry ∈ groups.entries, entry.2.responseId = entry.1

variable {state : NativePendingToolGroups}

theorem held_pruneExpired (now : Instant) : (held (pruneExpired now state)).Perm (held state) := by
  have hperm := (state.groups.retain_perm (isLive now ·.2)).map Prod.fst
  rw [map_append] at hperm
  have hswap := (@perm_append_comm _ state.evicted
    ((state.groups.entries.filter fun entry => ! isLive now entry.2).map Prod.fst)).append_left
    (state.groups.retain (isLive now ·.2)).keys
  refine hswap.trans ?_
  rw [← append_assoc]
  exact hperm.append_right state.evicted

theorem held_remove {entry : Text × PendingNativeToolGroup} (h : entry ∈ state.groups.entries) :
    state.groups.keys.Perm (entry.1 :: (state.groups.remove entry.1).keys) := by
  obtain ⟨key, group⟩ := entry
  exact (remove_perm h).map Prod.fst

theorem held_trimToCapacity : (held (trimToCapacity state)).Perm (held state) := by
  fun_induction trimToCapacity state with
  | case1 => exact Perm.refl _
  | case2 => exact Perm.refl _
  | case3 state hlarge oldest holdest ih =>
    have hkeys := held_remove (argmin_mem holdest)
    have hmoved : ((state.groups.remove oldest.1).keys ++ (state.evicted ++ [oldest.1])).Perm
        (oldest.1 :: (state.groups.remove oldest.1).keys ++ state.evicted) := by
      rw [← append_assoc]
      exact perm_append_singleton _ _
    exact ih.trans (hmoved.trans (hkeys.append_right state.evicted).symm)

theorem trimToCapacity_len : (trimToCapacity state).groups.len ≤ maxPendingNativeGroups := by
  fun_induction trimToCapacity state with
  | case1 state hle => exact hle
  | case2 state hlarge hnone =>
    have hempty := argmin_eq_none.mp hnone
    simp [len, hempty] at hlarge
  | case3 state hlarge oldest holdest ih => exact ih

theorem trimToCapacity_sublist :
    (trimToCapacity state).groups.entries.Sublist state.groups.entries := by
  fun_induction trimToCapacity state with
  | case1 => exact Sublist.refl _
  | case2 => exact Sublist.refl _
  | case3 state hlarge oldest holdest ih => exact ih.trans filter_sublist

theorem Keyed.sublist {groups kept : BTreeMap Text PendingNativeToolGroup} (h : Keyed groups)
    (hkept : kept.entries.Sublist groups.entries) : Keyed kept :=
  fun entry hmem => h entry (hkept.subset hmem)

theorem Keyed.insert (h : Keyed groups) (group : PendingNativeToolGroup) :
    Keyed (groups.insert group.responseId group) := by
  intro entry hmem
  rcases mem_insertEntry hmem with rfl | hmem
  · rfl
  · exact h entry hmem

/-! ## Runs -/

inductive PendingOperation
  | register (group : PendingNativeToolGroup)
  | continuationFor (request : Value)
  | settle (responseId : Text)
  | takeEvictions

/-- The state, with the ids that were settled and those that the reports have returned so far. -/
structure PendingLedger where
  state : NativePendingToolGroups
  settled : List Text
  reported : List Text

namespace PendingLedger

def default : PendingLedger := { state := .default, settled := [], reported := [] }

def step (ledger : PendingLedger) (now : Instant) : PendingOperation → PendingLedger
  | .register group => { ledger with state := ledger.state.register now group }
  | .continuationFor request => { ledger with state := (ledger.state.continuationFor now request).2 }
  | .settle responseId =>
      { ledger with
        state := ledger.state.settle responseId
        settled := if responseId ∈ ledger.state.groups.keys then ledger.settled ++ [responseId]
          else ledger.settled }
  | .takeEvictions =>
      { ledger with
        state := ledger.state.takeEvictions.2
        reported := ledger.reported ++ ledger.state.takeEvictions.1 }

def run (operations : List (Instant × PendingOperation)) : PendingLedger :=
  operations.foldl (fun ledger op => ledger.step op.1 op.2) default

/-- What was reported as evicted or stands in the next report. -/
def evictions (ledger : PendingLedger) : List Text := ledger.reported ++ ledger.state.evicted

/-- The invariant of a run that has registered the given ids. -/
structure Balanced (ledger : PendingLedger) (registered : List Text) : Prop where
  accounts : (held ledger.state ++ (ledger.settled ++ ledger.reported)).Perm registered
  bounded : ledger.state.groups.len ≤ maxPendingNativeGroups
  keyed : Keyed ledger.state.groups

/-- The ids that a run registers. -/
def registeredIds (operations : List (Instant × PendingOperation)) : List Text :=
  operations.filterMap fun op => match op.2 with
    | .register group => some group.responseId
    | _ => none

variable {ledger : PendingLedger} {registered : List Text}

section
variable (h : Balanced ledger registered) (now : Instant)
include h

theorem Balanced.register (group : PendingNativeToolGroup) (hnew : group.responseId ∉ registered) :
    Balanced (ledger.step now (.register group)) (registered ++ [group.responseId]) := by
  have hpruned := @held_pruneExpired ledger.state now
  have hpending : group.responseId ∉ (pruneExpired now ledger.state).groups.keys := by
    intro hmem
    have hheld := hpruned.subset (mem_append_left _ hmem)
    exact hnew (h.accounts.subset (mem_append_left _ hheld))
  constructor
  · have hinsert := (insert_perm group hpending).map Prod.fst
    have hadded : (held (ledger.state.register now group)).Perm
        (group.responseId :: held (pruneExpired now ledger.state)) :=
      held_trimToCapacity.trans (hinsert.append_right (pruneExpired now ledger.state).evicted)
    have hheld := hadded.trans (hpruned.cons group.responseId)
    have haccounts := (hheld.append_right (ledger.settled ++ ledger.reported)).trans
      (h.accounts.cons group.responseId)
    exact haccounts.trans (perm_append_singleton group.responseId registered).symm
  · exact trimToCapacity_len
  · exact ((h.keyed.sublist filter_sublist).insert group).sublist trimToCapacity_sublist

theorem Balanced.continuationFor
    (request : Value) : Balanced (ledger.step now (.continuationFor request)) registered := by
  constructor
  · exact (held_pruneExpired now).append_right _ |>.trans h.accounts
  · exact (length_filter_le _ _).trans h.bounded
  · exact h.keyed.sublist filter_sublist

theorem Balanced.settle (responseId : Text) :
    Balanced (ledger.step now (.settle responseId)) registered := by
  constructor
  · simp only [step]
    split
    · rename_i hmem
      obtain ⟨group, hget⟩ := mem_keys.mp hmem
      have hkeys := @held_remove ledger.state (responseId, group) (get_eq_some.mp hget)
      have hheld := (hkeys.append_right ledger.state.evicted).append_right
        (ledger.settled ++ ledger.reported)
      refine Perm.trans ?_ (hheld.symm.trans h.accounts)
      rw [append_assoc ledger.settled]
      exact (perm_middle.append_left _).trans perm_middle
    · rename_i hmem
      rw [NativePendingToolGroups.settle, remove_of_notMem hmem]
      exact h.accounts
  · exact (length_filter_le _ _).trans h.bounded
  · exact h.keyed.sublist filter_sublist

theorem Balanced.takeEvictions :
    Balanced (ledger.step now .takeEvictions) registered := by
  constructor
  · refine Perm.trans ?_ h.accounts
    simp only [step, NativePendingToolGroups.takeEvictions, held, append_nil]
    rw [append_assoc, ← append_assoc ledger.settled]
    exact perm_append_comm.append_left _
  · exact h.bounded
  · exact h.keyed

end

/-- Each id is pending, settled, or in a report that was taken or is to come. -/
theorem Balanced.perm (h : Balanced ledger registered) :
    (ledger.state.groups.keys ++ ledger.settled ++ ledger.evictions).Perm registered := by
  refine Perm.trans ?_ h.accounts
  rw [held, append_assoc, append_assoc]
  apply Perm.append_left
  rw [evictions, ← append_assoc]
  exact perm_append_comm

theorem Balanced.step (h : Balanced ledger registered) (op : Instant × PendingOperation)
    (hnew : (registered ++ registeredIds [op]).Nodup) :
    Balanced (ledger.step op.1 op.2) (registered ++ registeredIds [op]) := by
  obtain ⟨now, op⟩ := op
  cases op with
  | register group =>
    apply h.register now group
    intro hmem
    have hdisjoint := (nodup_append.mp hnew).2.2
    exact hdisjoint _ hmem _ mem_cons_self rfl
  | continuationFor request => simpa [registeredIds] using h.continuationFor now request
  | settle responseId => simpa [registeredIds] using h.settle now responseId
  | takeEvictions => simpa [registeredIds] using h.takeEvictions now

theorem balanced_run {operations : List (Instant × PendingOperation)}
    (h : (registeredIds operations).Nodup) :
    Balanced (run operations) (registeredIds operations) := by
  induction operations using reverseRecOn with
  | nil => exact ⟨Perm.refl _, Nat.zero_le _, fun _ hmem => absurd hmem not_mem_nil⟩
  | append_singleton operations op ih =>
    have hids : registeredIds (operations ++ [op]) =
        registeredIds operations ++ registeredIds [op] := filterMap_append ..
    rw [hids] at h ⊢
    rw [run, foldl_append]
    exact (ih (nodup_append.mp h).1).step op h

end PendingLedger

/-! ## Matches -/

/-- The request continues the group stored under the id: it names the id as its previous response,
or it has the anchor of the group and mentions one of its client calls. -/
def ContinuesGroup (groups : BTreeMap Text PendingNativeToolGroup) (request : Value)
    (responseId : Text) : Prop :=
  ∃ group, groups.get responseId = some group ∧
    (trimmedStr (request.get "previous_response_id") = some responseId ∨
      ∃ anchor input, requestAnchor request = some anchor ∧ group.requestAnchor = some anchor ∧
        request.get "input" = some (.array input) ∧
        ∃ id ∈ group.clientCallIds, ∃ item ∈ input, callId item = some id)

theorem matchingGroup_continues (h : Keyed groups) {group : PendingNativeToolGroup}
    (hmatch : matchingGroup groups request = some group) :
    ContinuesGroup groups request group.responseId := by
  unfold matchingGroup at hmatch
  split at hmatch
  · rename_i linked hlinked
    obtain rfl := Option.some_inj.mp hmatch
    obtain ⟨previous, hprevious, hget⟩ := Option.bind_eq_some_iff.mp hlinked
    have hkey : linked.responseId = previous := h _ (get_eq_some.mp hget)
    rw [hkey]
    exact ⟨linked, hget, Or.inl hprevious⟩
  · split at hmatch
    · rename_i anchor input hanchor hinput
      have hmem := argmax_mem hmatch
      rw [mem_reverse, mem_filter, values, mem_map] at hmem
      obtain ⟨⟨⟨key, stored⟩, hentry, rfl⟩, hcontinued⟩ := hmem
      simp only [decide_eq_true_eq, groupIsContinuedBy, any_eq_true] at hcontinued
      obtain ⟨hgroup, id, hid, item, hitem, hcall⟩ := hcontinued
      have hkey : stored.responseId = key := h _ hentry
      rw [← hkey] at hentry
      refine ⟨stored, get_eq_some.mpr hentry, Or.inr ⟨anchor, input, hanchor, hgroup, ?_,
        id, hid, item, hitem, hcall⟩⟩
      obtain ⟨value, hvalue, harray⟩ := Option.bind_eq_some_iff.mp hinput
      cases value with
      | array items =>
        obtain rfl := Option.some_inj.mp harray
        exact hvalue
      | _ => cases harray
    · cases hmatch

theorem ContinuesGroup.of_retained {p : Text × PendingNativeToolGroup → Bool} {responseId : Text}
    (h : ContinuesGroup (groups.retain p) request responseId) :
    ContinuesGroup groups request responseId := by
  obtain ⟨group, hget, hreason⟩ := h
  have hmem := mem_retain.mp (get_eq_some.mp hget)
  exact ⟨group, get_eq_some.mpr hmem.1, hreason⟩

theorem continuationFor_continues (h : Keyed state.groups) {now : Instant}
    {continuation : NativePendingContinuation}
    (hsome : (state.continuationFor now request).1 = some continuation) :
    ContinuesGroup state.groups request continuation.pendingResponseId := by
  simp only [NativePendingToolGroups.continuationFor] at hsome
  split at hsome
  · cases hsome
  · rename_i group hmatch
    obtain ⟨input, _, rfl⟩ := Option.map_eq_some_iff.mp hsome
    have hlive : Keyed (pruneExpired now state).groups := h.sublist filter_sublist
    exact (matchingGroup_continues hlive hmatch).of_retained

theorem resolve_unmatched {now : Instant} {input : Value}
    (h : (state.continuationFor now input).1 = none) (shortHash : Text → Text) (id : Text)
    (payload : Value) :
    ∃ resolved, resolveNativePendingInput shortHash state now id input payload = some resolved ∧
      resolved.continuation = none ∧ resolved.payload = payload := by
  cases hresult : state.continuationFor now input with
  | mk continuation live =>
    rw [hresult] at h
    obtain rfl : continuation = none := h
    rw [resolveNativePendingInput, hresult]
    exact ⟨_, rfl, rfl, rfl⟩

/-! ## The whole ledger -/

theorem count_eq_one {pending settled evictions registered : List Text}
    (h : (pending ++ settled ++ evictions).Perm registered) (hnodup : registered.Nodup) {id : Text}
    (hid : id ∈ registered) : pending.count id + settled.count id + evictions.count id = 1 := by
  rw [← count_append, ← count_append, h.count_eq id]
  exact count_eq_one_of_mem hnodup hid

/-- After any run that registers distinct ids each of them is pending, settled or evicted, and that
once; the next report empties the list, and with it each evicted id was reported, and that once; at
most 64 are pending; a request without a match is forwarded as it came, and a match is justified. -/
theorem pending_ledger_accounts {operations : List (Instant × PendingOperation)}
    (h : (PendingLedger.registeredIds operations).Nodup) :
    let ledger := PendingLedger.run operations
    (ledger.state.groups.keys ++ ledger.settled ++ ledger.evictions).Perm
        (PendingLedger.registeredIds operations) ∧
      (∀ id ∈ PendingLedger.registeredIds operations,
        ledger.state.groups.keys.count id + ledger.settled.count id +
          ledger.evictions.count id = 1) ∧
      (∀ now, let drained := ledger.step now .takeEvictions
        drained.state = { ledger.state with evicted := [] } ∧
          drained.reported = ledger.reported ++ ledger.state.takeEvictions.1 ∧
          ∀ id ∈ PendingLedger.registeredIds operations,
            ledger.state.groups.keys.count id + ledger.settled.count id +
              drained.reported.count id = 1) ∧
      ledger.state.groups.len ≤ maxPendingNativeGroups ∧
      (∀ shortHash now id input payload, (ledger.state.continuationFor now input).1 = none →
        ∃ resolved,
          resolveNativePendingInput shortHash ledger.state now id input payload = some resolved ∧
            resolved.continuation = none ∧ resolved.payload = payload) ∧
      ∀ now request continuation,
        (ledger.state.continuationFor now request).1 = some continuation →
        ContinuesGroup ledger.state.groups request continuation.pendingResponseId := by
  intro ledger
  have hbalanced := PendingLedger.balanced_run h
  refine ⟨hbalanced.perm, fun id hid => count_eq_one hbalanced.perm h hid,
    fun now => ⟨rfl, rfl, fun id hid => ?_⟩, hbalanced.bounded, ?_, ?_⟩
  · have hdrained := count_eq_one (hbalanced.takeEvictions now).perm h hid
    have hempty : (ledger.step now .takeEvictions).state.evicted = [] := rfl
    rwa [PendingLedger.evictions, hempty, append_nil] at hdrained
  · exact fun shortHash now id input payload hnone => resolve_unmatched hnone shortHash id payload
  · exact fun now request continuation hsome => continuationFor_continues hbalanced.keyed hsome

/-- A round that owns one client call and replays nothing. -/
def bareRound (responseId call : Text) (createdAt : Instant) : PendingNativeToolGroup where
  responseId := responseId
  requestAnchor := some "cache:thread-a"
  clientCallIds := [call]
  injectedItems := []
  createdAt := createdAt

/-- Of two rounds the first is settled and the second expires; the report returns it, and a third
round comes. -/
def settledOrExpired : List (Instant × PendingOperation) :=
  [(0, .register (bareRound "resp_a" "call_a" 0)), (1, .register (bareRound "resp_b" "call_b" 1)),
    (2, .settle "resp_a"), (pendingNativeGroupTtl + 1, .continuationFor .null),
    (pendingNativeGroupTtl + 2, .takeEvictions),
    (pendingNativeGroupTtl + 3, .register (bareRound "resp_c" "call_c" (pendingNativeGroupTtl + 3)))]

theorem settledOrExpired_accounts :
    let ledger := PendingLedger.run settledOrExpired
    ledger.reported = ["resp_b"] ∧
      (ledger.state.groups.keys ++ ledger.settled ++ ledger.evictions).Perm
        ["resp_a", "resp_b", "resp_c"] :=
  ⟨by decide +kernel, (@pending_ledger_accounts settledOrExpired (by decide)).1⟩

end CodeSeeX.Native
