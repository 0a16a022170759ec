import CodeSeeX.Store.Operations

/-!
# The chain of stored responses behind a previous response

The chain follows the previous response of each request, newest first, for as many
requests as were asked for. A request that is missing, not completed or met before
ends it with an error.
-/
namespace CodeSeeX.Store
open PointerWalk Option List

structure StoredResponse where
  id : Text
  previousResponseId : Option Text
  status : RequestStatus
  input : Value
  response : Value
  turnMessages : List Value
  toolFacts : List Text
  diagnostic : Option Value

def storedResponse (request : StoredRequest) : StoredResponse where
  id := request.id
  previousResponseId := request.previousResponseId
  status := request.status
  input := request.input
  response := request.response
  turnMessages := request.turnMessages
  toolFacts := request.toolFacts
  diagnostic := request.diagnostic

/-- `{:?}` of a status -/
def RequestStatus.debugText : RequestStatus → Text
  | .inProgress => "InProgress"
  | .completed => "Completed"
  | .failed => "Failed"
  | .interrupted => "Interrupted"

inductive ChainError where
  | notAvailable (previousResponseId : Text)
  | notCompleted (previousResponseId : Text) (status : RequestStatus)
  | cycle (id : Text)
  | incomplete (id : Text)
  | contains (id : Text) (status : RequestStatus)

def ChainError.message : ChainError → Text
  | .notAvailable id => ("previous_response_id '" : Text) ++ id ++
      ("' is not available in this CodeSeeX process; send full context instead" : Text)
  | .notCompleted id status => ("previous_response_id '" : Text) ++ id ++ ("' is " : Text) ++
      status.debugText ++ (", not completed; send full context instead" : Text)
  | .cycle id => ("previous_response_id chain contains a cycle at '" : Text) ++ id ++ ("'" : Text)
  | .incomplete id => ("previous_response_id chain is incomplete at '" : Text) ++ id ++
      ("'; send full context instead" : Text)
  | .contains id status => ("previous_response_id chain contains " : Text) ++ status.debugText ++
      (" request '" : Text) ++ id ++ ("'; send full context instead" : Text)

def maxContextChainDepth : ℕ := 10000

/-- `max_depth.clamp(1, 10_000)` -/
def chainDepth (maxDepth : ℕ) : ℕ := min (max maxDepth 1) maxContextChainDepth

/-- The loop over the chain, with the requests that were visited and collected. -/
def chainLoop (requests : HashMap Text StoredRequest) (visited : List Text)
    (newestFirst : List StoredResponse) :
    ℕ → Option Text → Except ChainError (List StoredResponse)
  | 0, _ => .ok newestFirst
  | _ + 1, none => .ok newestFirst
  | n + 1, some id =>
      if id ∈ visited then .error (.cycle id)
      else match requests.lookup id with
        | none => .error (.incomplete id)
        | some request =>
            if request.status ≠ .completed then .error (.contains id request.status)
            else chainLoop requests (visited ++ [id]) (newestFirst ++ [storedResponse request]) n
              request.previousResponseId

def responseContextChain (inner : StoreInner) (previousResponseId : Text) (maxDepth : ℕ) :
    Except ChainError (List StoredResponse) :=
  match inner.requests.lookup previousResponseId with
  | none => .error (.notAvailable previousResponseId)
  | some root =>
      if root.status ≠ .completed then .error (.notCompleted previousResponseId root.status)
      else (chainLoop inner.requests [] [] (chainDepth maxDepth)
        (some previousResponseId)).map reverse

/-! ## The path of previous responses -/

/-- The id of the `n`th request on the path, counted from the newest. -/
def pathId (requests : HashMap Text StoredRequest) (cursor : Option Text) (n : ℕ) : Option Text :=
  follow requests StoredRequest.previousResponseId n cursor

/-- The stored requests on the path, newest first. -/
def pathRequests (requests : HashMap Text StoredRequest) (cursor : Option Text) (depth : ℕ) :
    List StoredRequest :=
  (range depth).filterMap fun n => (pathId requests cursor n).bind fun id =>
    requests.lookup id

/-- The first requests on a path are stored and completed, and none comes back. -/
structure PathStands (requests : HashMap Text StoredRequest) (cursor : Option Text)
    (depth : ℕ) : Prop where
  completed : ∀ n < depth, ∀ id, pathId requests cursor n = some id →
    ∃ request, requests.lookup id = some request ∧ request.status = .completed
  acyclic : ∀ i j, i < j → j < depth → ∀ id, pathId requests cursor i = some id →
    pathId requests cursor j ≠ some id

section
variable {requests : HashMap Text StoredRequest}

theorem pathId_none (n : ℕ) : pathId requests none n = none := follow_none n

theorem pathId_succ {id : Text} {request : StoredRequest} (h : requests.lookup id = some request)
    (n : ℕ) : pathId requests (some id) (n + 1) =
      pathId requests request.previousResponseId n := by
  rw [pathId, follow, bind_some, h]
  rfl

theorem pathRequests_none (depth : ℕ) : pathRequests requests none depth = [] := by
  simp [pathRequests, pathId_none]

theorem pathRequests_succ {id : Text} {request : StoredRequest}
    (h : requests.lookup id = some request) (depth : ℕ) :
    pathRequests requests (some id) (depth + 1) =
      request :: pathRequests requests request.previousResponseId depth := by
  have hhead : ((pathId requests (some id) 0).bind fun id => requests.lookup id) =
      some request := h
  rw [pathRequests, range_succ_eq_map, filterMap_cons, hhead, filterMap_map]
  simp only [Function.comp_def, pathId_succ h]
  rfl

theorem pathStands_none (depth : ℕ) : PathStands requests none depth where
  completed := fun n _ id h => by rw [pathId_none] at h; cases h
  acyclic := fun i _ _ _ id h => by rw [pathId_none] at h; cases h

/-- A path stands when its first request does, the rest does and the rest does not come back. -/
theorem pathStands_succ {id : Text} {depth : ℕ} :
    PathStands requests (some id) (depth + 1) ↔
      ∃ request, requests.lookup id = some request ∧ request.status = .completed ∧
        PathStands requests request.previousResponseId depth ∧
        ∀ n < depth, pathId requests request.previousResponseId n ≠ some id := by
  constructor
  · intro h
    obtain ⟨request, hrequest, hstatus⟩ := h.completed 0 (Nat.succ_pos depth) id rfl
    refine ⟨request, hrequest, hstatus, ⟨?_, ?_⟩, ?_⟩
    · intro n hn other hother
      exact h.completed (n + 1) (by omega) other (by rwa [pathId_succ hrequest])
    · intro i j hij hj other hi
      have := h.acyclic (i + 1) (j + 1) (by omega) (by omega) other
        (by rwa [pathId_succ hrequest])
      rwa [pathId_succ hrequest] at this
    · intro n hn
      have := h.acyclic 0 (n + 1) (by omega) (by omega) id rfl
      rwa [pathId_succ hrequest] at this
  · rintro ⟨request, hrequest, hstatus, hrest, hnew⟩
    refine ⟨?_, ?_⟩
    · intro n hn other hother
      cases n with
      | zero =>
        obtain rfl := some_inj.mp hother
        exact ⟨request, hrequest, hstatus⟩
      | succ n =>
        rw [pathId_succ hrequest] at hother
        exact hrest.completed n (by omega) other hother
    · intro i j hij hj other hi
      obtain ⟨k, rfl⟩ : ∃ k, j = k + 1 := ⟨j - 1, by omega⟩
      rw [pathId_succ hrequest]
      cases i with
      | zero =>
        obtain rfl := some_inj.mp hi
        exact hnew k (by omega)
      | succ i =>
        rw [pathId_succ hrequest] at hi
        exact hrest.acyclic i k (by omega) (by omega) other hi

end

/-! ## The chain -/

/-- The loop collects the path exactly when it stands and meets nothing that was visited. -/
theorem chainLoop_eq_ok {requests : HashMap Text StoredRequest} {visited : List Text}
    {newestFirst chain : List StoredResponse} {depth : ℕ} {cursor : Option Text} :
    chainLoop requests visited newestFirst depth cursor = .ok chain ↔
      PathStands requests cursor depth ∧
      (∀ n < depth, ∀ id, pathId requests cursor n = some id → id ∉ visited) ∧
      chain = newestFirst ++ (pathRequests requests cursor depth).map storedResponse := by
  induction depth generalizing visited newestFirst cursor with
  | zero =>
    have hstands : PathStands requests cursor 0 :=
      ⟨fun n hn => absurd hn (by omega), fun i j _ hj => absurd hj (by omega)⟩
    have hempty : pathRequests requests cursor 0 = [] := rfl
    rw [chainLoop, hempty, map_nil, append_nil, Except.ok.injEq]
    exact ⟨fun h => ⟨hstands, fun n hn => absurd hn (by omega), h.symm⟩, fun h => h.2.2.symm⟩
  | succ depth ih =>
    cases cursor with
    | none =>
      rw [chainLoop, pathRequests_none, map_nil, append_nil, Except.ok.injEq]
      refine ⟨fun h => ⟨pathStands_none _, fun n _ id hid => ?_, h.symm⟩, fun h => h.2.2.symm⟩
      rw [pathId_none] at hid
      cases hid
    | some id =>
      rw [chainLoop]
      split_ifs with hvisited
      · refine ⟨nofun, fun h => ?_⟩
        exact absurd hvisited (h.2.1 0 (by omega) id rfl)
      · cases hlook : requests.lookup id with
        | none =>
          refine ⟨nofun, fun h => ?_⟩
          obtain ⟨request, hrequest, -⟩ := pathStands_succ.mp h.1
          rw [hlook] at hrequest
          cases hrequest
        | some request =>
          simp only
          split_ifs with hstatus
          · refine ⟨nofun, fun h => ?_⟩
            obtain ⟨stored, hstored, hcompleted, -⟩ := pathStands_succ.mp h.1
            obtain rfl := some_inj.mp (hlook.symm.trans hstored)
            exact absurd hcompleted hstatus
          · rw [ih, pathStands_succ, pathRequests_succ hlook, map_cons]
            constructor
            · rintro ⟨hrest, hfresh, rfl⟩
              refine ⟨⟨request, hlook, not_not.mp hstatus, hrest, fun n hn hid => ?_⟩,
                fun n hn other hother => ?_, by simp⟩
              · exact hfresh n hn id hid (mem_append_right _ (mem_singleton_self id))
              · cases n with
                | zero =>
                  obtain rfl := some_inj.mp hother
                  exact hvisited
                | succ n =>
                  rw [pathId_succ hlook] at hother
                  exact fun hmem =>
                    hfresh n (by omega) other hother (mem_append_left _ hmem)
            · rintro ⟨⟨stored, hstored, -, hrest, hnew⟩, hfresh, rfl⟩
              obtain rfl := some_inj.mp (hlook.symm.trans hstored)
              refine ⟨hrest, fun n hn other hother hmem => ?_, by simp⟩
              rcases mem_append.mp hmem with hold | hid
              · exact hfresh (n + 1) (by omega) other (by rwa [pathId_succ hlook]) hold
              · rw [mem_singleton.mp hid] at hother
                exact hnew n hn hother

/-- In a map with fewer requests than that, the first requests of a path that stands are all. -/
theorem pathStands_whole {requests : HashMap Text StoredRequest} {cursor : Option Text} {depth : ℕ}
    (hsize : requests.entries.length < depth) (h : PathStands requests cursor depth) :
    (∀ other, PathStands requests cursor other) ∧
      ∀ other ≥ depth, pathRequests requests cursor other = pathRequests requests cursor depth := by
  obtain ⟨last, hlast, hended⟩ := follow_ends hsize
    (fun n hn id hid => by
      obtain ⟨request, hrequest, -⟩ := h.completed n hn id hid
      exact AList.lookup_isSome.mp (by rw [hrequest]; rfl))
    h.acyclic
  have hbefore : ∀ n id, pathId requests cursor n = some id → n < depth := by
    intro n id hid
    by_contra hn
    have hnone : pathId requests cursor n = none := follow_ended hended (by omega)
    rw [hnone] at hid
    cases hid
  refine ⟨fun other => ⟨fun n _ id hid => h.completed n (hbefore n id hid) id hid,
    fun i j hij _ id hi hj => h.acyclic i j hij (hbefore j id hj) id hi hj⟩, fun other hother => ?_⟩
  obtain ⟨extra, rfl⟩ := Nat.exists_eq_add_of_le hother
  rw [pathRequests, range_add, filterMap_append, pathRequests]
  convert append_nil _
  rw [filterMap_eq_nil_iff]
  intro n hn
  obtain ⟨k, -, rfl⟩ := mem_map.mp hn
  have hnone : pathId requests cursor (depth + k) = none := follow_ended hended (by omega)
  rw [hnone]
  rfl

/-- The chain of an id is given exactly when the first requests on the path from it, as many as
were asked for, are stored, completed and distinct; it is these, oldest first. In a store with
fewer requests they are the whole path. -/
theorem context_chain_iff (inner : StoreInner) (id : Text) (maxDepth : ℕ)
    (chain : List StoredResponse) :
    (responseContextChain inner id maxDepth = .ok chain ↔
      PathStands inner.requests (some id) (chainDepth maxDepth) ∧
      chain = (pathRequests inner.requests (some id) (chainDepth maxDepth)).reverse.map
        storedResponse) ∧
    (inner.requests.entries.length < chainDepth maxDepth →
      PathStands inner.requests (some id) (chainDepth maxDepth) →
      (∀ depth, PathStands inner.requests (some id) depth) ∧
      ∀ depth ≥ chainDepth maxDepth, pathRequests inner.requests (some id) depth =
        pathRequests inner.requests (some id) (chainDepth maxDepth)) := by
  refine ⟨?_, fun hsize hstands => pathStands_whole hsize hstands⟩
  obtain ⟨depth, hdepth⟩ : ∃ depth, chainDepth maxDepth = depth + 1 := by
    refine ⟨chainDepth maxDepth - 1, ?_⟩
    have : 0 < chainDepth maxDepth := by
      unfold chainDepth maxContextChainDepth
      omega
    omega
  rw [responseContextChain]
  cases hlook : inner.requests.lookup id with
  | none =>
    refine ⟨nofun, fun h => ?_⟩
    rw [hdepth] at h
    obtain ⟨request, hrequest, -⟩ := pathStands_succ.mp h.1
    rw [hlook] at hrequest
    cases hrequest
  | some root =>
    simp only
    split_ifs with hstatus
    · refine ⟨nofun, fun h => ?_⟩
      rw [hdepth] at h
      obtain ⟨request, hrequest, hcompleted, -⟩ := pathStands_succ.mp h.1
      obtain rfl := some_inj.mp (hlook.symm.trans hrequest)
      exact absurd hcompleted hstatus
    · cases hloop : chainLoop inner.requests [] [] (chainDepth maxDepth) (some id) with
      | error error =>
        refine ⟨nofun, fun h => ?_⟩
        have hok := (@chainLoop_eq_ok _ [] [] _ (chainDepth maxDepth) (some id)).mpr
          ⟨h.1, fun n _ other _ => not_mem_nil, rfl⟩
        rw [hloop] at hok
        cases hok
      | ok newestFirst =>
        obtain ⟨hstands, -, heq⟩ := chainLoop_eq_ok.mp hloop
        rw [nil_append] at heq
        rw [Except.map, Except.ok.injEq, heq, ← map_reverse]
        exact ⟨fun h => ⟨hstands, h.symm⟩, fun h => h.2.symm⟩

/-- A completed request whose previous response is not stored. -/
def orphanedResponse : StoreInner :=
  run epochCrates id StoreInner.default
    [(0, .checkpointRequest "resp_b" (some "resp_a") none .null),
      (0, .finishRequest "resp_b" .completed none none)]

/-- With a depth of one its chain is given, although the path goes on to a missing request. -/
theorem orphanedResponse_chain : ∃ chain,
    responseContextChain orphanedResponse "resp_b" 1 = .ok chain ∧
      ¬ ∀ depth, PathStands orphanedResponse.requests (some ("resp_b" : Text)) depth := by
  have hok : (responseContextChain orphanedResponse "resp_b" 1).isOk = true := by decide +kernel
  cases hchain : responseContextChain orphanedResponse "resp_b" 1 with
  | error error =>
    rw [hchain] at hok
    cases hok
  | ok chain =>
    refine ⟨chain, rfl, fun h => ?_⟩
    have hid : pathId orphanedResponse.requests (some ("resp_b" : Text)) 1 =
        some ("resp_a" : Text) := by decide +kernel
    obtain ⟨request, hrequest, -⟩ := (h 2).completed 1 (by omega) _ hid
    have hmissing : (orphanedResponse.requests.lookup ("resp_a" : Text)).isSome = false := by
      decide +kernel
    rw [hrequest] at hmissing
    cases hmissing

end CodeSeeX.Store
