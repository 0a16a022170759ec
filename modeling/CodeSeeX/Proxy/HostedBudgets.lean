import CodeSeeX.Proxy.RetainedRounds

/-!
# What a run of the hosted loop may spend

A search over the budget is refused instead of run.
-/
namespace CodeSeeX.Native.HostedRequest
open ToolLoop List

/-- The variables at the start of each iteration of a run. -/
def visited (request : HostedRequest) (pending : Option NativePendingContinuation) :
    ℕ → HostedVars → NativePendingToolGroups → List HostedVars
  | 0, _, _ => []
  | left + 1, vars, state =>
      vars :: match request.iterate pending vars state with
        | .done _ _ => []
        | .next vars state => visited request pending left vars state

/-- Every search that was run is kept for the final turn to show. -/
structure WithinBudget (vars : HostedVars) : Prop where
  searches : vars.searchCalls ≤ maxWebSearchLoopCalls
  shown : vars.executedSearches.length = vars.searchCalls

variable {request : HostedRequest} {pending : Option NativePendingContinuation}
  {vars next : HostedVars} {state after : NativePendingToolGroups}

theorem WithinBudget.call (h : WithinBudget vars) (call : NativeToolCall) :
    WithinBudget (request.executeNativeHostedCall vars call).2 := by
  unfold executeNativeHostedCall
  dsimp only
  split_ifs with hover hsearch
  · exact h
  · refine ⟨?_, ?_⟩
    · simp only [hsearch, true_and, not_le] at hover
      exact hover
    · rw [length_append, h.shown]
      rfl
  · exact ⟨h.searches, h.shown⟩

theorem WithinBudget.calls (h : WithinBudget vars) (calls : List NativeToolCall) :
    WithinBudget (request.executeNativeHostedCalls vars calls).2 := by
  induction calls generalizing vars with
  | nil => exact h
  | cons call calls ih => exact ih (h.call call)

theorem WithinBudget.iterate (h : WithinBudget vars)
    (hnext : request.iterate pending vars state = .next next after) : WithinBudget next := by
  unfold HostedRequest.iterate takeTurn at hnext
  split at hnext
  · cases hnext
  dsimp only at hnext
  split at hnext
  · cases hnext
  · cases hnext
  split_ifs at hnext
  · cases hnext
  · cases hnext
  · split at hnext
    · cases hnext
    · obtain ⟨rfl, -⟩ := HostedOutcome.next.inj hnext
      have hcalls := @WithinBudget.calls request vars h
      exact ⟨(hcalls _).searches, (hcalls _).shown⟩

theorem WithinBudget.visited (left : ℕ) (h : WithinBudget vars) :
    ∀ reached ∈ request.visited pending left vars state, WithinBudget reached := by
  induction left generalizing vars state with
  | zero => exact fun _ hmem => absurd hmem not_mem_nil
  | succ left ih =>
    rw [HostedRequest.visited, forall_mem_cons]
    refine ⟨h, ?_⟩
    cases hiterate : request.iterate pending vars state with
    | done answer after => exact fun _ hmem => absurd hmem not_mem_nil
    | next next after => exact ih (h.iterate hiterate)

/-- Whatever the provider and the tools answer, the loop answers within its iterations and runs at
most three searches, each of them kept to be shown. -/
theorem hostedLoop_within_budget (request : HostedRequest) (resolved : ResolvedInput) :
    let start := request.startVars resolved
    (request.loop resolved.continuation maxToolLoopIterations start resolved.state).isSome ∧
      ∀ vars ∈ request.visited resolved.continuation maxToolLoopIterations start resolved.state,
        ∀ calls, WithinBudget (request.executeNativeHostedCalls vars calls).2 := by
  intro start
  have hone : start.iteration = 1 := rfl
  have hstart : WithinBudget start := ⟨Nat.zero_le _, rfl⟩
  obtain ⟨answer, after, hloop⟩ := @loop_answers request resolved.continuation
    maxToolLoopIterations start resolved.state (by omega) (by rw [hone]; decide)
  refine ⟨by rw [hloop]; rfl, fun vars hvars => ?_⟩
  exact (hstart.visited maxToolLoopIterations vars hvars).calls

end CodeSeeX.Native.HostedRequest
