import CodeSeeX.Store.Lifecycle

/-!
# The cap on the tool facts of a request

At most a hundred tool facts are kept. When one more is appended, the oldest are
replaced by an entry that says how many were left out. That entry is the oldest
of the list when the next fact comes.
-/
namespace CodeSeeX.Store
open List Option

variable {α : Type} {facts : List Text} {inner : StoreInner} {request later : StoredRequest}

section Crates
variable (crates : StoreCrates) (redactSecretText : Text → Text)

/-- The tool facts of a request after facts were appended to none. -/
def appendToolFacts (facts : List Text) : List Text :=
  facts.foldl (appendToolFact crates redactSecretText) []

/-- A marker for exactly the facts that are missing, and behind it the newest in order. -/
def FactsCapped (facts stored : List Text) : Prop :=
  ∃ kept ≤ facts.length,
    stored = omittedFacts (facts.length - kept) ::
      newest kept (facts.map (sanitizeLogString crates redactSecretText)) ∧
    stored.length ≤ maxToolFactsPerRequest + 1

/-- The facts that a run appends to one request. -/
def appendedFacts (id : Text) (operations : List (DateTime × Operation)) : List Text :=
  operations.filterMap fun op => match op.2 with
    | .appendRequestToolFact other fact => if other = id then some fact else none
    | _ => none

variable {crates : StoreCrates} {redactSecretText : Text → Text}

/-! ## The list -/

/-- The newest entries after one more. -/
theorem newest_append_singleton (n : ℕ) (entries : List α) (entry : α) :
    newest (n + 1) (entries ++ [entry]) = newest n entries ++ [entry] := by
  simp [newest]

theorem newest_cons {n : ℕ} {entries : List α} (hn : n ≤ entries.length) (entry : α) :
    newest n (entry :: entries) = newest n entries := by
  rw [newest, newest, reverse_cons, take_append_of_le_length]
  rwa [length_reverse]

theorem newest_newest_append {n : ℕ} (hn : 0 < n) (entries : List α) (entry : α) :
    newest n (newest n entries ++ [entry]) = newest n (entries ++ [entry]) := by
  obtain ⟨m, rfl⟩ : ∃ m, n = m + 1 := ⟨n - 1, by omega⟩
  rw [newest_append_singleton, newest_append_singleton, newest, newest, reverse_reverse,
    take_take, newest, Nat.min_eq_left (Nat.le_succ m)]

theorem omittedFacts_injective : Function.Injective omittedFacts := by
  intro m n h
  have hdigits : Text.ofNat m = Text.ofNat n := by
    have hcancel := append_cancel_right h
    exact append_cancel_left hcancel
  exact Text.ofNat_injective hdigits

/-- A fact that is appended to a full list with its marker: the marker goes for good, and its
number with it. -/
theorem appendToolFact_full (h : facts.length = maxToolFactsPerRequest + 1) (fact : Text) :
    appendToolFact crates redactSecretText facts fact =
      omittedFacts 2 :: newest maxToolFactsPerRequest
        (facts ++ [sanitizeLogString crates redactSecretText fact]) := by
  have hlength : (facts ++ [sanitizeLogString crates redactSecretText fact]).length = 102 := by
    simp [h, maxToolFactsPerRequest]
  rw [appendToolFact, hlength, newest_eq_drop, hlength]
  rfl

/-- What is stored, by the number of facts. -/
theorem appendToolFacts_eq (facts : List Text) :
    appendToolFacts crates redactSecretText facts =
      if facts.length ≤ maxToolFactsPerRequest then
        facts.map (sanitizeLogString crates redactSecretText)
      else omittedFacts (min (facts.length - maxToolFactsPerRequest) 2) ::
        newest maxToolFactsPerRequest
          (facts.map (sanitizeLogString crates redactSecretText)) := by
  induction facts using reverseRecOn with
  | nil => rfl
  | append_singleton facts fact ih =>
    have hfold : appendToolFacts crates redactSecretText (facts ++ [fact]) =
        appendToolFact crates redactSecretText (appendToolFacts crates redactSecretText facts)
          fact := by
      rw [appendToolFacts, foldl_append]
      rfl
    rw [hfold, ih, map_append, map_singleton, length_append, length_singleton]
    by_cases hfew : facts.length + 1 ≤ maxToolFactsPerRequest
    · rw [if_pos (by omega), if_pos hfew, appendToolFact]
      rw [if_neg]
      simp only [length_append, length_map, length_singleton]
      omega
    by_cases hfull : facts.length = maxToolFactsPerRequest
    · -- the first fact over the cap: one entry is left out
      have hlength : (facts.map (sanitizeLogString crates redactSecretText) ++
          [sanitizeLogString crates redactSecretText fact]).length = 101 := by
        simp [hfull, maxToolFactsPerRequest]
      rw [if_pos (by omega), if_neg hfew, appendToolFact, newest_eq_drop, hlength, hfull]
      rfl
    · rw [if_neg (by omega), if_neg hfew, appendToolFact_full]
      · have htwo : min (facts.length + 1 - maxToolFactsPerRequest) 2 = 2 := by omega
        rw [htwo, cons_append, newest_cons, newest_newest_append (by decide)]
        rw [length_append, newest_length, length_map, length_singleton]
        omega
      · rw [length_cons, newest_length, length_map]
        omega

/-- Over the cap, the marker is right for the first two facts that are left out and for no other. -/
theorem appendToolFacts_capped_iff (h : maxToolFactsPerRequest < facts.length) :
    FactsCapped crates redactSecretText facts (appendToolFacts crates redactSecretText facts) ↔
      facts.length ≤ maxToolFactsPerRequest + 2 := by
  rw [appendToolFacts_eq, if_neg (by omega)]
  constructor
  · rintro ⟨kept, hkept, hstored, -⟩
    obtain ⟨hmarker, hnewest⟩ := cons.inj hstored
    have hcount := omittedFacts_injective hmarker
    have hlength := congrArg length hnewest
    rw [newest_length, newest_length, length_map] at hlength
    omega
  · intro hfew
    refine ⟨maxToolFactsPerRequest, by omega, ?_, ?_⟩
    · rw [Nat.min_eq_left (by omega)]
    · rw [length_cons, newest_length]
      omega

/-! ## Runs -/

/-- One operation appends its fact, or leaves the facts of a request as they are. -/
theorem toolFacts_perform {id : Text} (h : WellFormed crates inner) (op : DateTime × Operation)
    (hbefore : inner.requests.lookup id = some request)
    (hafter : (perform crates redactSecretText inner op.1 op.2).requests.lookup id = some later) :
    later.toolFacts = (appendedFacts id [op]).foldl (appendToolFact crates redactSecretText)
      request.toolFacts := by
  obtain ⟨now, op⟩ := op
  by_cases hop : ∃ fact, op = .appendRequestToolFact id fact
  · obtain ⟨fact, rfl⟩ := hop
    have hlater : (perform crates redactSecretText inner now
        (.appendRequestToolFact id fact)).requests.lookup id = some { request with
          toolFacts := appendToolFact crates redactSecretText request.toolFacts fact
          updatedAt := now } := by
      rw [perform, appendRequestToolFact, updateRequest, HashMap.lookup_modify_self, hbefore]
      rfl
    obtain rfl := some_inj.mp (hlater.symm.trans hafter)
    simp [appendedFacts]
  · have hnone : appendedFacts id [(now, op)] = [] := by
      rw [appendedFacts, filterMap_eq_nil_iff]
      intro other hmem
      rw [mem_singleton.mp hmem]
      cases op with
      | appendRequestToolFact other fact =>
        refine if_neg ?_
        rintro rfl
        exact hop ⟨fact, rfl⟩
      | _ => rfl
    rw [hnone, foldl_nil]
    cases change_perform h now op hbefore hafter with
    | toolFact fact heq => exact absurd ⟨fact, heq⟩ hop
    | _ => rfl

/-- The tool facts of a request are those that a run appended to it. -/
theorem toolFacts_run {operations : List (DateTime × Operation)} {id : Text}
    (h : WellFormed crates inner) (hbefore : inner.requests.lookup id = some request)
    (hnew : id ∉ checkpointedIds operations)
    (hafter : (run crates redactSecretText inner operations).requests.lookup id = some later) :
    later.toolFacts = (appendedFacts id operations).foldl (appendToolFact crates redactSecretText)
      request.toolFacts := by
  induction operations generalizing inner request with
  | nil =>
    rw [run, foldl_nil, hbefore, some_inj] at hafter
    rw [hafter]
    rfl
  | cons op operations ih =>
    have hwell := @WellFormed.perform crates redactSecretText inner h op.1 op.2
    obtain ⟨hrest, middle, hmiddle⟩ := stored_next h hnew hafter
    rw [ih hwell hmiddle hrest hafter, toolFacts_perform h op hbefore hmiddle,
      ← foldl_append, appendedFacts, appendedFacts, ← filterMap_append]
    rfl

/-- Facts that any run appends to a request without facts, whatever else it does: more than a
hundred of them are capped faithfully exactly when they are a hundred and two at most. -/
theorem tool_facts_capped_iff {inner : StoreInner} {operations : List (DateTime × Operation)}
    {id : Text} {request later : StoredRequest}
    (hreachable : Reachable crates redactSecretText inner)
    (hbefore : inner.requests.lookup id = some request) (hnone : request.toolFacts = [])
    (hnew : id ∉ checkpointedIds operations)
    (hafter : (run crates redactSecretText inner operations).requests.lookup id = some later)
    (hover : maxToolFactsPerRequest < (appendedFacts id operations).length) :
    FactsCapped crates redactSecretText (appendedFacts id operations) later.toolFacts ↔
      (appendedFacts id operations).length ≤ maxToolFactsPerRequest + 2 := by
  obtain ⟨earlier, rfl⟩ := hreachable
  have hwell : WellFormed crates (run crates redactSecretText StoreInner.default earlier) :=
    WellFormed.default.run earlier
  have hfacts := toolFacts_run hwell hbefore hnew hafter
  rw [hnone] at hfacts
  rw [hfacts]
  exact appendToolFacts_capped_iff hover

end Crates

def toolFactsOf (inner : StoreInner) (id : Text) : Option (List Text) :=
  (inner.requests.lookup id).map StoredRequest.toolFacts

/-- The same fact, appended `n` times. -/
def repeatedFact (n : ℕ) : List (DateTime × Operation) :=
  replicate n (0, .appendRequestToolFact "resp_a" "read_file: ok")

theorem one_over_capped : ∃ later : StoredRequest,
    (run epochCrates id checkpointed (repeatedFact 101)).requests.lookup ("resp_a" : Text) =
        some later ∧
      FactsCapped epochCrates id (appendedFacts "resp_a" (repeatedFact 101)) later.toolFacts := by
  have hstart : toolFactsOf checkpointed "resp_a" = some [] := by decide +kernel
  have hend : (toolFactsOf (run epochCrates id checkpointed (repeatedFact 101))
      "resp_a").isSome = true := by decide +kernel
  obtain ⟨request, hrequest, hnone⟩ := map_eq_some_iff.mp hstart
  obtain ⟨facts, hfacts⟩ := isSome_iff_exists.mp hend
  obtain ⟨later, hlater, -⟩ := map_eq_some_iff.mp hfacts
  exact ⟨later, hlater, (tool_facts_capped_iff checkpointed_reachable hrequest hnone
    (by decide +kernel) hlater (by decide +kernel)).mpr (by decide +kernel)⟩

/-- Three facts are left out, and the marker says two. -/
theorem three_over_not_capped : ∃ later : StoredRequest,
    (run epochCrates id checkpointed (repeatedFact 103)).requests.lookup ("resp_a" : Text) =
        some later ∧
      100 < (appendedFacts "resp_a" (repeatedFact 103)).length ∧
      ¬ FactsCapped epochCrates id (appendedFacts "resp_a" (repeatedFact 103)) later.toolFacts := by
  have hstart : toolFactsOf checkpointed "resp_a" = some [] := by decide +kernel
  have hend : (toolFactsOf (run epochCrates id checkpointed (repeatedFact 103))
      "resp_a").isSome = true := by decide +kernel
  obtain ⟨request, hrequest, hnone⟩ := map_eq_some_iff.mp hstart
  obtain ⟨facts, hfacts⟩ := isSome_iff_exists.mp hend
  obtain ⟨later, hlater, -⟩ := map_eq_some_iff.mp hfacts
  refine ⟨later, hlater, by decide +kernel, ?_⟩
  have hwell : WellFormed epochCrates checkpointed := WellFormed.default.run _
  rw [toolFacts_run hwell hrequest (by decide +kernel) hlater, hnone]
  exact fun hcapped =>
    absurd ((appendToolFacts_capped_iff (by decide +kernel)).mp hcapped) (by decide +kernel)

end CodeSeeX.Store
