import CodeSeeX.Store.Lifecycle

/-!
# The usage that events leave in a request

Until a response with usage is stored, each upstream usage event of a request adds
its token counts to a fallback. The counts saturate, so what is stored is one clamp
of their sums; the total is derived from them, except in the first event's own usage.
-/
namespace CodeSeeX.Store
open List Option

variable {value : Value} {n : ℕ} (request : StoredRequest) (usages : List Value)

/-! ## Counts of a usage -/

theorem valueToU64_le (h : valueToU64 value = some n) : n ≤ u64Max := by
  have hdouble : ∀ d : Double, ∀ m, d.toU64? = some m → m ≤ u64Max := by
    intro d m hm
    unfold Double.toU64? at hm
    split_ifs at hm
    · rw [← some_inj.mp hm]
      exact Nat.min_le_right _ _
    · rw [← some_inj.mp hm]
      exact Nat.min_le_right _ _
  rcases or_eq_some_iff.mp h with hint | ⟨-, hfloat⟩
  · unfold Value.asU64 at hint
    split at hint
    · rename_i k
      rw [← some_inj.mp hint, u64Max]
      have := k.toNat_lt
      omega
    · cases hint
  · split at hfloat
    · exact hdouble _ _ hfloat
    · cases hfloat

theorem firstU64_le {keys : List Text} (h : firstU64 value keys = some n) :
    n ≤ u64Max := by
  obtain ⟨found, -, hfound⟩ := exists_of_findSome?_eq_some h
  exact valueToU64_le hfound

theorem getD_le {count : Option ℕ} {default : ℕ} (hdefault : default ≤ u64Max)
    (h : ∀ n, count = some n → n ≤ u64Max) : count.getD default ≤ u64Max := by
  cases count with
  | none => exact hdefault
  | some n => exact h n rfl

theorem saturatingAdd_le (left right : ℕ) : saturatingAdd left right ≤ u64Max :=
  Nat.min_le_right _ _

theorem saturatingAdd_min (left right : ℕ) :
    saturatingAdd (min left u64Max) (min right u64Max) = min (left + right) u64Max := by
  unfold saturatingAdd
  omega

/-- The counts of a usage stay in the range of `u64`. -/
structure CountsFit (counts : UsageCounts) : Prop where
  cached : counts.cached ≤ u64Max
  cacheMiss : counts.cacheMiss ≤ u64Max
  output : counts.output ≤ u64Max
  total : counts.total ≤ u64Max

theorem usageCounts_fit (usage : Value) : CountsFit (usageCounts usage) := by
  have hinput : ((firstU64 usage inputKeys).getD 0) ≤ u64Max :=
    getD_le (Nat.zero_le _) fun n hn => firstU64_le hn
  refine ⟨?_, ?_, ?_, ?_⟩
  · refine getD_le (Nat.zero_le _) fun n hn => ?_
    rcases or_eq_some_iff.mp hn with hfirst | ⟨-, hlast⟩
    · rcases or_eq_some_iff.mp hfirst with hkey | ⟨-, hdetail⟩
      · exact firstU64_le hkey
      · obtain ⟨found, -, hfound⟩ := bind_eq_some_iff.mp hdetail
        exact valueToU64_le hfound
    · obtain ⟨found, -, hfound⟩ := bind_eq_some_iff.mp hlast
      exact valueToU64_le hfound
  · exact getD_le (le_trans (Nat.sub_le _ _) hinput) fun n hn => firstU64_le hn
  · exact getD_le (Nat.zero_le _) fun n hn => firstU64_le hn
  · exact getD_le (saturatingAdd_le _ _) fun n hn => firstU64_le hn

theorem valueToU64_natValue (h : n ≤ u64Max) : valueToU64 (natValue n) = some n := by
  have hlt : n < 2 ^ 64 := by
    unfold u64Max at h
    omega
  show some (UInt64.ofNat n).toNat = some n
  rw [UInt64.toNat_ofNat_of_lt' hlt]

/-- A count that was written is the first one found. -/
theorem firstU64_written {keys : List Text} (h : n ≤ u64Max)
    (hkeys : (keys.filterMap fun key => value.get key) = [natValue n]) :
    firstU64 value keys = some n := by
  rw [firstU64, hkeys, findSome?_cons, valueToU64_natValue h]

section
variable {input cached cacheMiss output total : ℕ}

/-- What is written is read back. -/
theorem usageCounts_usageCountsValue (hinput : input ≤ u64Max)
    (hfit : CountsFit ⟨input, cached, cacheMiss, output, total⟩) :
    usageCounts (usageCountsValue input cached cacheMiss output total) =
      ⟨input, cached, cacheMiss, output, total⟩ := by
  have hcached : firstU64 (usageCountsValue input cached cacheMiss output total) cachedKeys =
      some cached := firstU64_written hfit.cached rfl
  have hin : firstU64 (usageCountsValue input cached cacheMiss output total) inputKeys =
      some input := firstU64_written hinput rfl
  have hmiss : firstU64 (usageCountsValue input cached cacheMiss output total) cacheMissKeys =
      some cacheMiss := firstU64_written hfit.cacheMiss rfl
  have hout : firstU64 (usageCountsValue input cached cacheMiss output total) outputKeys =
      some output := firstU64_written hfit.output rfl
  have htotal : firstU64 (usageCountsValue input cached cacheMiss output total)
      ["total_tokens"] = some total := firstU64_written hfit.total rfl
  rw [usageCounts, hcached, hin, hmiss, hout, htotal]
  rfl

end

/-- The counts of a usage in the form in which they are stored. -/
theorem usageCounts_normalized (usage : Value) :
    usageCounts (normalizedUsageValue usage) =
      { usageCounts usage with
        input := saturatingAdd (usageCounts usage).cached (usageCounts usage).cacheMiss } := by
  have hfit := usageCounts_fit usage
  rw [normalizedUsageValue, usageCounts_usageCountsValue (saturatingAdd_le _ _)
    ⟨hfit.cached, hfit.cacheMiss, hfit.output, hfit.total⟩]

/-- The usage with these counts and a total that is derived from them. -/
def derivedUsage (cached cacheMiss output : ℕ) : Value :=
  usageCountsValue (saturatingAdd cached cacheMiss) cached cacheMiss output
    (saturatingAdd (saturatingAdd cached cacheMiss) output)

theorem mergeUsageValues_eq (left right : Value) :
    mergeUsageValues left right =
      derivedUsage (saturatingAdd (usageCounts left).cached (usageCounts right).cached)
        (saturatingAdd (usageCounts left).cacheMiss (usageCounts right).cacheMiss)
        (saturatingAdd (usageCounts left).output (usageCounts right).output) := by
  have hcached : ∀ usage, firstU64 (normalizedUsageValue usage) ["cached_input_tokens"] =
      some (usageCounts usage).cached := fun usage =>
    firstU64_written (usageCounts_fit usage).cached rfl
  have hmiss : ∀ usage, firstU64 (normalizedUsageValue usage) ["cache_miss_input_tokens"] =
      some (usageCounts usage).cacheMiss := fun usage =>
    firstU64_written (usageCounts_fit usage).cacheMiss rfl
  have hout : ∀ usage, firstU64 (normalizedUsageValue usage) ["output_tokens"] =
      some (usageCounts usage).output := fun usage =>
    firstU64_written (usageCounts_fit usage).output rfl
  simp only [mergeUsageValues, hcached, hmiss, hout, getD_some, derivedUsage]

/-! ## Accumulated usage -/

/-- The response of a request after a usage event. -/
def usageAdded (request : StoredRequest) (usage : Value) : Value :=
  if usageHasTokens usage then (upstreamUsageFallback request usage).getD request.response
  else request.response

/-- A request after the usages of events, one after the other. -/
def withUsages (request : StoredRequest) (usages : List Value) : StoredRequest :=
  usages.foldl (fun request usage => { request with response := usageAdded request usage }) request

def cachedSum (usages : List Value) : ℕ := (usages.map fun usage => (usageCounts usage).cached).sum

def cacheMissSum (usages : List Value) : ℕ :=
  (usages.map fun usage => (usageCounts usage).cacheMiss).sum

def outputSum (usages : List Value) : ℕ := (usages.map fun usage => (usageCounts usage).output).sum

/-- The clamped sums of usages. -/
def summedUsage (usages : List Value) : Value :=
  derivedUsage (min (cachedSum usages) u64Max) (min (cacheMissSum usages) u64Max)
    (min (outputSum usages) u64Max)

/-- The fallback that usages with tokens leave in a request without a response. -/
def fallbackOf (request : StoredRequest) : List Value → Value
  | [] => .null
  | [usage] => fallbackResponse request (normalizedUsageValue usage)
  | usages => fallbackResponse request (summedUsage usages)

theorem fallbackOf_summed (first second : Value) (rest : List Value) :
    fallbackOf request (first :: second :: rest) =
      fallbackResponse request (summedUsage (first :: second :: rest)) := rfl

theorem upstreamUsageFallback_congr {request other : StoredRequest}
    (hmodel : request.model = other.model)
    (hresponse : request.response = other.response) (usage : Value) :
    upstreamUsageFallback request usage = upstreamUsageFallback other usage := by
  simp only [upstreamUsageFallback, fallbackResponse, hmodel, hresponse]

theorem usageCounts_derived {cached cacheMiss output : ℕ} (hcached : cached ≤ u64Max)
    (hmiss : cacheMiss ≤ u64Max) (houtput : output ≤ u64Max) :
    usageCounts (derivedUsage cached cacheMiss output) =
      ⟨saturatingAdd cached cacheMiss, cached, cacheMiss, output,
        saturatingAdd (saturatingAdd cached cacheMiss) output⟩ :=
  usageCounts_usageCountsValue (saturatingAdd_le _ _)
    ⟨hcached, hmiss, houtput, saturatingAdd_le _ _⟩

theorem usageCounts_summed :
    usageCounts (summedUsage usages) =
      ⟨min (cachedSum usages + cacheMissSum usages) u64Max, min (cachedSum usages) u64Max,
        min (cacheMissSum usages) u64Max, min (outputSum usages) u64Max,
        min (cachedSum usages + cacheMissSum usages + outputSum usages) u64Max⟩ := by
  rw [summedUsage, usageCounts_derived (Nat.min_le_right _ _) (Nat.min_le_right _ _)
    (Nat.min_le_right _ _), saturatingAdd_min, saturatingAdd_min]

/-- A fallback that is stored takes one more usage. -/
theorem fallback_merged (stored usage : Value) :
    upstreamUsageFallback { request with response := fallbackResponse request stored } usage =
      some (fallbackResponse request (mergeUsageValues stored (normalizedUsageValue usage))) := rfl

theorem fallback_first (usage : Value) :
    upstreamUsageFallback { request with response := .null } usage =
      some (fallbackResponse request (normalizedUsageValue usage)) := rfl

theorem sums_append (usages others : List Value) :
    cachedSum (usages ++ others) = cachedSum usages + cachedSum others ∧
      cacheMissSum (usages ++ others) = cacheMissSum usages + cacheMissSum others ∧
      outputSum (usages ++ others) = outputSum usages + outputSum others := by
  simp [cachedSum, cacheMissSum, outputSum]

theorem merge_summed (usage : Value) :
    mergeUsageValues (summedUsage usages) (normalizedUsageValue usage) =
      summedUsage (usages ++ [usage]) := by
  have hfit := usageCounts_fit usage
  obtain ⟨hcached, hmiss, houtput⟩ := sums_append usages [usage]
  rw [mergeUsageValues_eq, usageCounts_summed, usageCounts_normalized, summedUsage, hcached, hmiss,
    houtput]
  simp only [cachedSum, cacheMissSum, outputSum, map_singleton, sum_singleton]
  rw [← saturatingAdd_min, ← saturatingAdd_min, ← saturatingAdd_min, Nat.min_eq_left hfit.cached,
    Nat.min_eq_left hfit.cacheMiss, Nat.min_eq_left hfit.output]

theorem merge_first (first usage : Value) :
    mergeUsageValues (normalizedUsageValue first) (normalizedUsageValue usage) =
      summedUsage [first, usage] := by
  rw [mergeUsageValues_eq, usageCounts_normalized, usageCounts_normalized, summedUsage]
  rfl

/-- The fallback is that of the usages with tokens. -/
theorem withUsages_response {request : StoredRequest} (hnone : request.response = .null)
    (usages : List Value) :
    withUsages request usages =
      { request with response := fallbackOf request (usages.filter usageHasTokens) } := by
  induction usages using reverseRecOn with
  | nil =>
    rw [withUsages, foldl_nil]
    cases request
    simp only [filter_nil, fallbackOf] at hnone ⊢
    rw [hnone]
  | append_singleton usages usage ih =>
    have hstep : withUsages request (usages ++ [usage]) =
        { withUsages request usages with
          response := usageAdded (withUsages request usages) usage } := by
      rw [withUsages, foldl_append]
      rfl
    rw [hstep, ih, filter_append]
    by_cases htokens : usageHasTokens usage = true
    · rw [usageAdded, if_pos htokens, filter_cons_of_pos htokens, filter_nil]
      match hcounted : usages.filter usageHasTokens with
      | [] => rw [fallbackOf, fallback_first]; rfl
      | [first] => rw [fallbackOf, fallback_merged, merge_first]; rfl
      | first :: second :: rest =>
        rw [fallbackOf_summed, fallback_merged, merge_summed]
        rfl
    · rw [usageAdded, if_neg htokens, filter_cons_of_neg (by simpa using htokens),
        filter_nil, append_nil]

/-! ## Sums of the events -/

/-- The counts that the fallback shows. -/
def storedCounts (response : Value) : UsageCounts :=
  usageCounts ((usageValue response).getD .null)

/-- The stored counts are the sums of the events, the total the sum of these. -/
structure FallbackSums (usages : List Value) (response : Value) : Prop where
  cached : (storedCounts response).cached = cachedSum usages
  cacheMiss : (storedCounts response).cacheMiss = cacheMissSum usages
  output : (storedCounts response).output = outputSum usages
  total : (storedCounts response).total = cachedSum usages + cacheMissSum usages + outputSum usages

/-- The sums are in the range of `u64`, and a single usage with tokens has a total that is the
sum of its counts. -/
structure SumsFit (usages : List Value) : Prop where
  range : cachedSum usages + cacheMissSum usages + outputSum usages ≤ u64Max
  single : ∀ usage, usages.filter usageHasTokens = [usage] →
    (usageCounts usage).total =
      (usageCounts usage).cached + (usageCounts usage).cacheMiss + (usageCounts usage).output

/-- A usage without tokens adds nothing. -/
theorem counts_without_tokens {usage : Value} (h : usageHasTokens usage = false) :
    (usageCounts usage).cached = 0 ∧ (usageCounts usage).cacheMiss = 0 ∧
      (usageCounts usage).output = 0 := by
  simp only [usageHasTokens, decide_eq_false_iff_not, not_or, Nat.not_lt, Nat.le_zero] at h
  exact ⟨h.2.2.1, h.2.2.2.1, h.2.2.2.2⟩

theorem sums_filter :
    cachedSum (usages.filter usageHasTokens) = cachedSum usages ∧
      cacheMissSum (usages.filter usageHasTokens) = cacheMissSum usages ∧
      outputSum (usages.filter usageHasTokens) = outputSum usages := by
  induction usages with
  | nil => exact ⟨rfl, rfl, rfl⟩
  | cons usage usages ih =>
    simp only [cachedSum, cacheMissSum, outputSum] at ih
    by_cases htokens : usageHasTokens usage = true
    · rw [filter_cons_of_pos htokens]
      simp only [cachedSum, cacheMissSum, outputSum, map_cons, sum_cons]
      omega
    · rw [filter_cons_of_neg htokens]
      obtain ⟨hcached, hmiss, houtput⟩ := counts_without_tokens (Bool.eq_false_iff.mpr htokens)
      simp only [cachedSum, cacheMissSum, outputSum, map_cons, sum_cons]
      omega

/-- The fallback of usages with tokens holds their sums exactly when these fit. -/
theorem fallbackSums_iff (usages : List Value) :
    FallbackSums usages (fallbackOf request (usages.filter usageHasTokens)) ↔ SumsFit usages := by
  obtain ⟨hcached, hmiss, houtput⟩ := sums_filter usages
  match hcounted : usages.filter usageHasTokens with
  | [] =>
    rw [hcounted] at hcached hmiss houtput
    simp only [cachedSum, cacheMissSum, outputSum, map_nil, sum_nil]
      at hcached hmiss houtput
    have hstored : storedCounts (fallbackOf request []) = ⟨0, 0, 0, 0, 0⟩ := rfl
    refine iff_of_true ⟨?_, ?_, ?_, ?_⟩ ⟨?_, ?_⟩
    · rw [hstored, cachedSum, ← hcached]
    · rw [hstored, cacheMissSum, ← hmiss]
    · rw [hstored, outputSum, ← houtput]
    · rw [hstored, cachedSum, cacheMissSum, outputSum, ← hcached, ← hmiss, ← houtput]
      rfl
    · rw [cachedSum, cacheMissSum, outputSum, ← hcached, ← hmiss, ← houtput]
      exact Nat.zero_le _
    · intro usage hsingle
      rw [hcounted] at hsingle
      cases hsingle
  | [usage] =>
    rw [hcounted] at hcached hmiss houtput
    simp only [cachedSum, cacheMissSum, outputSum, map_singleton, sum_singleton]
      at hcached hmiss houtput
    have hstored : storedCounts (fallbackOf request [usage]) = { usageCounts usage with
        input := saturatingAdd (usageCounts usage).cached (usageCounts usage).cacheMiss } :=
      usageCounts_normalized usage
    have hfit := usageCounts_fit usage
    constructor
    · intro h
      have htotal := h.total
      rw [hstored, cachedSum, cacheMissSum, outputSum, ← hcached, ← hmiss, ← houtput] at htotal
      refine ⟨?_, ?_⟩
      · rw [cachedSum, cacheMissSum, outputSum, ← hcached, ← hmiss, ← houtput, ← htotal]
        exact hfit.total
      · intro other hsingle
        rw [hcounted] at hsingle
        obtain ⟨rfl, -⟩ := cons.inj hsingle
        exact htotal
    · intro h
      refine ⟨?_, ?_, ?_, ?_⟩
      · rw [hstored, cachedSum, ← hcached]
      · rw [hstored, cacheMissSum, ← hmiss]
      · rw [hstored, outputSum, ← houtput]
      · rw [hstored, cachedSum, cacheMissSum, outputSum, ← hcached, ← hmiss, ← houtput]
        exact h.single usage hcounted
  | first :: second :: rest =>
    rw [hcounted] at hcached hmiss houtput
    have hstored : storedCounts (fallbackOf request (first :: second :: rest)) =
        usageCounts (summedUsage (first :: second :: rest)) := rfl
    rw [usageCounts_summed, hcached, hmiss, houtput] at hstored
    constructor
    · intro h
      have htotal := h.total
      rw [hstored] at htotal
      refine ⟨?_, fun usage hsingle => ?_⟩
      · rw [← htotal]
        exact Nat.min_le_right _ _
      · rw [hcounted] at hsingle
        cases hsingle
    · intro h
      have hrange := h.range
      refine ⟨?_, ?_, ?_, ?_⟩
      · rw [hstored]
        exact Nat.min_eq_left (by omega)
      · rw [hstored]
        exact Nat.min_eq_left (by omega)
      · rw [hstored]
        exact Nat.min_eq_left (by omega)
      · rw [hstored]
        exact Nat.min_eq_left hrange

/-- The order of the usages does not matter. -/
theorem fallbackOf_perm {usages others : List Value} (h : usages.Perm others) :
    fallbackOf request usages = fallbackOf request others := by
  have hsummed : summedUsage usages = summedUsage others := by
    simp only [summedUsage, cachedSum, cacheMissSum, outputSum, (h.map _).sum_eq]
  match usages, others, h.length_eq with
  | [], [], _ => rfl
  | [usage], [other], _ => rw [singleton_perm_singleton.mp h]
  | first :: second :: rest, other :: next :: others, _ =>
    rw [fallbackOf_summed, fallbackOf_summed, hsummed]

/-! ## Runs -/

/-- The request and the usage that an event is about. -/
def usageEvent (eventType : Text) (detail : Option Value) : Option (Text × Value) :=
  if eventType ≠ ("upstream_call_usage_breakdown" : Text) then none
  else detail.bind fun detail =>
    (detail.getStr "id").map fun id => (id, (detail.get "usage").getD .null)

/-- The usages that the events of a run bring to one request. -/
def usagesOf (id : Text) (operations : List (DateTime × Operation)) : List Value :=
  operations.filterMap fun op => match op.2 with
    | .recordEvent _ eventType _ _ detail =>
        (usageEvent eventType detail).bind fun event => if event.1 = id then some event.2 else none
    | _ => none

/-- The ids of the requests that a run finishes. -/
def finishedIds (operations : List (DateTime × Operation)) : List Text :=
  operations.filterMap fun op => match op.2 with
    | .finishRequest id _ _ _ => some id
    | _ => none

section Crates
variable {crates : StoreCrates} {redactSecretText : Text → Text} {inner : StoreInner} {id : Text}
  {request later : StoredRequest}

section
variable (now : DateTime) (level eventType audience message : Text) (detail : Option Value)

theorem recordedUsage_event :
    recordedUsage crates inner now (.recordEvent level eventType audience message detail) =
      (usageEvent eventType detail).bind fun event =>
        if usageHasTokens event.2 then
          (inner.requests.lookup event.1).bind fun request =>
            (upstreamUsageFallback request event.2).map fun response => (event.1, response)
        else none := by
  simp only [recordedUsage, upstreamUsageUpdate, usageEvent]
  split_ifs
  · rfl
  · cases detail with
    | none => rfl
    | some detail =>
      simp only [bind_some]
      cases detail.getStr "id" with
      | none => rfl
      | some other =>
        simp only [bind_some, map_some]
        cases usageHasTokens ((detail.get "usage").getD .null) <;> rfl

/-- A usage event adds its usage to the response of its request. -/
theorem response_recordEvent (hbefore : inner.requests.lookup id = some request)
    (hafter : (perform crates redactSecretText inner now
      (.recordEvent level eventType audience message detail)).requests.lookup id = some later) :
    later.model = request.model ∧ later.response =
      (withUsages request (usagesOf id
        [(now, .recordEvent level eventType audience message detail)])).response := by
  have hrequests := @requests_recordEvent crates inner now level eventType audience message detail
  rw [recordedUsage_event] at hrequests
  rw [perform] at hafter
  cases hevent : usageEvent eventType detail with
  | none =>
    have husages : usagesOf id [(now, .recordEvent level eventType audience message detail)] = [] :=
      by simp [usagesOf, hevent]
    rw [hevent, bind_none] at hrequests
    rw [hrequests, hbefore, some_inj] at hafter
    rw [husages, ← hafter]
    exact ⟨rfl, rfl⟩
  | some event =>
    obtain ⟨other, usage⟩ := event
    rw [hevent, bind_some] at hrequests
    by_cases hother : other = id
    · subst hother
      have husages : usagesOf other
          [(now, .recordEvent level eventType audience message detail)] = [usage] := by
        simp [usagesOf, hevent]
      rw [hbefore, bind_some] at hrequests
      rw [husages, withUsages, foldl_cons, foldl_nil, usageAdded]
      split_ifs at hrequests with htokens
      · rw [if_pos htokens]
        cases hfallback : upstreamUsageFallback request usage with
        | none =>
          rw [hfallback, map_none] at hrequests
          rw [hrequests, hbefore, some_inj] at hafter
          rw [← hafter]
          exact ⟨rfl, rfl⟩
        | some response =>
          rw [hfallback, map_some] at hrequests
          rw [hrequests, HashMap.lookup_modify_self, hbefore, map_some,
            some_inj] at hafter
          rw [← hafter]
          exact ⟨rfl, rfl⟩
      · rw [hrequests, hbefore, some_inj] at hafter
        rw [if_neg htokens, ← hafter]
        exact ⟨rfl, rfl⟩
    · have husages : usagesOf id
          [(now, .recordEvent level eventType audience message detail)] = [] := by
        simp [usagesOf, hevent, hother]
      have hsame : (recordEvent crates inner now level eventType audience message
          detail).requests.lookup id = inner.requests.lookup id := by
        rw [hrequests]
        split
        · rfl
        · rename_i changed response hchanged
          have hid : changed = other := by
            split_ifs at hchanged
            obtain ⟨stored, -, hmap⟩ := bind_eq_some_iff.mp hchanged
            obtain ⟨value, -, heq⟩ := map_eq_some_iff.mp hmap
            exact (Prod.mk.inj heq).1.symm
          exact HashMap.lookup_modify_ne _ _ (fun heq => hother (hid ▸ heq.symm))
      rw [hsame, hbefore, some_inj] at hafter
      rw [husages, ← hafter]
      exact ⟨rfl, rfl⟩

end

/-- Only an event changes the response of a request that is not finished. -/
theorem response_perform (h : WellFormed crates inner) (op : DateTime × Operation)
    (hopen : id ∉ finishedIds [op]) (hbefore : inner.requests.lookup id = some request)
    (hafter : (perform crates redactSecretText inner op.1 op.2).requests.lookup id = some later) :
    later.model = request.model ∧
      later.response = (withUsages request (usagesOf id [op])).response := by
  obtain ⟨now, op⟩ := op
  by_cases hop : ∃ level eventType audience message detail,
      op = .recordEvent level eventType audience message detail
  · obtain ⟨level, eventType, audience, message, detail, rfl⟩ := hop
    exact response_recordEvent now level eventType audience message detail hbefore hafter
  · have hnone : usagesOf id [(now, op)] = [] := by
      cases op with
      | recordEvent level eventType audience message detail =>
        exact absurd ⟨level, eventType, audience, message, detail, rfl⟩ hop
      | _ => rfl
    rw [hnone]
    cases change_perform h now op hbefore hafter with
    | finished status response diagnostic hfinish =>
      refine absurd ?_ hopen
      rw [show op = _ from hfinish]
      exact mem_singleton_self id
    | usage response hevent =>
      cases op with
      | recordEvent level eventType audience message detail =>
        exact absurd ⟨level, eventType, audience, message, detail, rfl⟩ hop
      | _ => cases hevent
    | _ => exact ⟨rfl, rfl⟩

section
variable {other : StoredRequest} (hmodel : request.model = other.model)
  (hresponse : request.response = other.response)
include hmodel hresponse

theorem usageAdded_congr (usage : Value) :
    usageAdded request usage = usageAdded other usage := by
  rw [usageAdded, usageAdded, upstreamUsageFallback_congr hmodel hresponse, hresponse]

theorem withUsages_congr (usages : List Value) :
    (withUsages request usages).response = (withUsages other usages).response := by
  induction usages generalizing request other with
  | nil => exact hresponse
  | cons usage usages ih =>
    exact ih hmodel (usageAdded_congr hmodel hresponse usage)

end

theorem withUsages_model (request : StoredRequest) (usages : List Value) :
    (withUsages request usages).model = request.model := by
  induction usages generalizing request with
  | nil => rfl
  | cons usage usages ih => exact ih { request with response := usageAdded request usage }

/-- The response of a request that is not finished is what the events of the run make of it. -/
theorem response_run {operations : List (DateTime × Operation)} (h : WellFormed crates inner)
    (hnew : id ∉ checkpointedIds operations) (hopen : id ∉ finishedIds operations)
    (hbefore : inner.requests.lookup id = some request)
    (hafter : (run crates redactSecretText inner operations).requests.lookup id = some later) :
    later.response = (withUsages request (usagesOf id operations)).response := by
  induction operations generalizing inner request with
  | nil =>
    rw [run, foldl_nil, hbefore, some_inj] at hafter
    rw [hafter]
    rfl
  | cons op operations ih =>
    have hunfinished : id ∉ finishedIds [op] ∧ id ∉ finishedIds operations := by
      rwa [← singleton_append, finishedIds, filterMap_append, mem_append,
        not_or] at hopen
    have hwell := @WellFormed.perform crates redactSecretText inner h op.1 op.2
    obtain ⟨hrest, middle, hmiddle⟩ := stored_next h hnew hafter
    obtain ⟨hmodel, hresponse⟩ := response_perform h op hunfinished.1 hbefore hmiddle
    have husages : usagesOf id (op :: operations) = usagesOf id [op] ++ usagesOf id operations := by
      rw [← singleton_append, usagesOf, filterMap_append]
      rfl
    rw [ih hwell hrest hunfinished.2 hmiddle hafter, husages]
    have hfold : withUsages request (usagesOf id [op] ++ usagesOf id operations) =
        withUsages (withUsages request (usagesOf id [op])) (usagesOf id operations) :=
      foldl_append
    rw [hfold]
    exact withUsages_congr (hmodel.trans (withUsages_model _ _).symm) hresponse _

/-- A response that brought its own usage. -/
structure RealUsage (response : Value) : Prop where
  usage : (usageValue response).isSome
  notFallback : (response.get fallbackFlag).bind Value.asBool ≠ some true

theorem RealUsage.frozen (h : RealUsage request.response) (usages : List Value) :
    (withUsages request usages).response = request.response := by
  induction usages generalizing request with
  | nil => rfl
  | cons usage usages ih =>
    have hsame : usageAdded request usage = request.response := by
      have hfallback : upstreamUsageFallback request usage = none := by
        exact if_pos ⟨h.usage, h.notFallback⟩
      rw [usageAdded, hfallback, getD_none, ite_self]
    have hnext : withUsages request (usage :: usages) =
        withUsages { request with response := usageAdded request usage } usages := rfl
    rw [hnext, ih (by rw [hsame]; exact h), hsame]

/-- The fallback of a request is the sum of its usage events in a run, in whatever order these
come; and a real usage that is stored afterwards is not changed by further events. -/
structure UsageAccumulates (crates : StoreCrates) (redactSecretText : Text → Text)
    (inner : StoreInner) (id : Text) (operations : List (DateTime × Operation)) : Prop where
  sums : ∀ later, (run crates redactSecretText inner operations).requests.lookup id = some later →
    FallbackSums (usagesOf id operations) later.response
  order : ∀ others later otherLater, id ∉ checkpointedIds others → id ∉ finishedIds others →
    (usagesOf id others).Perm (usagesOf id operations) →
    (run crates redactSecretText inner operations).requests.lookup id = some later →
    (run crates redactSecretText inner others).requests.lookup id = some otherLater →
    otherLater.response = later.response
  frozen : ∀ ending events stored last,
    (run crates redactSecretText inner (operations ++ ending)).requests.lookup id = some stored →
    RealUsage stored.response → id ∉ checkpointedIds events → id ∉ finishedIds events →
    (run crates redactSecretText inner (operations ++ ending ++ events)).requests.lookup id =
      some last →
    last.response = stored.response

/-- In any run in which a request without a response stays unfinished, its usage accumulates
exactly when the sums fit and a single usage has the total of its counts. -/
theorem usage_accumulates_iff {operations : List (DateTime × Operation)}
    (hreachable : Reachable crates redactSecretText inner)
    (hbefore : inner.requests.lookup id = some request) (hnone : request.response = .null)
    (hnew : id ∉ checkpointedIds operations) (hopen : id ∉ finishedIds operations)
    (hstored : id ∈ (run crates redactSecretText inner operations).requests) :
    UsageAccumulates crates redactSecretText inner id operations ↔
      SumsFit (usagesOf id operations) := by
  obtain ⟨earlier, rfl⟩ := hreachable
  have hwell : WellFormed crates (run crates redactSecretText StoreInner.default earlier) :=
    WellFormed.default.run earlier
  have hresponse : ∀ others later, id ∉ checkpointedIds others → id ∉ finishedIds others →
      (run crates redactSecretText (run crates redactSecretText StoreInner.default earlier)
        others).requests.lookup id = some later →
      later.response = fallbackOf request ((usagesOf id others).filter usageHasTokens) := by
    intro others later hnew' hopen' hafter
    rw [response_run hwell hnew' hopen' hbefore hafter, withUsages_response hnone]
  constructor
  · intro h
    obtain ⟨later, hlater⟩ := isSome_iff_exists.mp (AList.lookup_isSome.mpr hstored)
    have hsums := h.sums later hlater
    rw [hresponse operations later hnew hopen hlater] at hsums
    exact (fallbackSums_iff request _).mp hsums
  · intro h
    refine ⟨fun later hlater => ?_, ?_, ?_⟩
    · rw [hresponse operations later hnew hopen hlater]
      exact (fallbackSums_iff request _).mpr h
    · intro others later otherLater hnew' hopen' hperm hlater hother
      rw [hresponse operations later hnew hopen hlater, hresponse others otherLater hnew' hopen'
        hother]
      exact fallbackOf_perm request (hperm.filter _)
    · intro ending events stored last hmiddle hreal hnew' hopen' hlast
      have hend : WellFormed crates (run crates redactSecretText
          (run crates redactSecretText StoreInner.default earlier) (operations ++ ending)) :=
        hwell.run _
      have hsplit : run crates redactSecretText (run crates redactSecretText StoreInner.default
          earlier) (operations ++ ending ++ events) =
          run crates redactSecretText (run crates redactSecretText (run crates redactSecretText
            StoreInner.default earlier) (operations ++ ending)) events := foldl_append
      rw [hsplit] at hlast
      rw [response_run hend hnew' hopen' hmiddle hlast, hreal.frozen]

end Crates

/-- An event of the request `resp_a` with these counts. -/
def usageEventOf (usage : List (Text × Value)) : DateTime × Operation :=
  (0, .recordEvent "info" "upstream_call_usage_breakdown" "diagnostic" "Upstream usage."
    (some (.object [("id", .string "resp_a"), ("usage", .object usage)])))

def twoCalls : List (DateTime × Operation) :=
  [usageEventOf [("cached_input_tokens", natValue 4), ("input_tokens", natValue 10),
      ("output_tokens", natValue 5), ("total_tokens", natValue 20)],
    usageEventOf [("input_tokens", natValue 7)]]

theorem twoCalls_accumulate : UsageAccumulates epochCrates id checkpointed "resp_a" twoCalls := by
  have hstart : (checkpointed.requests.lookup ("resp_a" : Text)).isSome = true := by
    decide +kernel
  obtain ⟨request, hrequest⟩ := isSome_iff_exists.mp hstart
  have hnone : request.response = .null := by
    have hresponse : (checkpointed.requests.lookup ("resp_a" : Text)).all
        (fun request => request.response.ctorIdx = 0) = true := by decide +kernel
    rw [hrequest, all_some] at hresponse
    cases hvalue : request.response with
    | null => rfl
    | _ => rw [hvalue] at hresponse; cases hresponse
  refine (usage_accumulates_iff checkpointed_reachable hrequest hnone (by decide +kernel)
    (by decide +kernel) (by decide +kernel)).mpr ⟨by decide +kernel, fun usage hsingle => ?_⟩
  have hlength : ((usagesOf "resp_a" twoCalls).filter usageHasTokens).length = 2 := by
    decide +kernel
  rw [hsingle] at hlength
  cases hlength

/-- One call whose provider counts five tokens more in its total. -/
def oneCall : List (DateTime × Operation) :=
  [usageEventOf [("cached_input_tokens", natValue 0), ("input_tokens", natValue 10),
    ("output_tokens", natValue 5), ("total_tokens", natValue 20)]]

theorem oneCall_total : ¬ UsageAccumulates epochCrates id checkpointed "resp_a" oneCall := by
  intro h
  have hend : ((run epochCrates id checkpointed oneCall).requests.lookup
      ("resp_a" : Text)).map (fun request => (storedCounts request.response).total) = some 20 := by
    decide +kernel
  obtain ⟨later, hlater, htotal⟩ := map_eq_some_iff.mp hend
  have hsums := (h.sums later hlater).total
  rw [htotal] at hsums
  have hfifteen : cachedSum (usagesOf "resp_a" oneCall) + cacheMissSum (usagesOf "resp_a" oneCall) +
      outputSum (usagesOf "resp_a" oneCall) = 15 := by decide +kernel
  omega

end CodeSeeX.Store
