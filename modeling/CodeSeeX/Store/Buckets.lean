import CodeSeeX.Store.Billing

/-!
# What billing buckets hold

Collecting items puts under each key the tokens of the items with that key, up to
the largest `u64`. The unit prices of a bucket follow from its key.
-/
namespace CodeSeeX.Store

open Pricing List

variable (bucket : UsageBillingBucket) (pricing : PricingTable) (values : List ℕ)
  {left right : List UsageBillingItem} (items : List UsageBillingItem)

/-! ## Token counts -/

inductive TokenField where
  | cachedInput
  | cacheMissInput
  | output
  | total
deriving DecidableEq

def UsageBillingItem.tokens (item : UsageBillingItem) : TokenField → ℕ
  | .cachedInput => item.cachedInputTokens
  | .cacheMissInput => item.cacheMissInputTokens
  | .output => item.outputTokens
  | .total => item.totalTokens

def UsageBillingBucket.tokens (bucket : UsageBillingBucket) : TokenField → ℕ
  | .cachedInput => bucket.cachedInputTokens
  | .cacheMissInput => bucket.cacheMissInputTokens
  | .output => bucket.outputTokens
  | .total => bucket.totalTokens

def UsageBillingBucket.key (bucket : UsageBillingBucket) : BucketKey :=
  (bucket.model, bucket.requestedModel, bucket.billingPeriod)

/-- A bucket with everything but its counts. -/
def UsageBillingBucket.withoutTokens (bucket : UsageBillingBucket) : UsageBillingBucket :=
  { bucket with
    cachedInputTokens := 0
    cacheMissInputTokens := 0
    outputTokens := 0
    totalTokens := 0 }

@[simp] theorem add_tokens (item : UsageBillingItem) (field : TokenField) :
    (bucket.add item).tokens field = saturatingAdd (bucket.tokens field) (item.tokens field) := by
  cases field <;> rfl

@[simp] theorem emptyBucket_tokens (item : UsageBillingItem) (field : TokenField) :
    (emptyBucket pricing item).tokens field = 0 := by
  cases field <;> rfl

@[simp] theorem add_withoutTokens (item : UsageBillingItem) :
    (bucket.add item).withoutTokens = bucket.withoutTokens := rfl

@[simp] theorem emptyBucket_withoutTokens (item : UsageBillingItem) :
    (emptyBucket pricing item).withoutTokens = emptyBucket pricing item := rfl

theorem key_withoutTokens :
    bucket.withoutTokens.key = bucket.key := rfl

@[simp] theorem emptyBucket_key (item : UsageBillingItem) :
    (emptyBucket pricing item).key = item.key pricing := rfl

/-- The key of an item decides the unit prices of the bucket that it opens. -/
theorem emptyBucket_eq_of_key {pricing : PricingTable} {left right : UsageBillingItem}
    (h : left.key pricing = right.key pricing) :
    emptyBucket pricing left = emptyBucket pricing right := by
  simp only [UsageBillingItem.key, Prod.mk.injEq] at h
  obtain ⟨hmodel, hrequested, hperiod⟩ := h
  have hmultiplier : (usageBillingPeriod pricing left.completedAt).multiplier =
      (usageBillingPeriod pricing right.completedAt).multiplier :=
    pricing.peakValley.multiplier_of_name hperiod
  simp only [emptyBucket, hmodel, hrequested, hperiod, hmultiplier]

/-! ## Saturating sums -/

/-- `values.fold(0, u64::saturating_add)` -/
def saturatingSum (values : List ℕ) : ℕ := values.foldl saturatingAdd 0

theorem foldl_saturatingAdd {start : ℕ} (h : start ≤ u64Max) :
    values.foldl saturatingAdd start = min (start + values.sum) u64Max := by
  induction values generalizing start with
  | nil => simp [h]
  | cons value values ih =>
    have hnext : saturatingAdd start value ≤ u64Max := Nat.min_le_right _ _
    rw [foldl_cons, ih hnext, saturatingAdd, sum_cons]
    omega

theorem saturatingSum_eq : saturatingSum values = min values.sum u64Max := by
  rw [saturatingSum, foldl_saturatingAdd values (Nat.zero_le _), Nat.zero_add]

/-- Saturating a part early does not change a saturating sum. -/
theorem min_sum_min (cap : ℕ) :
    min (values.map (min · cap)).sum cap = min values.sum cap := by
  induction values with
  | nil => rfl
  | cons value values ih =>
    rw [map_cons, sum_cons, sum_cons]
    omega

/-! ## Buckets of a list of items -/

/-- The tokens of the items with a key. -/
def keyTokens (pricing : PricingTable) (items : List UsageBillingItem) (key : BucketKey)
    (field : TokenField) : ℕ :=
  ((items.filter fun item => item.key pricing = key).map (·.tokens field)).sum

@[simp] theorem keyTokens_nil (key : BucketKey) (field : TokenField) :
    keyTokens pricing [] key field = 0 := rfl

@[simp] theorem keyTokens_append (left right : List UsageBillingItem) (key : BucketKey)
    (field : TokenField) :
    keyTokens pricing (left ++ right) key field =
      keyTokens pricing left key field + keyTokens pricing right key field := by
  simp [keyTokens]

theorem keyTokens_perm {pricing : PricingTable} (h : left.Perm right) (key : BucketKey)
    (field : TokenField) :
    keyTokens pricing left key field = keyTokens pricing right key field :=
  ((h.filter _).map _).sum_eq

theorem keyTokens_flatMap {α : Type} (l : List α) (items : α → List UsageBillingItem)
    (key : BucketKey) (field : TokenField) :
    keyTokens pricing (l.flatMap items) key field =
      (l.map fun x => keyTokens pricing (items x) key field).sum := by
  induction l with
  | nil => rfl
  | cons x l ih => simp [ih]

theorem collectBuckets_eq (items : List UsageBillingItem) :
    collectBuckets pricing items =
      HashMap.group (UsageBillingItem.key pricing) (emptyBucket pricing) UsageBillingBucket.add
        items := rfl

theorem foldl_add_withoutTokens (bucket : UsageBillingBucket) :
    (items.foldl UsageBillingBucket.add bucket).withoutTokens = bucket.withoutTokens := by
  induction items generalizing bucket with
  | nil => rfl
  | cons item items ih => rw [foldl_cons, ih, add_withoutTokens]

theorem foldl_add_tokens (bucket : UsageBillingBucket) (field : TokenField) :
    (items.foldl UsageBillingBucket.add bucket).tokens field =
      (items.map (·.tokens field)).foldl saturatingAdd (bucket.tokens field) := by
  induction items generalizing bucket with
  | nil => rfl
  | cons item items ih => rw [foldl_cons, ih, add_tokens, map_cons, foldl_cons]

section
variable {pricing : PricingTable} {items : List UsageBillingItem} {key : BucketKey}
  {bucket : UsageBillingBucket} (h : (collectBuckets pricing items).lookup key = some bucket)
include h

/-- Every bucket was opened by an item with its key. -/
theorem bucket_opened :
    ∃ item, item.key pricing = key ∧ bucket.withoutTokens = emptyBucket pricing item := by
  rw [collectBuckets_eq, HashMap.lookup_group, Option.map_eq_some_iff] at h
  obtain ⟨first, hfirst, rfl⟩ := h
  refine ⟨first, ?_, by rw [foldl_add_withoutTokens, emptyBucket_withoutTokens]⟩
  simpa using (mem_filter.mp (mem_of_mem_head? hfirst)).2

theorem bucket_key :
    bucket.key = key := by
  obtain ⟨item, hitem, hbucket⟩ := bucket_opened h
  rw [← key_withoutTokens, hbucket, emptyBucket_key, hitem]

end

/-- What a list of buckets holds under a key. -/
def bucketTokens (buckets : List UsageBillingBucket) (key : BucketKey) (field : TokenField) : ℕ :=
  saturatingSum ((buckets.filter fun bucket => bucket.key = key).map (·.tokens field))

/-- Collected buckets hold what the items with the key add up to. -/
theorem bucketTokens_collect (items : List UsageBillingItem) (key : BucketKey) (field : TokenField)
    :
    bucketTokens (sortedUsageBillingBuckets (collectBuckets pricing items)) key field =
      min (keyTokens pricing items key field) u64Max := by
  have hsorted := ((perm_insertionSort UsageBillingBucket.le
    (collectBuckets pricing items).values).filter fun bucket => bucket.key = key).map (·.tokens field)
  rw [bucketTokens, sortedUsageBillingBuckets, saturatingSum_eq, hsorted.sum_eq,
    HashMap.filter_values (fun _ _ => bucket_key) key, collectBuckets_eq, HashMap.lookup_group,
    keyTokens]
  cases hitems : items.filter fun item => item.key pricing = key with
  | nil => simp
  | cons first rest =>
    have htokens := foldl_add_tokens (first :: rest) (emptyBucket pricing first) field
    rw [emptyBucket_tokens, foldl_saturatingAdd _ (Nat.zero_le _), Nat.zero_add] at htokens
    simp only [head?_cons, Option.map_some, Option.toList_some, map_cons, map_nil,
      sum_singleton] at htokens ⊢
    omega

/-- Buckets with the same key carry the same unit prices, whatever they were collected from. -/
theorem withoutTokens_of_key {pricing : PricingTable} {bucket total : UsageBillingBucket}
    (hbucket : bucket ∈ sortedUsageBillingBuckets (collectBuckets pricing left))
    (htotal : total ∈ sortedUsageBillingBuckets (collectBuckets pricing right))
    (hkey : bucket.key = total.key) : bucket.withoutTokens = total.withoutTokens := by
  have hopened : ∀ {items : List UsageBillingItem} {b : UsageBillingBucket},
      b ∈ sortedUsageBillingBuckets (collectBuckets pricing items) →
      ∃ item, item.key pricing = b.key ∧ b.withoutTokens = emptyBucket pricing item := by
    intro items b hb
    obtain ⟨key, hlook⟩ := HashMap.mem_values.mp ((mem_insertionSort _).mp hb)
    rw [bucket_key hlook]
    exact bucket_opened hlook
  obtain ⟨item, hitem, hempty⟩ := hopened hbucket
  obtain ⟨other, hother, hempty'⟩ := hopened htotal
  rw [hempty, hempty']
  exact emptyBucket_eq_of_key (by rw [hitem, hother, hkey])

end CodeSeeX.Store
