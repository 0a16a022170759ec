import CodeSeeX.Store.Sessions

/-!
# Billing buckets

Token counts grouped by model, requested model and billing period, once over the
whole store and once over the rows and segments of a single session.
-/
namespace CodeSeeX.Store

open Pricing

/-- What a bucket reads from a history row, a session row or a segment
(`UsageBillingSource`). -/
structure UsageBillingItem where
  model : Text
  requestedModel : Text
  completedAt : Text
  cachedInputTokens : ℕ
  cacheMissInputTokens : ℕ
  outputTokens : ℕ
  totalTokens : ℕ

def RequestTurn.billingItem (turn : RequestTurn) : UsageBillingItem :=
  ⟨turn.model, turn.requestedModel, turn.completedAt, turn.cachedInputTokens,
    turn.cacheMissInputTokens, turn.outputTokens, turn.totalTokens⟩

def UsageSessionRow.billingItem (row : UsageSessionRow) : UsageBillingItem :=
  ⟨row.model, row.requestedModel, row.completedAt, row.cachedInputTokens,
    row.cacheMissInputTokens, row.outputTokens, row.totalTokens⟩

def UsageSegment.billingItem (segment : UsageSegment) : UsageBillingItem :=
  ⟨segment.model, segment.requestedModel, segment.completedAt.getD [], segment.cachedInputTokens,
    segment.cacheMissInputTokens, segment.outputTokens, segment.totalTokens⟩

abbrev BucketKey := Text × Text × Text

def usageBillingPeriod (pricing : PricingTable) (completedAt : Text) : BillingPeriod :=
  pricing.periodFor completedAt

def UsageBillingItem.key (pricing : PricingTable) (item : UsageBillingItem) : BucketKey :=
  (item.model, item.requestedModel, (usageBillingPeriod pricing item.completedAt).name)

/-- The bucket that a first item opens, still without tokens. -/
def emptyBucket (pricing : PricingTable) (item : UsageBillingItem) : UsageBillingBucket :=
  let period := usageBillingPeriod pricing item.completedAt
  let rates := pricing.rateFor item.model none
  { model := item.model
    requestedModel := item.requestedModel
    billingPeriod := period.name
    billingMultiplier := period.multiplier
    pricingRevision := pricing.revision
    rates := rates.map ResolvedRate.rates
    rateSource := (rates.map fun rate => rate.source.label).getD "unpriced"
    cachedInputTokens := 0
    cacheMissInputTokens := 0
    outputTokens := 0
    totalTokens := 0 }

def UsageBillingBucket.add (bucket : UsageBillingBucket) (item : UsageBillingItem) :
    UsageBillingBucket :=
  { bucket with
    cachedInputTokens := saturatingAdd bucket.cachedInputTokens item.cachedInputTokens
    cacheMissInputTokens := saturatingAdd bucket.cacheMissInputTokens item.cacheMissInputTokens
    outputTokens := saturatingAdd bucket.outputTokens item.outputTokens
    totalTokens := saturatingAdd bucket.totalTokens item.totalTokens }

def addUsageBillingBucket (pricing : PricingTable) (buckets : HashMap BucketKey UsageBillingBucket)
    (item : UsageBillingItem) : HashMap BucketKey UsageBillingBucket :=
  let key := item.key pricing
  buckets.insert key (((buckets.lookup key).getD (emptyBucket pricing item)).add item)

/-- All items, added one after the other. -/
def collectBuckets (pricing : PricingTable) (items : List UsageBillingItem) :
    HashMap BucketKey UsageBillingBucket :=
  items.foldl (addUsageBillingBucket pricing) ∅

def UsageBillingBucket.le (left right : UsageBillingBucket) : Prop :=
  left.model < right.model ∨ (left.model = right.model ∧
    (left.requestedModel < right.requestedModel ∨ (left.requestedModel = right.requestedModel ∧
      left.billingPeriod ≤ right.billingPeriod)))

instance : DecidableRel UsageBillingBucket.le := fun left right =>
  inferInstanceAs (Decidable (left.model < right.model ∨ (left.model = right.model ∧
    (left.requestedModel < right.requestedModel ∨ (left.requestedModel = right.requestedModel ∧
      left.billingPeriod ≤ right.billingPeriod)))))

def sortedUsageBillingBuckets (buckets : HashMap BucketKey UsageBillingBucket) :
    List UsageBillingBucket :=
  buckets.values.insertionSort UsageBillingBucket.le

/-- The vision usage that the tool results of the store report. -/
def visionSegments (inner : StoreInner) : List UsageSegment :=
  (inner.events.filter fun event => event.eventType = ("tool_result" : Text)).filterMap
    usageVisionSegmentFromEvent

def completedBillableRequests (crates : StoreCrates) (inner : StoreInner) : List RequestTurn :=
  (inner.orderedRequests.filter requestIsCompletedBillableRequest).map (turnFromRequest crates)

/-- What the store as a whole is billed for. -/
def usageBillingItems (crates : StoreCrates) (inner : StoreInner) : List UsageBillingItem :=
  (completedBillableRequests crates inner).map (·.billingItem) ++
    ((visionSegments inner).filter visionSegmentIsDeepseekBillable).map (·.billingItem)

def usageBillingBuckets (crates : StoreCrates) (inner : StoreInner) : List UsageBillingBucket :=
  sortedUsageBillingBuckets (collectBuckets inner.pricing (usageBillingItems crates inner))

/-- What one session is billed for. -/
def UsageSession.billingItems (session : UsageSession) : List UsageBillingItem :=
  session.rows.map (·.billingItem) ++
    (session.segments.filter visionSegmentIsDeepseekBillable).map (·.billingItem)

def usageBillingBucketsFromSession (session : UsageSession) (pricing : PricingTable) :
    List UsageBillingBucket :=
  sortedUsageBillingBuckets (collectBuckets pricing session.billingItems)

end CodeSeeX.Store
