import CodeSeeX.Core.Pricing
import CodeSeeX.General.HashMap
import CodeSeeX.Store.Request

/-!
# The store's state

The runtime state behind the store's lock, and the records that its usage and
event views return.
-/
namespace CodeSeeX.Store

open Pricing

def maxRuntimeRequests : ℕ := 2048
def maxRuntimeTurns : ℕ := 500
def maxRuntimeEvents : ℕ := 2048

structure EventRecord where
  id : ℤ
  level : Text
  eventType : Text
  audience : Option Text
  message : Text
  detail : Option Value
  ts : Text

structure UsageSessionRow where
  id : Text
  kind : Text
  label : Text
  hint : Text
  model : Text
  requestedModel : Text
  reasoningEffort : Text
  lifecycle : Text
  status : Text
  billable : Bool
  completedAt : Text
  cachedInputTokens : ℕ
  cacheMissInputTokens : ℕ
  outputTokens : ℕ
  totalTokens : ℕ
  requestMs : ℕ
deriving DecidableEq

structure UsageSegment where
  id : Text
  kind : Text
  label : Text
  hint : Text
  model : Text
  requestedModel : Text
  reasoningEffort : Text
  lifecycle : Text
  status : Text
  toolName : Option Text
  iteration : Option ℕ
  summary : Option Text
  completedAt : Option Text
  cachedInputTokens : ℕ
  cacheMissInputTokens : ℕ
  outputTokens : ℕ
  totalTokens : ℕ
  requestMs : ℕ
  rows : List UsageSessionRow
deriving DecidableEq

structure UsageTechnicalDetail where
  label : Text
  value : Text
deriving DecidableEq

structure UsageSession where
  id : Text
  title : Text
  titleSource : Text
  completedAt : Text
  conversationTurn : Bool
  status : Text
  cachedInputTokens : ℕ
  cacheMissInputTokens : ℕ
  outputTokens : ℕ
  totalTokens : ℕ
  requestMs : ℕ
  segments : List UsageSegment
  rows : List UsageSessionRow
  technicalDetails : List UsageTechnicalDetail
deriving DecidableEq

structure UsageBillingBucket where
  model : Text
  requestedModel : Text
  billingPeriod : Text
  billingMultiplier : ℚ
  pricingRevision : Text
  rates : Option ModelRates
  rateSource : Text
  cachedInputTokens : ℕ
  cacheMissInputTokens : ℕ
  outputTokens : ℕ
  totalTokens : ℕ
deriving DecidableEq

structure UsageSessionSummary where
  id : Text
  title : Text
  titleSource : Text
  completedAt : Text
  conversationTurn : Bool
  status : Text
  cachedInputTokens : ℕ
  cacheMissInputTokens : ℕ
  outputTokens : ℕ
  totalTokens : ℕ
  requestMs : ℕ
  billingBuckets : List UsageBillingBucket
  rowCount : ℕ
  segmentCount : ℕ
  sessionRevision : Text
deriving DecidableEq

structure UsagePage where
  usageRevision : ℕ
  eventRevision : ℕ
  unchanged : Bool
  activeRequests : ℕ
  requestCount : ℕ
  billableRequestCount : ℕ
  failedRequestCount : ℕ
  lastRequestAt : Option Text
  lastActivityAt : Option Text
  totalCachedInputTokens : ℕ
  totalCacheMissInputTokens : ℕ
  totalOutputTokens : ℕ
  averageMs : ℕ
  billingBuckets : List UsageBillingBucket
  usageSessions : List UsageSessionSummary
  hasMore : Bool
  nextCursor : Option Text
deriving DecidableEq

structure RuntimeSummary where
  usageRevision : ℕ
  eventRevision : ℕ
  activeRequests : ℕ
  requestCount : ℕ
  billableRequestCount : ℕ
  failedRequestCount : ℕ
  rpm : ℕ
  tpm : ℕ
  lastRequestAt : Option Text
  lastActivityAt : Option Text
  lastTurn : Option RequestTurn
  lastBillableRequest : Option RequestTurn
  turnHistory : List RequestTurn
  billableHistory : List RequestTurn
  usageSessions : List UsageSession
  totalCachedInputTokens : ℕ
  totalCacheMissInputTokens : ℕ
  totalOutputTokens : ℕ
  averageMs : ℕ
deriving DecidableEq

structure UsageRuntimeCache where
  revision : ℕ
  summary : RuntimeSummary

structure StoreInner where
  pricing : PricingTable
  requests : HashMap Text StoredRequest
  requestOrder : List Text
  events : List EventRecord
  nextEventId : ℤ
  usageRevision : ℕ
  eventRevision : ℕ
  usageCache : Option UsageRuntimeCache

def StoreInner.default : StoreInner where
  pricing := PricingTable.default
  requests := ∅
  requestOrder := []
  events := []
  nextEventId := 0
  usageRevision := 0
  eventRevision := 0
  usageCache := none

/-- What is left of a list when its front is drained down to `n` entries. -/
def newest {α : Type} (n : ℕ) (entries : List α) : List α := (entries.reverse.take n).reverse

section
variable {α : Type} (n : ℕ) (entries : List α)

theorem newest_sublist :
    (newest n entries).Sublist entries := by
  have h := List.reverse_sublist.mpr (List.take_sublist n entries.reverse)
  rwa [List.reverse_reverse] at h

theorem newest_length :
    (newest n entries).length = min n entries.length := by
  simp [newest]

theorem newest_eq_drop :
    newest n entries = entries.drop (entries.length - n) := by
  rw [newest, List.take_reverse, List.reverse_reverse]

end

/-- `request_order.iter().filter_map(|id| requests.get(id))` -/
def StoreInner.orderedRequests (inner : StoreInner) : List StoredRequest :=
  inner.requestOrder.filterMap fun id => inner.requests.lookup id

def requestHasGuardStoppedById (inner : StoreInner) (id : Text) : Bool :=
  ((inner.requests.lookup id).map requestHasGuardStopped).getD false

/-- `DateTime::<Utc>::MIN_UTC`, the first instant of the year -262143. -/
def minUtc : DateTime := -8334601228800 * 1000000000

def rowSortTs (inner : StoreInner) (requestId : Text) : DateTime :=
  ((inner.requests.lookup requestId).map StoredRequest.createdAt).getD minUtc

end CodeSeeX.Store
