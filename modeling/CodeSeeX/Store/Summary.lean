import CodeSeeX.Store.Billing

/-!
# The usage summary and its pages

The summary that the dashboard shows, the cache it is served from, and the pages
of its session list, newest first.
-/
namespace CodeSeeX.Store

open Pricing

def throughputWindowSeconds : ℤ := 60

section Crates
variable (crates : StoreCrates)

def completedConversationTurns (inner : StoreInner) : List RequestTurn :=
  newest maxRuntimeTurns
    ((inner.orderedRequests.filter requestIsCompletedFinalTurn).map (turnFromRequest crates))

/-- Requests and tokens of the last minute. -/
def throughputRates (inner : StoreInner) (now : DateTime) : ℕ × ℕ :=
  let windowStart := now - throughputWindowSeconds * 1000000000
  inner.requests.values.foldl
    (fun rates request =>
      (if request.createdAt ≥ windowStart then saturatingAdd rates.1 1 else rates.1,
        if request.updatedAt ≥ windowStart then
          saturatingAdd rates.2 (turnFromRequest crates request).totalTokens
        else rates.2))
    (0, 0)

/-- Cached, cache-miss and output tokens of every vision tool result. -/
def usageVisionTotals (inner : StoreInner) : ℕ × ℕ × ℕ :=
  (visionSegments inner).foldl
    (fun totals segment =>
      (saturatingAdd totals.1 segment.cachedInputTokens,
        saturatingAdd totals.2.1 segment.cacheMissInputTokens,
        saturatingAdd totals.2.2 segment.outputTokens))
    (0, 0, 0)

def countRequests (inner : StoreInner) (p : StoredRequest → Bool) : ℕ :=
  inner.requests.values.countP p

def runtimeSummaryFromInner (inner : StoreInner) (now : DateTime)
    (turnHistory billableHistory : List RequestTurn) : RuntimeSummary :=
  let rates := throughputRates crates inner now
  let lastTurn := turnHistory.getLast?
  let lastBillableRequest := billableHistory.getLast?
  let lastRequestAt := (lastBillableRequest.or lastTurn).map (·.completedAt)
  let usageSessions := usageSessionsFromInner crates inner now turnHistory billableHistory
  let billableTotals := completedBillableRequests crates inner
  let visionTotals := usageVisionTotals inner
  { usageRevision := inner.usageRevision
    eventRevision := inner.eventRevision
    activeRequests := countRequests inner fun request => request.status = .inProgress
    requestCount := countRequests inner requestIsCompletedFinalTurn
    billableRequestCount := countRequests inner requestIsCompletedBillableRequest
    failedRequestCount := countRequests inner fun request =>
      request.status = .failed ∨ request.status = .interrupted
    rpm := rates.1
    tpm := rates.2
    lastRequestAt := lastRequestAt
    lastActivityAt :=
      (maxText (usageSessions.map (·.completedAt) ++ inner.events.map (·.ts))).or lastRequestAt
    lastTurn := lastTurn
    lastBillableRequest := lastBillableRequest
    turnHistory := turnHistory
    billableHistory := newest maxRuntimeTurns billableHistory
    usageSessions := usageSessions
    totalCachedInputTokens :=
      saturatingAdd (wrappingSum (billableTotals.map (·.cachedInputTokens))) visionTotals.1
    totalCacheMissInputTokens :=
      saturatingAdd (wrappingSum (billableTotals.map (·.cacheMissInputTokens))) visionTotals.2.1
    totalOutputTokens :=
      saturatingAdd (wrappingSum (billableTotals.map (·.outputTokens))) visionTotals.2.2
    averageMs :=
      if billableTotals.isEmpty then 0
      else wrappingSum (billableTotals.map (·.requestMs)) / billableTotals.length }

/-- The sessions of a state over its full history. -/
def stateSessions (inner : StoreInner) (now : DateTime) : List UsageSession :=
  usageSessionsFromInner crates inner now (completedConversationTurns crates inner)
    (completedBillableRequests crates inner)

/-- A summary computed from the state alone. -/
def freshUsageSummary (inner : StoreInner) (now : DateTime) : RuntimeSummary :=
  runtimeSummaryFromInner crates inner now (completedConversationTurns crates inner)
    (completedBillableRequests crates inner)

def cachedUsageSummary (inner : StoreInner) (now : DateTime) : RuntimeSummary × StoreInner :=
  match inner.usageCache.filter fun cache => cache.revision = inner.usageRevision with
  | some cache => (cache.summary, inner)
  | none =>
      let summary := freshUsageSummary crates inner now
      (summary, { inner with usageCache := some ⟨inner.usageRevision, summary⟩ })

theorem pricing_cachedUsageSummary (inner : StoreInner) (now : DateTime) :
    (cachedUsageSummary crates inner now).2.pricing = inner.pricing := by
  unfold cachedUsageSummary
  split <;> rfl

/-! ## Session pages -/

def usageSessionRevision (session : UsageSession) : Text :=
  stableHashHex crates <| Text.bytes <| Text.join "|"
    [session.id, session.status, Text.ofNat session.rows.length,
      Text.ofNat session.segments.length, Text.ofNat session.totalTokens,
      Text.ofNat session.requestMs, (session.rows.getLast?.map (·.id)).getD []]

def usageSessionSummary (session : UsageSession) (pricing : PricingTable) :
    UsageSessionSummary where
  id := session.id
  title := session.title
  titleSource := session.titleSource
  completedAt := session.completedAt
  conversationTurn := session.conversationTurn
  status := session.status
  cachedInputTokens := session.cachedInputTokens
  cacheMissInputTokens := session.cacheMissInputTokens
  outputTokens := session.outputTokens
  totalTokens := session.totalTokens
  requestMs := session.requestMs
  billingBuckets := usageBillingBucketsFromSession session pricing
  rowCount := session.rows.length
  segmentCount := session.segments.length
  sessionRevision := usageSessionRevision crates session

def sessionCursor (completedAt id : Text) : Text := completedAt ++ ['|'] ++ id

def usageSessionSummaryCursor (session : UsageSessionSummary) : Text :=
  sessionCursor session.completedAt session.id

def usageSessionCursor (session : UsageSession) : Text :=
  sessionCursor session.completedAt session.id

def usageSessionIsBeforeCursor (session : UsageSession) (cursor : Option Text) : Bool :=
  match (cursor.map Text.trim).filter (· ≠ []) with
  | none => true
  | some cursor => usageSessionCursor session < cursor

/-- `limit.clamp(1, 500)` -/
def clampLimit (limit : ℕ) : ℕ := max 1 (min limit 500)

def usagePageFromSummary (pricing : PricingTable) (summary : RuntimeSummary) (limit : ℕ)
    (cursor : Option Text) (billingBuckets : List UsageBillingBucket) : UsagePage :=
  let limit := clampLimit limit
  let sessions :=
    ((summary.usageSessions.reverse.filter (usageSessionIsBeforeCursor · cursor)).map
      (usageSessionSummary crates · pricing)).take (limit + 1)
  let hasMore := decide (sessions.length > limit)
  let sessions := if hasMore then sessions.take limit else sessions
  { usageRevision := summary.usageRevision
    eventRevision := summary.eventRevision
    unchanged := false
    activeRequests := summary.activeRequests
    requestCount := summary.requestCount
    billableRequestCount := summary.billableRequestCount
    failedRequestCount := summary.failedRequestCount
    lastRequestAt := summary.lastRequestAt
    lastActivityAt := summary.lastActivityAt
    totalCachedInputTokens := summary.totalCachedInputTokens
    totalCacheMissInputTokens := summary.totalCacheMissInputTokens
    totalOutputTokens := summary.totalOutputTokens
    averageMs := summary.averageMs
    billingBuckets := billingBuckets
    usageSessions := sessions
    hasMore := hasMore
    nextCursor := if hasMore then sessions.getLast?.map usageSessionSummaryCursor else none }

/-- The page of a poll that is up to date. -/
def unchangedPage (inner : StoreInner) : UsagePage where
  usageRevision := inner.usageRevision
  eventRevision := inner.eventRevision
  unchanged := true
  activeRequests := 0
  requestCount := 0
  billableRequestCount := 0
  failedRequestCount := 0
  lastRequestAt := none
  lastActivityAt := none
  totalCachedInputTokens := 0
  totalCacheMissInputTokens := 0
  totalOutputTokens := 0
  averageMs := 0
  billingBuckets := []
  usageSessions := []
  hasMore := false
  nextCursor := none

def usagePage (inner : StoreInner) (now : DateTime) (limit : ℕ) (cursor : Option Text)
    (sinceRevision : Option ℕ) : UsagePage × StoreInner :=
  if sinceRevision = some inner.usageRevision then (unchangedPage inner, inner)
  else
    let cached := cachedUsageSummary crates inner now
    (usagePageFromSummary crates cached.2.pricing cached.1 limit cursor
      (usageBillingBuckets crates cached.2), cached.2)

end Crates
end CodeSeeX.Store
