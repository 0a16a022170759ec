import CodeSeeX.Store.Memory
import CodeSeeX.Store.Summary

/-!
# Store operations

Every operation that can change the state behind the store's lock, each given
the time it reads from the clock. The diagnostics that the tool handoff guard
decides on, and the compacted detail of an event, are taken as they come.
-/
namespace CodeSeeX.Store

open Pricing

def maxTurnMessagesPerRequest : ℕ := 256
def maxToolFactsPerRequest : ℕ := 100
def maxLogStringChars : ℕ := 1024
def inProgressTtlSeconds : ℤ := 6 * 60 * 60

/-! ## Revisions -/

def bumpUsageRevision (inner : StoreInner) : StoreInner :=
  { inner with usageRevision := saturatingAdd inner.usageRevision 1, usageCache := none }

def bumpEventRevision (inner : StoreInner) : StoreInner :=
  { inner with eventRevision := saturatingAdd inner.eventRevision 1 }

def eventAffectsUsage (eventType : Text) : Bool :=
  eventType ∈ [("tool_call" : Text), "tool_result", "upstream_call_usage_breakdown",
    "upstream_usage_chunk_diagnostic", "client_tool_handoff_guard_diagnostic"] ∨
  Text.contains eventType "usage"

section Crates
variable (crates : StoreCrates) (redactSecretText : Text → Text)
  (inner : StoreInner) (now : DateTime)

def setPricingTable (pricing : PricingTable) : StoreInner :=
  if inner.pricing ≠ pricing then { inner with pricing := pricing, usageCache := none } else inner

/-! ## Requests -/

/-- `requests.get_mut(id)`, changed by `f`. -/
def updateRequest (id : Text) (f : StoredRequest → StoredRequest) : StoreInner :=
  { inner with requests := inner.requests.modify id f }

def isStale (request : StoredRequest) : Bool :=
  request.status = .inProgress ∧
    (now - request.createdAt).tdiv 1000000000 ≥ inProgressTtlSeconds

def staleDiagnostic : Value :=
  .object
    [("reason", .string "in_progress request exceeded runtime TTL"),
      ("ttl_seconds", natValue inProgressTtlSeconds.toNat)]

def interrupt (diagnostic : Value) (request : StoredRequest) : StoredRequest :=
  { request with status := .interrupted, diagnostic := some diagnostic, updatedAt := now }

/-- The requests that are in progress for too long are interrupted. -/
def markStaleInProgressRequests : StoreInner :=
  let marked :=
    { inner with
      requests := inner.requests.mapValues fun request =>
        if isStale now request then interrupt now staleDiagnostic request else request }
  if inner.requests.values.any (isStale now) then bumpUsageRevision marked else marked

/-- The loop that evicts the oldest requests, passing over those in progress. -/
def pruneLoop (requests : HashMap Text StoredRequest) (order : List Text) (scanned : ℕ) :
    HashMap Text StoredRequest × List Text :=
  if requests.entries.length ≤ maxRuntimeRequests then (requests, order)
  else match order with
    | [] => (requests, [])
    | id :: rest =>
        if (requests.lookup id).map StoredRequest.status = some .inProgress then
          if scanned + 1 ≥ (rest ++ [id]).length then (requests, rest ++ [id])
          else pruneLoop requests (rest ++ [id]) (scanned + 1)
        else pruneLoop (requests.erase id) rest 0
termination_by order.length * order.length + (order.length - scanned)
decreasing_by
  · have hlength : (rest ++ [id]).length = (id :: rest).length := by simp
    rw [hlength]
    omega
  · simp only [List.length_cons, Nat.add_mul, Nat.mul_add]
    omega

def pruneRuntimeRequests : StoreInner :=
  let marked := markStaleInProgressRequests inner now
  let pruned := pruneLoop marked.requests marked.requestOrder 0
  { marked with requests := pruned.1, requestOrder := pruned.2 }

def pushRequestOrder (order : List Text) (id : Text) : List Text := order.erase id ++ [id]

/-- A request that already exists is refused and nothing changes. -/
def checkpointRequest (id : Text)
    (previousResponseId model : Option Text) (input : Value) : StoreInner :=
  if id ∈ inner.requests then inner
  else
    let request : StoredRequest :=
      { id := id
        previousResponseId := previousResponseId
        status := .inProgress
        model := model
        input := requestInputForRuntime crates previousResponseId input
        response := .null
        turnMessages := []
        toolFacts := []
        diagnostic := none
        createdAt := now
        updatedAt := now }
    bumpUsageRevision <| pruneRuntimeRequests
      { inner with
        requests := inner.requests.insert id request
        requestOrder := pushRequestOrder inner.requestOrder id } now

def sanitizeLogString (value : Text) : Text :=
  if looksLikeInlineDataUrl value then redactedDataUrl crates value
  else truncateCharsWithHash crates (redactSecretText value) maxLogStringChars

def omittedFacts (omitted : ℕ) : Text :=
  ("[CodeSeeX runtime omitted " : Text) ++ Text.ofNat omitted ++ (" older tool fact(s)]" : Text)

def appendToolFact (facts : List Text) (fact : Text) : List Text :=
  let facts := facts ++ [sanitizeLogString crates redactSecretText fact]
  if facts.length > maxToolFactsPerRequest then
    let omitted := facts.length - maxToolFactsPerRequest
    omittedFacts omitted :: facts.drop omitted
  else facts

def appendRequestToolFact (id fact : Text) : StoreInner :=
  updateRequest inner id fun request =>
    { request with
      toolFacts := appendToolFact crates redactSecretText request.toolFacts fact
      updatedAt := now }

def replaceRequestTurnMessages (id : Text) (messages : List Value) : StoreInner :=
  updateRequest inner id fun request =>
    { request with
      turnMessages := newest maxTurnMessagesPerRequest (messages.map (memoryJsonValue crates))
      updatedAt := now }

def appendRequestTurnMessages (id : Text) (messages : List Value) : StoreInner :=
  if messages.isEmpty then inner
  else updateRequest inner id fun request =>
    { request with
      turnMessages := newest maxTurnMessagesPerRequest
        (request.turnMessages ++ messages.map (memoryJsonValue crates))
      updatedAt := now }

def mergeDiagnostic (diagnostic : Value) (request : StoredRequest) : StoredRequest :=
  { request with
    diagnostic := some (mergeRequestDiagnostic crates request.diagnostic diagnostic)
    updatedAt := now }

def finishedRequest (status : RequestStatus)
    (response diagnostic : Option Value) (request : StoredRequest) : StoredRequest :=
  { request with
    status := status
    response := (response.map (memoryJsonValue crates)).getD request.response
    diagnostic :=
      (diagnostic.map (mergeRequestDiagnostic crates request.diagnostic)).or request.diagnostic
    updatedAt := now }

def finishRequest (id : Text) (status : RequestStatus)
    (response diagnostic : Option Value) : StoreInner :=
  match inner.requests.lookup id with
  | none => inner
  | some request =>
      if request.status = .interrupted then inner
      else bumpUsageRevision
        (updateRequest inner id (finishedRequest crates now status response diagnostic))

def reasonDiagnostic (reason : Text) : Value := .object [("reason", .string reason)]

def interruptRequestIfInProgress (id reason : Text) : StoreInner :=
  match inner.requests.lookup id with
  | none => inner
  | some request =>
      if request.status ≠ .inProgress then inner
      else bumpUsageRevision (updateRequest inner id (interrupt now (reasonDiagnostic reason)))

def updateRequestDiagnostic (id : Text) (diagnostic : Value) : StoreInner :=
  match inner.requests.lookup id with
  | none => inner
  | some _ => bumpUsageRevision (updateRequest inner id (mergeDiagnostic crates now diagnostic))

/-- The guard settles tool outputs and merges what it found into the request. -/
def settleClientToolHandoffOutputs (requestId : Text) (diagnostics : List Value) : StoreInner :=
  diagnostics.foldl (fun inner => updateRequestDiagnostic crates inner now requestId) inner

/-- The guard records at least one call and merges what it found into the request. -/
def recordClientToolHandoffCalls (requestId : Text) (diagnostics : List Value) : StoreInner :=
  bumpUsageRevision (settleClientToolHandoffOutputs crates inner now requestId diagnostics)

def recoverInterruptedRequests (reason : Text) : StoreInner :=
  let recovered :=
    { inner with
      requests := inner.requests.mapValues fun request =>
        if request.status = .inProgress then interrupt now (reasonDiagnostic reason) request
        else request }
  if inner.requests.values.any (fun request => request.status = .inProgress) then
    bumpUsageRevision recovered
  else recovered

/-! ## Events -/

/-- The request that an upstream usage event changes, with its new response. -/
def upstreamUsageUpdate (event : EventRecord) : Option (Text × Value) :=
  if event.eventType ≠ ("upstream_call_usage_breakdown" : Text) then none
  else event.detail.bind fun detail =>
    (detail.getStr "id").bind fun requestId =>
      let usage := (detail.get "usage").getD .null
      if !usageHasTokens usage then none
      else (inner.requests.lookup requestId).bind fun request =>
        (upstreamUsageFallback request usage).map fun response => (requestId, response)

def applyUpstreamUsageEventToRequest (event : EventRecord) : StoreInner :=
  match upstreamUsageUpdate inner event with
  | none => inner
  | some (requestId, response) =>
      updateRequest inner requestId fun request =>
        { request with response := response, updatedAt := now }

def appendEvent (event : EventRecord) : StoreInner :=
  { inner with events := newest maxRuntimeEvents (inner.events ++ [event]) }

def pushRuntimeEvent (event : EventRecord) : StoreInner :=
  let applied := bumpEventRevision (applyUpstreamUsageEventToRequest inner now event)
  let revised :=
    if eventAffectsUsage event.eventType ∨ (upstreamUsageUpdate inner event).isSome then
      bumpUsageRevision applied
    else applied
  appendEvent revised event

/-- `record_event` gives the event the next number and the time of the clock. -/
def recordEvent (level eventType audience message : Text) (detail : Option Value) : StoreInner :=
  let id := min (inner.nextEventId + 1) (2 ^ 63 - 1)
  pushRuntimeEvent { inner with nextEventId := id } now
    { id := id
      level := level
      eventType := eventType
      audience := some audience
      message := message
      detail := detail
      ts := crates.toRfc3339 now }

/-! ## Runs -/

inductive Operation where
  | setPricingTable (pricing : PricingTable)
  | checkpointRequest (id : Text) (previousResponseId model : Option Text) (input : Value)
  | appendRequestToolFact (id fact : Text)
  | replaceRequestTurnMessages (id : Text) (messages : List Value)
  | appendRequestTurnMessages (id : Text) (messages : List Value)
  | finishRequest (id : Text) (status : RequestStatus) (response diagnostic : Option Value)
  | interruptRequestIfInProgress (id reason : Text)
  | updateRequestDiagnostic (id : Text) (diagnostic : Value)
  | settleClientToolHandoffOutputs (requestId : Text) (diagnostics : List Value)
  | recordClientToolHandoffCalls (requestId : Text) (diagnostics : List Value)
  | recoverInterruptedRequests (reason : Text)
  | recordEvent (level eventType audience message : Text) (detail : Option Value)
  | usagePage (limit : ℕ) (cursor : Option Text) (sinceRevision : Option ℕ)
  | usageSessionDetail (id : Text)

/-- One operation, at the time that the clock shows. -/
def perform (inner : StoreInner) (now : DateTime) : Operation → StoreInner
  | .setPricingTable pricing => setPricingTable inner pricing
  | .checkpointRequest id previousResponseId model input =>
      checkpointRequest crates inner now id previousResponseId model input
  | .appendRequestToolFact id fact => appendRequestToolFact crates redactSecretText inner now id fact
  | .replaceRequestTurnMessages id messages =>
      replaceRequestTurnMessages crates inner now id messages
  | .appendRequestTurnMessages id messages =>
      appendRequestTurnMessages crates inner now id messages
  | .finishRequest id status response diagnostic =>
      finishRequest crates inner now id status response diagnostic
  | .interruptRequestIfInProgress id reason => interruptRequestIfInProgress inner now id reason
  | .updateRequestDiagnostic id diagnostic => updateRequestDiagnostic crates inner now id diagnostic
  | .settleClientToolHandoffOutputs requestId diagnostics =>
      settleClientToolHandoffOutputs crates inner now requestId diagnostics
  | .recordClientToolHandoffCalls requestId diagnostics =>
      recordClientToolHandoffCalls crates inner now requestId diagnostics
  | .recoverInterruptedRequests reason => recoverInterruptedRequests inner now reason
  | .recordEvent level eventType audience message detail =>
      recordEvent crates inner now level eventType audience message detail
  | .usagePage limit cursor sinceRevision =>
      (usagePage crates inner now limit cursor sinceRevision).2
  | .usageSessionDetail _ => (cachedUsageSummary crates inner now).2

def run (inner : StoreInner) (operations : List (DateTime × Operation)) : StoreInner :=
  operations.foldl (fun inner op => perform crates redactSecretText inner op.1 op.2) inner

/-- The states that the store can be in. -/
def Reachable (inner : StoreInner) : Prop :=
  ∃ operations, run crates redactSecretText StoreInner.default operations = inner

end Crates
end CodeSeeX.Store
