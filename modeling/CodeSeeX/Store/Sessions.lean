import CodeSeeX.General.PointerWalk
import CodeSeeX.Store.Segments

/-!
# Usage sessions

How the store groups its billable requests into sessions: one session for each
finished turn with the rounds that belong to it, one for each user turn that was
handed back and never finished, one for each billable request that is left, and
the requests still in progress.
-/
namespace CodeSeeX.Store

/-! ## Chains and anchors -/

/-- Oldest first. -/
def usageChainForFinalTurn (inner : StoreInner) (finalId : Text) : List Text :=
  (PointerWalk.walk inner.requests StoredRequest.previousResponseId [] (some finalId)).reverse

structure UsageFinalAnchor where
  id : Text
  createdAt : DateTime
  summaryKey : Option Text
  promptCacheKey : Option Text

section Crates
variable (crates : StoreCrates)

def usageFinalAnchor (request : StoredRequest) (id : Text) : UsageFinalAnchor :=
  ⟨id, request.createdAt, usageSummaryKey request, usagePromptCacheKey crates request⟩

variable (inner : StoreInner)

/-- The finished turns a handed-back round trip may be anchored to. -/
def usageFinalAnchors (turnHistory : List RequestTurn) : List UsageFinalAnchor :=
  (turnHistory.filterMap fun turn =>
      (inner.requests.lookup turn.id).map fun request => usageFinalAnchor crates request turn.id)
    |>.insertionSort fun left right =>
      left.createdAt < right.createdAt ∨ (left.createdAt = right.createdAt ∧ left.id ≤ right.id)

def minutes (n : ℤ) : ℤ := n * 60 * 1000000000

/-- The loop over the finished turns, with the weaker match found so far. -/
def anchorLoop (summaryKey promptCacheKey : Option Text) (createdAt : DateTime)
    (fallback : Option Text) : List UsageFinalAnchor → Option Text
  | [] => fallback
  | finalTurn :: finals =>
      if finalTurn.createdAt < createdAt then
        anchorLoop summaryKey promptCacheKey createdAt fallback finals
      else if summaryKey.isSome ∧ summaryKey = finalTurn.summaryKey then some finalTurn.id
      else if finalTurn.createdAt - createdAt > minutes 20 then fallback
      else if summaryKey.isSome ∨ fallback.isSome then
        anchorLoop summaryKey promptCacheKey createdAt fallback finals
      else if (promptCacheKey.isSome ∧ promptCacheKey = finalTurn.promptCacheKey) ∨
          finalTurn.createdAt - createdAt ≤ minutes 3 then
        anchorLoop summaryKey promptCacheKey createdAt (some finalTurn.id) finals
      else anchorLoop summaryKey promptCacheKey createdAt fallback finals

/-- The finished turn a handed-back round trip belongs to. -/
def usageFinalAnchorForHandoff (handoff : StoredRequest) (finals : List UsageFinalAnchor) :
    Option Text :=
  anchorLoop (usageSummaryKey handoff) (usagePromptCacheKey crates handoff) handoff.createdAt
    none finals

/-- `map.entry(key).or_default().push(id)` -/
def pushEntry (map : HashMap Text (List Text)) (key id : Text) : HashMap Text (List Text) :=
  map.insert key ((map.lookup key).getD [] ++ [id])

def addAnchored (finals : List UsageFinalAnchor) (matches_ : StoredRequest → Bool)
    (output : HashMap Text (List Text)) (request : StoredRequest) : HashMap Text (List Text) :=
  if matches_ request then
    match usageFinalAnchorForHandoff crates request finals with
    | none => output
    | some anchorId => pushEntry output anchorId request.id
  else output

/-- Groups the requests `matches_` selects by the finished turn they belong to. -/
def usageRequestsByFinalTurn (finals : List UsageFinalAnchor)
    (matches_ : StoredRequest → Bool) : HashMap Text (List Text) :=
  inner.orderedRequests.foldl (addAnchored crates finals matches_) ∅

/-! ## One session -/

def usageSessionTitleKey (turn : RequestTurn) : Text :=
  if turn.conversationTurn then "conversation"
  else if turn.lifecycle = "client_tool_handoff" then "intermediate_reply"
  else if turn.lifecycle = "service_ephemeral" then "service_request"
  else if turn.lifecycle = "failed_billable" then "failed_billable"
  else "intermediate_reply"

/-- The title of a session and where it comes from. -/
def usageSessionTitle (anchor : RequestTurn) (request : Option StoredRequest) : Text × Text :=
  if !anchor.conversationTurn then (usageSessionTitleKey anchor, "semantic")
  else match (request.bind latestUserSummary).filter fun summary => !Text.isBlank summary with
    | some summary => (summary, "user_summary")
    | none => (usageSessionTitleKey anchor, "semantic")

def usageSessionTechnicalDetails (anchor : RequestTurn) (rows : List UsageSessionRow) :
    List UsageTechnicalDetail :=
  [⟨"session id", anchor.id⟩, ⟨"lifecycle", anchor.lifecycle⟩,
    ⟨"billable rows", Text.ofNat rows.length⟩] ++
  (rows.head?.map fun row => ⟨"first request", row.id⟩).toList ++
  (rows.getLast?.map fun row => ⟨"last request", row.id⟩).toList

/-- A session failed only when its own last row failed. -/
def usageSessionStatus (rows : List UsageSessionRow) : Text :=
  if rows.getLast?.any fun row => row.status = ("failed" : Text) then "failed" else "completed"

def usageSessionFromRows (anchor : RequestTurn)
    (anchorRequest : Option StoredRequest) (rows : List UsageSessionRow)
    (conversationTurn : Bool) : UsageSession :=
  let title := usageSessionTitle anchor anchorRequest
  let segments := usageSessionSegments inner rows
  let visionTokens := usageVisionTokenTotals segments
  { id := anchor.id
    title := title.1
    titleSource := title.2
    completedAt := anchor.completedAt
    conversationTurn := conversationTurn
    status := usageSessionStatus rows
    cachedInputTokens :=
      saturatingAdd (wrappingSum (rows.map (·.cachedInputTokens))) visionTokens.1
    cacheMissInputTokens :=
      saturatingAdd (wrappingSum (rows.map (·.cacheMissInputTokens))) visionTokens.2.1
    outputTokens := saturatingAdd (wrappingSum (rows.map (·.outputTokens))) visionTokens.2.2.1
    totalTokens := saturatingAdd (wrappingSum (rows.map (·.totalTokens))) visionTokens.2.2.2
    requestMs := wrappingSum (rows.map (·.requestMs))
    segments := segments
    rows := rows
    technicalDetails := usageSessionTechnicalDetails anchor rows }

/-- The anchor row of a session without a finished turn, read as a history row. -/
def titleTurn (anchorRow : UsageSessionRow) : RequestTurn where
  id := anchorRow.id
  model := anchorRow.model
  requestedModel := anchorRow.requestedModel
  reasoningEffort := anchorRow.reasoningEffort
  lifecycle := anchorRow.lifecycle
  failed := anchorRow.status = "failed"
  conversationTurn := true
  billable := anchorRow.billable
  completedAt := anchorRow.completedAt
  cachedInputTokens := anchorRow.cachedInputTokens
  cacheMissInputTokens := anchorRow.cacheMissInputTokens
  outputTokens := anchorRow.outputTokens
  totalTokens := anchorRow.totalTokens
  requestMs := anchorRow.requestMs

def usageNonFinalSessionFromRows (anchorRow : UsageSessionRow)
    (rows : List UsageSessionRow) : UsageSession :=
  { usageSessionFromRows inner (titleTurn anchorRow) (inner.requests.lookup anchorRow.id) rows
      false with
    completedAt := (rows.getLast?.map (·.completedAt)).getD anchorRow.completedAt
    technicalDetails := usageSessionTechnicalDetails (titleTurn anchorRow) [] }

/-! ## The passes over the billable requests -/

/-- Rows in the order of their requests' creation, then of their ids. -/
def rowLe (left right : Text) : Prop :=
  rowSortTs inner left < rowSortTs inner right ∨
    (rowSortTs inner left = rowSortTs inner right ∧ left ≤ right)

instance : DecidableRel (rowLe inner) := fun left right =>
  inferInstanceAs (Decidable (rowSortTs inner left < rowSortTs inner right ∨
    (rowSortTs inner left = rowSortTs inner right ∧ left ≤ right)))

structure FinalPass where
  billableById : HashMap Text RequestTurn
  handoffIdsByFinalId : HashMap Text (List Text)
  guardStopIdsByFinalId : HashMap Text (List Text)
  sessions : List UsageSession

/-- The rows of the anchored ids that the rows so far do not have. -/
def takeAnchored (pool : HashMap Text RequestTurn) (rows : List UsageSessionRow)
    (ids : List Text) : List UsageSessionRow × HashMap Text RequestTurn :=
  let existing := rows.map (·.id)
  let taken := pool.removeEach (ids.filter fun id => id ∉ existing)
  (rows ++ taken.1.map (usageSessionRow · false), taken.2)

/-- One finished turn takes the rows of its chain, then the rounds anchored to it. -/
def finalTurnRows (pass : FinalPass) (chain : List Text) (finalTurn : RequestTurn) :
    List UsageSessionRow × HashMap Text RequestTurn :=
  let taken := pass.billableById.removeEach chain
  let rows := taken.1.map fun turn => usageSessionRow turn (turn.id = finalTurn.id)
  let handoffs := takeAnchored taken.2 rows
    ((pass.handoffIdsByFinalId.lookup finalTurn.id).getD [])
  takeAnchored handoffs.2 handoffs.1 ((pass.guardStopIdsByFinalId.lookup finalTurn.id).getD [])

def finalTurnStep (chains : HashMap Text (List Text)) (pass : FinalPass)
    (finalTurn : RequestTurn) : FinalPass :=
  let taken := finalTurnRows pass ((chains.lookup finalTurn.id).getD []) finalTurn
  -- a finished turn without a row of its own still gets a session
  let rows := if taken.1.isEmpty then [usageSessionRow finalTurn true] else taken.1
  let rows := rows.insertionSort fun left right => rowLe inner left.id right.id
  { billableById := taken.2
    handoffIdsByFinalId := pass.handoffIdsByFinalId.erase finalTurn.id
    guardStopIdsByFinalId := pass.guardStopIdsByFinalId.erase finalTurn.id
    sessions := pass.sessions ++
      [usageSessionFromRows inner finalTurn (inner.requests.lookup finalTurn.id) rows true] }

def addNonFinal (groups : HashMap Text (List Text)) (turn : RequestTurn) :
    HashMap Text (List Text) :=
  match inner.requests.lookup turn.id with
  | none => groups
  | some request =>
      if turn.lifecycle ≠ "client_tool_handoff" ∧ requestHasGuardStopped request = false then groups
      else pushEntry groups (usageNonFinalSessionKey crates request) turn.id

/-- Rounds handed back or stopped by the guard, grouped by their user turn. -/
def nonFinalGroups (pool : HashMap Text RequestTurn) : HashMap Text (List Text) :=
  pool.values.foldl (addNonFinal crates inner) ∅

/-- Earliest timestamp in one group. -/
def nonFinalGroupTs (ids : List Text) : DateTime :=
  (ids.map (rowSortTs inner)).min?.getD minUtc

def sortedNonFinalGroups (pool : HashMap Text RequestTurn) : List (Text × List Text) :=
  ((nonFinalGroups crates inner pool).entries.map fun e => (e.1, e.2)).insertionSort
    fun left right =>
      nonFinalGroupTs inner left.2 < nonFinalGroupTs inner right.2 ∨
        (nonFinalGroupTs inner left.2 = nonFinalGroupTs inner right.2 ∧ left.1 ≤ right.1)

def nonFinalGroupStep
    (acc : HashMap Text RequestTurn × List UsageSession) (group : Text × List Text) :
    HashMap Text RequestTurn × List UsageSession :=
  let taken := acc.1.removeEach (group.2.insertionSort (rowLe inner))
  let rows := taken.1.map (usageSessionRow · false)
  match rows with
  | [] => (taken.2, acc.2)
  | anchor :: _ => (taken.2, acc.2 ++ [usageNonFinalSessionFromRows inner anchor rows])

/-- A billable request that no session has taken. -/
def leftOverStep (finalTurnIds : List Text)
    (acc : HashMap Text RequestTurn × List UsageSession) (turn : RequestTurn) :
    HashMap Text RequestTurn × List UsageSession :=
  match acc.1.lookup turn.id with
  | none => acc
  | some left =>
      let pool := acc.1.erase turn.id
      if (left.lifecycle = "client_tool_handoff" ∨ requestHasGuardStoppedById inner left.id) ∧
          left.id ∉ finalTurnIds then (pool, acc.2)
      else
        (pool, acc.2 ++
          [usageSessionFromRows inner left (inner.requests.lookup left.id)
            [usageSessionRow left false] false])

/-! ## Requests in progress -/

/-- `texts.max()` -/
def maxText : List Text → Option Text
  | [] => none
  | text :: texts => some (texts.foldl (fun best text => if best ≤ text then text else best) text)

def latestRequestEventTs (requestId : Text) : Option Text :=
  maxText ((inner.events.filter fun event => eventDetailId event = some requestId).map (·.ts))

def requestHasServiceDiagnosticEvent (requestId : Text) : Bool :=
  inner.events.any fun event =>
    event.eventType = ("service_request_diagnostic" : Text) ∧ eventDetailId event = some requestId

def usageSessionFromActiveRequest (now : DateTime) (request : StoredRequest) : UsageSession :=
  let anchor := turnFromRequest crates request
  let completedAt := (latestRequestEventTs inner request.id).getD anchor.completedAt
  let row : UsageSessionRow :=
    { id := request.id
      kind := "in_progress_reply"
      label := "usage_in_progress_reply"
      hint := "usage_in_progress_reply_hint"
      model := anchor.model
      requestedModel := anchor.requestedModel
      reasoningEffort := anchor.reasoningEffort
      lifecycle := anchor.lifecycle
      status := "running"
      billable := false
      completedAt := completedAt
      cachedInputTokens := 0
      cacheMissInputTokens := 0
      outputTokens := 0
      totalTokens := 0
      requestMs := requestMs request.createdAt now }
  let segments := usageRequestEventSegments inner row
  let title :=
    match (latestUserSummary request).filter fun summary => !Text.isBlank summary with
    | some summary => (summary, ("user_summary" : Text))
    | none => usageSessionTitle anchor (some request)
  let title :=
    if title.1 = ("usage_record" : Text) ∨ title.1 = ("intermediate_reply" : Text) then
      (("in_progress_reply" : Text), ("semantic" : Text))
    else title
  { id := request.id
    title := title.1
    titleSource := title.2
    completedAt := completedAt
    conversationTurn := true
    status := "running"
    cachedInputTokens := wrappingSum (segments.map (·.cachedInputTokens))
    cacheMissInputTokens := wrappingSum (segments.map (·.cacheMissInputTokens))
    outputTokens := wrappingSum (segments.map (·.outputTokens))
    totalTokens := wrappingSum (segments.map (·.totalTokens))
    requestMs := requestMs request.createdAt now
    segments := segments
    rows := []
    technicalDetails := usageSessionTechnicalDetails anchor [] }

/-- The loop over the sessions, last one first, with the weaker match found so far. -/
def activeAnchorLoop (inner : StoreInner) (request : StoredRequest) (fallback : Option Text) :
    List UsageSession → Option Text
  | [] => fallback
  | session :: sessions =>
      match inner.requests.lookup session.id with
      | none => activeAnchorLoop inner request fallback sessions
      | some anchorRequest =>
          let anchorTs := anchorRequest.createdAt
          if anchorTs > request.createdAt then activeAnchorLoop inner request fallback sessions
          else if request.createdAt - anchorTs > minutes 20 then fallback
          else if ¬(session.status = "running" ∨ !session.conversationTurn) then
            activeAnchorLoop inner request fallback sessions
          else if (usageSummaryKey request).isSome ∧
              usageSummaryKey request = usageSummaryKey anchorRequest then some session.id
          else if session.status = "running" ∧
              (((usagePromptCacheKey crates request).isSome ∧
                usagePromptCacheKey crates request = usagePromptCacheKey crates anchorRequest) ∨
              (fallback.isNone ∧ request.createdAt - anchorTs ≤ minutes 3)) then
            activeAnchorLoop inner request (some session.id) sessions
          else activeAnchorLoop inner request fallback sessions

def usageActiveSessionAnchor (request : StoredRequest) (sessions : List UsageSession)
    (inner : StoreInner) : Option Text :=
  activeAnchorLoop crates inner request none sessions.reverse

def mergeActiveUsageSession (existing active : UsageSession) : UsageSession :=
  { existing with
    status := if existing.status = "failed" then "failed" else "running"
    completedAt := active.completedAt
    requestMs := saturatingAdd existing.requestMs active.requestMs
    cachedInputTokens := saturatingAdd existing.cachedInputTokens active.cachedInputTokens
    cacheMissInputTokens :=
      saturatingAdd existing.cacheMissInputTokens active.cacheMissInputTokens
    outputTokens := saturatingAdd existing.outputTokens active.outputTokens
    totalTokens := saturatingAdd existing.totalTokens active.totalTokens
    segments := existing.segments ++ active.segments
    technicalDetails := existing.technicalDetails ++ active.technicalDetails }

/-- `if let Some(x) = list.iter_mut().find(p) { *x = f(x) }` -/
def modifyFirst {α : Type} (p : α → Bool) (f : α → α) : List α → List α
  | [] => []
  | x :: xs => if p x then f x :: xs else x :: modifyFirst p f xs

/-- The sessions and their ids, extended by one request in progress. -/
def activeStep (now : DateTime) (acc : List UsageSession × List Text)
    (request : StoredRequest) : List UsageSession × List Text :=
  if request.id ∈ acc.2 ∨ requestHasServiceDiagnosticEvent inner request.id then acc
  else
    let session := usageSessionFromActiveRequest crates inner now request
    match usageActiveSessionAnchor crates request acc.1 inner with
    | some anchorId =>
        (modifyFirst (fun existing => existing.id = anchorId)
          (mergeActiveUsageSession · session) acc.1, acc.2)
    | none => (acc.1 ++ [session], session.id :: acc.2)

/-! ## All sessions -/

def turnPool (billableHistory : List RequestTurn) : HashMap Text RequestTurn :=
  HashMap.fill RequestTurn.id id ∅ billableHistory

def usageChains (turnHistory : List RequestTurn) : HashMap Text (List Text) :=
  HashMap.fill RequestTurn.id (fun turn => usageChainForFinalTurn inner turn.id) ∅ turnHistory

def handoffMatches (chains : HashMap Text (List Text)) (request : StoredRequest) : Bool :=
  requestLifecycle request = "client_tool_handoff" ∧ request.id ∉ chains.values.flatten

def initialPass (turnHistory billableHistory : List RequestTurn) : FinalPass :=
  let chains := usageChains inner turnHistory
  let finals := usageFinalAnchors crates inner turnHistory
  { billableById := turnPool billableHistory
    handoffIdsByFinalId := usageRequestsByFinalTurn crates inner finals (handoffMatches chains)
    guardStopIdsByFinalId := usageRequestsByFinalTurn crates inner finals requestHasGuardStopped
    sessions := [] }

def finalPass (turnHistory billableHistory : List RequestTurn) : FinalPass :=
  turnHistory.foldl (finalTurnStep inner (usageChains inner turnHistory))
    (initialPass crates inner turnHistory billableHistory)

def nonFinalPass (pass : FinalPass) : HashMap Text RequestTurn × List UsageSession :=
  (sortedNonFinalGroups crates inner pass.billableById).foldl (nonFinalGroupStep inner)
    (pass.billableById, pass.sessions)

/-- The sessions that account for the billable requests. -/
def settledSessions (turnHistory billableHistory : List RequestTurn) : List UsageSession :=
  (billableHistory.foldl (leftOverStep inner (turnHistory.map (·.id)))
    (nonFinalPass crates inner (finalPass crates inner turnHistory billableHistory))).2

def withActiveSessions (now : DateTime) (sessions : List UsageSession) : List UsageSession :=
  ((inner.orderedRequests.filter fun request => request.status = .inProgress).foldl
    (activeStep crates inner now) (sessions, sessions.map (·.id))).1

def usageSessionsFromInner (now : DateTime)
    (turnHistory billableHistory : List RequestTurn) : List UsageSession :=
  (withActiveSessions crates inner now (settledSessions crates inner turnHistory billableHistory))
    |>.insertionSort fun left right => left.completedAt ≤ right.completedAt

end Crates
end CodeSeeX.Store
