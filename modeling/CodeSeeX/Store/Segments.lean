import CodeSeeX.Store.State

/-!
# Rows and segments of a usage session

A session's rows are the requests it accounts for. Its segments break a row up
by the events recorded for the request: model calls, tool calls, and tool
results, with the token usage that a vision tool reports.
-/
namespace CodeSeeX.Store

def maxUsageSegmentSummaryChars : ℕ := 180

def eventDetailId (event : EventRecord) : Option Text :=
  event.detail.bind fun detail => detail.getStr "id"

/-- Events in the order of their time, then of their number. -/
def EventRecord.le (left right : EventRecord) : Prop :=
  left.ts < right.ts ∨ (left.ts = right.ts ∧ left.id ≤ right.id)

instance : DecidableRel EventRecord.le := fun left right =>
  inferInstanceAs (Decidable (left.ts < right.ts ∨ (left.ts = right.ts ∧ left.id ≤ right.id)))

def intText (n : ℤ) : Text := (toString n).toList

/-! ## Rows -/

def usageRowLabelKey (turn : RequestTurn) (kind : Text) : Text :=
  if kind = "final_reply" then "final_reply"
  else if kind = "service" then "service_request"
  else if kind = "failed_reply" then "failed_billable"
  else if turn.lifecycle = "client_tool_handoff" then "intermediate_reply"
  else "intermediate"

def usageRowHintKey (turn : RequestTurn) (kind : Text) : Text :=
  if kind = "final_reply" then "completed_final_response"
  else if kind = "service" then "background_service_request"
  else if kind = "failed_reply" then "billable_failed_request"
  else if turn.lifecycle = "client_tool_handoff" then "client_tool_handoff"
  else "billable_model_request"

def usageSessionRow (turn : RequestTurn) (isFinal : Bool) : UsageSessionRow :=
  let kind : Text :=
    if turn.failed then "failed_reply"
    else if isFinal then "final_reply"
    else if turn.lifecycle = "service_ephemeral" then "service"
    else "intermediate_reply"
  { id := turn.id
    kind := kind
    label := usageRowLabelKey turn kind
    hint := usageRowHintKey turn kind
    model := turn.model
    requestedModel := turn.requestedModel
    reasoningEffort := turn.reasoningEffort
    lifecycle := turn.lifecycle
    status := if turn.failed then "failed" else "completed"
    billable := turn.billable
    completedAt := turn.completedAt
    cachedInputTokens := turn.cachedInputTokens
    cacheMissInputTokens := turn.cacheMissInputTokens
    outputTokens := turn.outputTokens
    totalTokens := turn.totalTokens
    requestMs := turn.requestMs }

def usageSegmentFromRow (row : UsageSessionRow) : UsageSegment where
  id := row.id
  kind := row.kind
  label := row.label
  hint := row.hint
  model := row.model
  requestedModel := row.requestedModel
  reasoningEffort := row.reasoningEffort
  lifecycle := row.lifecycle
  status := row.status
  toolName := none
  iteration := none
  summary := none
  completedAt := some row.completedAt
  cachedInputTokens := row.cachedInputTokens
  cacheMissInputTokens := row.cacheMissInputTokens
  outputTokens := row.outputTokens
  totalTokens := row.totalTokens
  requestMs := row.requestMs
  rows := [row]

/-! ## Segments of single events -/

/-- `detail.get("iteration").and_then(value_to_u64).map(|value| value as u32)` -/
def detailIteration (detail : Value) : Option ℕ :=
  ((detail.get "iteration").bind valueToU64).map (· % 2 ^ 32)

def iterationText (event : EventRecord) (iteration : Option ℕ) : Text :=
  (iteration.map Text.ofNat).getD (intText event.id)

def sanitizeSegmentId (value : Text) : Text :=
  value.map fun ch => if ch.isAlphanum ∨ ch = '_' ∨ ch = '-' then ch else '_'

def usageModelSegmentLabelKey (kind : Text) : Text :=
  if kind = "client_handoff_model" then "usage_client_handoff_model_stage"
  else if kind = "model_iteration" then "usage_model_iteration"
  else "usage_model_request"

def usageModelSegmentHintKey (kind : Text) : Text :=
  if kind = "client_handoff_model" then "usage_client_handoff_model_stage_hint"
  else if kind = "model_iteration" then "usage_model_iteration_hint"
  else "usage_model_request_hint"

def usageToolSegmentLabelKey (toolName : Text) : Text :=
  if toolName = "web_search" then "usage_web_search_stage" else "usage_tool_stage"

def compactUsageSegmentSummary (value : Value) : Option Text :=
  let text : Option Text := match value with
    | .string s => some s
    | .null => none
    | other => some other.print
  text.bind fun text =>
    let text := Text.trim (Text.join " " (Text.splitWhitespace text))
    if text = [] then none
    else if text.length ≤ maxUsageSegmentSummaryChars then some text
    else some (text.take (maxUsageSegmentSummaryChars - 1) ++ ("..." : Text))

def usageModelSegmentFromEvent (event : EventRecord) (row : UsageSessionRow) :
    Option UsageSegment :=
  event.detail.bind fun detail =>
    let phase := (detail.getStr "phase").getD []
    let iteration := detailIteration detail
    let counts := usageCounts ((detail.get "usage").getD .null)
    if counts.total = 0 ∧ counts.output = 0 ∧ counts.input = 0 then none
    else
      let isFinalHandoff := ((detail.get "final_handoff").bind Value.asBool).getD false
      let kind : Text :=
        if isFinalHandoff then "client_handoff_model"
        else if Text.contains phase "iteration" ∨ Text.contains phase "continuation" then
          "model_iteration"
        else "model_request"
      some
        { id := row.id ++ (":model:" : Text) ++ iterationText event iteration
          kind := kind
          label := usageModelSegmentLabelKey kind
          hint := usageModelSegmentHintKey kind
          model := row.model
          requestedModel := row.requestedModel
          reasoningEffort := row.reasoningEffort
          lifecycle := row.lifecycle
          status := row.status
          toolName := none
          iteration := iteration
          summary := if Text.isBlank phase then none else some phase
          completedAt := some event.ts
          cachedInputTokens := counts.cached
          cacheMissInputTokens := counts.cacheMiss
          outputTokens := counts.output
          totalTokens := counts.total
          requestMs := ((detail.get "duration_ms").bind valueToU64).getD 0
          rows := [] }

def visionCachedKeys : List Text :=
  ["cached_input_tokens", "input_cached_tokens", "prompt_cache_hit_tokens", "cached_tokens"]

def visionCacheMissKeys : List Text := ["cache_miss_input_tokens", "input_cache_miss_tokens"]

def usageVisionSegmentFromEvent (event : EventRecord) : Option UsageSegment := do
  let detail ← event.detail
  let vision ← detail.get "vision"
  let usage ← vision.get "usage"
  let input ← firstU64 usage inputKeys
  let cached := (firstU64 usage visionCachedKeys).getD
    (((vision.pointer ["usage", "input_tokens_details", "cached_tokens"]).bind valueToU64).getD 0)
  let miss := (firstU64 usage visionCacheMissKeys).getD (input - cached)
  let output := (firstU64 usage outputKeys).getD 0
  let total := (firstU64 usage ["total_tokens"]).getD
    (saturatingAdd (saturatingAdd cached miss) output)
  let model ← vision.getStr "model"
  some
    { id := ("vision:" : Text) ++ intText event.id
      kind := "vision"
      label := "usage_vision_stage"
      hint := "usage_vision_completed"
      model := model
      requestedModel := (vision.getStr "model").getD []
      reasoningEffort := []
      lifecycle :=
        if ((vision.getStr "backend").map fun backend =>
            Text.eqIgnoreAsciiCase backend "deepseek").getD false then "vision_deepseek"
        else "vision_external"
      status := if (detail.get "ok").bind Value.asBool = some false then "failed" else "completed"
      toolName := some ((detail.getStr "name").getD "vision_analyze")
      iteration := detailIteration detail
      summary := (detail.get "summary").bind compactUsageSegmentSummary
      completedAt := some event.ts
      cachedInputTokens := cached
      cacheMissInputTokens := miss
      outputTokens := output
      totalTokens := total
      requestMs := ((vision.get "duration_ms").bind valueToU64).getD 0
      rows := [] }

def visionSegmentIsDeepseekBillable (segment : UsageSegment) : Bool :=
  segment.kind = "vision" ∧ segment.lifecycle = "vision_deepseek"

def usageToolSegmentFromEvent (event : EventRecord) (row : UsageSessionRow) :
    Option UsageSegment := do
  let detail ← event.detail
  let toolName ← detail.getStr "name"
  let iteration := detailIteration detail
  let ok := (detail.get "ok").bind Value.asBool
  let vision := usageVisionSegmentFromEvent event
  some
    { id := row.id ++ (":tool:" : Text) ++ intText event.id ++ (":" : Text) ++
        iterationText event iteration ++ (":" : Text) ++ sanitizeSegmentId toolName
      kind := if vision.isSome then "vision" else "tool_result"
      label := if vision.isSome then "usage_vision_stage" else usageToolSegmentLabelKey toolName
      hint := if ok = some false then "usage_tool_failed" else "usage_tool_completed"
      model := (vision.map UsageSegment.model).getD toolName
      requestedModel := (vision.map UsageSegment.requestedModel).getD []
      reasoningEffort := []
      lifecycle := row.lifecycle
      status := if ok = some false then "failed" else "completed"
      toolName := some toolName
      iteration := iteration
      summary := (detail.get "summary").bind compactUsageSegmentSummary
      completedAt := some event.ts
      cachedInputTokens := (vision.map UsageSegment.cachedInputTokens).getD 0
      cacheMissInputTokens := (vision.map UsageSegment.cacheMissInputTokens).getD 0
      outputTokens := (vision.map UsageSegment.outputTokens).getD 0
      totalTokens := (vision.map UsageSegment.totalTokens).getD 0
      requestMs := (vision.map UsageSegment.requestMs).getD 0
      rows := [] }

def usageToolCallSegmentFromEvent (event : EventRecord) (row : UsageSessionRow) :
    Option UsageSegment := do
  let detail ← event.detail
  let toolName ← detail.getStr "name"
  let iteration := detailIteration detail
  some
    { id := row.id ++ (":tool-call:" : Text) ++ intText event.id ++ (":" : Text) ++
        iterationText event iteration ++ (":" : Text) ++ sanitizeSegmentId toolName
      kind := "tool_call"
      label := usageToolSegmentLabelKey toolName
      hint := "usage_tool_requested"
      model := toolName
      requestedModel := []
      reasoningEffort := []
      lifecycle := row.lifecycle
      status := "running"
      toolName := some toolName
      iteration := iteration
      summary := none
      completedAt := some event.ts
      cachedInputTokens := 0
      cacheMissInputTokens := 0
      outputTokens := 0
      totalTokens := 0
      requestMs := 0
      rows := [] }

def usageToolEventKey (event : EventRecord) : Option Text := do
  let detail ← event.detail
  let name ← detail.getStr "name"
  let iteration :=
    (((detail.get "iteration").bind valueToU64).map Text.ofNat).getD (intText event.id)
  some (iteration ++ (":" : Text) ++ name)

/-! ## Segments of a row -/

def segmentHasTokens (segment : UsageSegment) : Bool :=
  segment.cachedInputTokens > 0 ∨ segment.cacheMissInputTokens > 0 ∨ segment.outputTokens > 0 ∨
    segment.totalTokens > 0

def usageSegmentsHaveBillableTokens (segments : List UsageSegment) : Bool :=
  segments.any segmentHasTokens

/-- `if let Some(x) = list.iter_mut().rev().find(p) { *x = f(x) }` -/
def modifyLast {α : Type} (p : α → Bool) (f : α → α) : List α → List α
  | [] => []
  | x :: xs =>
      if xs.any p then x :: modifyLast p f xs
      else if p x then f x :: xs
      else x :: xs

def isBillableModelSegment (segment : UsageSegment) : Bool :=
  segment.toolName.isNone ∧ segmentHasTokens segment

def attachRowToSegment (row : UsageSessionRow) (segment : UsageSegment) : UsageSegment :=
  if segment.rows.any (·.id = row.id) then segment
  else { segment with rows := segment.rows ++ [row] }

def markSegmentAsFinal (row : UsageSessionRow) (segment : UsageSegment) : UsageSegment :=
  attachRowToSegment row
    { segment with
      kind := row.kind
      label := row.label
      hint := row.hint
      status := row.status
      requestMs := if segment.requestMs = 0 then row.requestMs else segment.requestMs }

def markLastBillableModelSegmentAsFinal (segments : List UsageSegment) (row : UsageSessionRow) :
    List UsageSegment :=
  modifyLast isBillableModelSegment (markSegmentAsFinal row) segments

def attachRowToLastBillableModelSegment (segments : List UsageSegment) (row : UsageSessionRow) :
    List UsageSegment :=
  modifyLast isBillableModelSegment (attachRowToSegment row) segments

/-- The segment that one event of a row contributes. -/
def usageEventSegment (row : UsageSessionRow) (completedToolKeys : List Text)
    (hasToolEvents : Bool) (event : EventRecord) : Option UsageSegment :=
  if event.eventType = "upstream_call_usage_breakdown" ∧ hasToolEvents then
    usageModelSegmentFromEvent event row
  else if event.eventType = "tool_call" then
    (usageToolEventKey event).bind fun key =>
      if key ∈ completedToolKeys then none else usageToolCallSegmentFromEvent event row
  else if event.eventType = "tool_result" then usageToolSegmentFromEvent event row
  else none

/-- The events recorded for a request, oldest first. -/
def requestEvents (inner : StoreInner) (requestId : Text) : List EventRecord :=
  (inner.events.filter fun event => eventDetailId event = some requestId).insertionSort
    EventRecord.le

def usageRequestEventSegments (inner : StoreInner) (row : UsageSessionRow) : List UsageSegment :=
  let events := requestEvents inner row.id
  let completedToolKeys :=
    (events.filter fun event => event.eventType = ("tool_result" : Text)).filterMap usageToolEventKey
  let hasToolEvents :=
    events.any fun event =>
      event.eventType = ("tool_call" : Text) ∨ event.eventType = ("tool_result" : Text)
  let segments := events.filterMap (usageEventSegment row completedToolKeys hasToolEvents)
  if usageSegmentsHaveBillableTokens segments then
    if row.kind = "final_reply" then markLastBillableModelSegmentAsFinal segments row
    else attachRowToLastBillableModelSegment segments row
  else segments ++ [usageSegmentFromRow row]

def addRowSegments (inner : StoreInner) (segments : List UsageSegment) (row : UsageSessionRow) :
    List UsageSegment :=
  let segments := segments ++ usageRequestEventSegments inner row
  if segments.any (fun segment => segment.rows.any (·.id = row.id)) then segments
  else segments ++ [usageSegmentFromRow row]

def usageSessionSegments (inner : StoreInner) (rows : List UsageSessionRow) : List UsageSegment :=
  let segments := rows.foldl (addRowSegments inner) []
  if segments.isEmpty then rows.map usageSegmentFromRow else segments

/-- `usage_vision_token_totals`: cached, cache-miss, output and total tokens. -/
def usageVisionTokenTotals (segments : List UsageSegment) : ℕ × ℕ × ℕ × ℕ :=
  (segments.filter fun segment => segment.kind = ("vision" : Text)).foldl
    (fun totals segment =>
      (saturatingAdd totals.1 segment.cachedInputTokens,
        saturatingAdd totals.2.1 segment.cacheMissInputTokens,
        saturatingAdd totals.2.2.1 segment.outputTokens,
        saturatingAdd totals.2.2.2 segment.totalTokens))
    (0, 0, 0, 0)

end CodeSeeX.Store
