import CodeSeeX.Store.EventTail

/-!
# Views of events

What the event list shows of an event, and which events a query selects. Of a view, its risk flags,
metrics and session hint are left out: neither the queries nor the pages read them.
-/
namespace CodeSeeX.Store

def maxLogSummaryChars : ℕ := 360

structure EventViewQuery where
  limit : ℕ
  cursor : Option Text
  before : Option Text
  after : Option Text
  audience : Option Text
  category : Option Text
  level : Option Text
  requestId : Option Text
  q : Option Text

structure EventViewRecord where
  id : ℤ
  ts : Text
  level : Text
  eventType : Text
  audience : Audience
  category : Text
  title : Text
  summary : Text
  requestId : Option Text
  safeDetail : Option Value
  message : Text
  cursor : Option Text

/-! ## Details -/

def compactLogString (value : Text) (limit : ℕ) : Text :=
  let cleaned := Text.join " " (Text.splitWhitespace value)
  if cleaned.length ≤ limit then cleaned else cleaned.take (limit - 3) ++ ("..." : Text)

/-- The texts of a scalar; objects, arrays and null have none. -/
def scalarText : Value → Option Text
  | .string value => some value
  | .number value => some (Value.number value).print
  | .bool value => some (Value.bool value).print
  | _ => none

def arrayTexts (values : List Value) : Text := Text.join ", " (values.filterMap Value.asStr)

section Detail
variable (detail : Option Value)

def detailString (key : Text) : Option Text :=
  (detail.bind fun object => object.get key).bind fun value =>
    match value with
    | .array values => some (arrayTexts values)
    | value => scalarText value

def detailU64 (key : Text) : Option Text :=
  ((detail.bind fun object => object.get key).bind Value.asU64).map Text.ofNat

def detailBool (key : Text) : Option Text :=
  ((detail.bind fun object => object.get key).bind Value.asBool).map fun value =>
    (Value.bool value).print

def nestedValue (objectKey key : Text) : Option Value :=
  (detail.bind fun object => object.get objectKey).bind fun nested => nested.get key

def nestedU64 (objectKey key : Text) : Option Text :=
  ((nestedValue detail objectKey key).bind Value.asU64).map Text.ofNat

def nestedString (objectKey key : Text) : Option Text :=
  (nestedValue detail objectKey key).bind scalarText

def detailArraySummary (key : Text) : Option Text :=
  ((detail.bind fun object => object.get key).bind Value.asArray).map arrayTexts

/-! ## Summaries -/

/-- A part of a summary behind its label. -/
def labelled (label : Text) (value : Option Text) : Option Text := value.map (label ++ ·)

/-- The parts that there are, in one line. -/
def summaryLine (parts : List (Option Text)) : Text :=
  compactLogString (Text.join " - " (parts.filterMap id)) maxLogSummaryChars

def modelSummary : Option Text :=
  match detailString detail "requested_model", detailString detail "model" with
  | some requested, some model =>
      if requested ≠ model then some (("model=" : Text) ++ requested ++ ("->" : Text) ++ model)
      else some (("model=" : Text) ++ requested)
  | some requested, none => some (("model=" : Text) ++ requested)
  | none, model => labelled "model=" model

def metricSummary (key suffix : Text) : Option Text :=
  (detailU64 detail key).map fun value => key ++ ['='] ++ value ++ suffix

def tokenTripletSummary : Option Text :=
  ((detailU64 detail "input_tokens").or (nestedU64 detail "usage" "input_tokens")).map fun input =>
    let miss := ((detailU64 detail "cache_miss_input_tokens").or
      (nestedU64 detail "usage" "cache_miss_input_tokens")).getD "0"
    let output := ((detailU64 detail "output_tokens").or
      (nestedU64 detail "usage" "output_tokens")).getD "0"
    ("input=" : Text) ++ input ++ (", miss=" : Text) ++ miss ++ (", output=" : Text) ++ output

def contextSummary : Text :=
  summaryLine
    [labelled "items=" (nestedU64 detail "context" "input_items"),
      labelled "messages=" (nestedU64 detail "context" "message_items"),
      labelled "tool_results=" (nestedU64 detail "context" "tool_result_items"),
      labelled "chars=" (nestedU64 detail "context" "estimated_chars"),
      tokenTripletSummary detail]

def usageBreakdownSummary : Text :=
  summaryLine
    [labelled "iteration=" (detailU64 detail "iteration"),
      labelled "phase=" (detailString detail "phase"), tokenTripletSummary detail,
      labelled "tools=" (nestedU64 detail "payload" "tools_count")]

/-- Tool results publish the outcomes of their sources under `sources`. -/
def webUnreachableCount : Option ℕ :=
  let nested := detail.bind fun object => object.get "web_search"
  let health := ((detail.bind fun object => object.get "source_health").or
    (nested.bind fun value => value.get "source_health")).or
    (nested.bind fun value => value.get "sources")
  (health.bind Value.asArray).map fun items =>
    items.countP fun item => (item.get "reachable").bind Value.asBool = some false

def webSourceSummary : Text :=
  summaryLine
    [labelled "stage=" (detailString detail "stage"),
      labelled "trigger=" (detailString detail "trigger"),
      labelled "order=" (detailArraySummary detail "source_order"),
      labelled "unreachable=" ((webUnreachableCount detail).map Text.ofNat)]

end Detail

def eventSummary (event : EventRecord) : Text :=
  let detail := event.detail
  if event.eventType = "request_completed" then
    summaryLine
      [modelSummary detail, metricSummary detail "duration_ms" "ms", tokenTripletSummary detail,
        detailString detail "lifecycle"]
  else if event.eventType = "request_started" then
    summaryLine
      [detailString detail "endpoint", modelSummary detail,
        labelled "previous=" ((detailString detail "previous_response_id").map
          fun value => compactLogString value 48)]
  else if event.eventType = "context_limit_exceeded" then
    summaryLine
      [(nestedU64 detail "context_limit" "input_bytes").map fun value =>
          ("input=" : Text) ++ value ++ ['B'],
        (nestedU64 detail "context_limit" "max_bytes").map fun value =>
          ("limit=" : Text) ++ value ++ ['B']]
  else if event.eventType = "request_failed" then
    summaryLine
      [modelSummary detail,
        labelled "error=" ((detailString detail "message").or (detailString detail "error"))]
  else if event.eventType = "tool_result" then
    summaryLine
      [labelled "tool=" (detailString detail "name"),
        labelled "model=" (nestedString detail "vision" "model"),
        (nestedU64 detail "vision" "duration_ms").map fun value =>
          ("duration=" : Text) ++ value ++ ("ms" : Text),
        labelled "images=" (nestedU64 detail "vision" "image_count"),
        labelled "ok=" (detailBool detail "ok"), detailString detail "summary"]
  else if event.eventType = "tool_call" then
    summaryLine
      [labelled "tool=" (detailString detail "name"),
        labelled "scope=" (detailString detail "scope"),
        labelled "iteration=" (detailU64 detail "iteration")]
  else if event.eventType ∈ [("context_compile_diagnostic" : Text),
      "client_tool_handoff_diagnostic"] then contextSummary detail
  else if event.eventType = "upstream_call_usage_breakdown" then usageBreakdownSummary detail
  else if event.eventType = "retry_cache_diagnostic" then
    summaryLine [modelSummary detail, labelled "error=" (detailString detail "error_kind")]
  else if event.eventType ∈ [("deepseek_tool_protocol_adapted" : Text),
      "deepseek_tool_protocol_blocked", "deepseek_tool_protocol_parse_failed"] then
    summaryLine
      [labelled "channel=" (detailString detail "channel"),
        labelled "tools=" (detailU64 detail "tool_count"),
        labelled "names=" (detailString detail "tool_names")]
  else if event.eventType ∈ [("codex_app_launch_succeeded" : Text),
      "codex_app_launch_injection_succeeded", "codex_app_launch_injection_warning",
      "codex_app_launch_failed"] then
    summaryLine
      [labelled "status=" (detailString detail "status"),
        labelled "debug_port=" (detailU64 detail "debug_port"),
        labelled "injection=" (detailBool detail "injection_enabled"),
        labelled "injection_status=" (nestedString detail "injection" "status"),
        (detailString detail "message").or (nestedString detail "injection" "message")]
  else if event.eventType ∈ [("codex_runtime_catalog_verified" : Text),
      "codex_runtime_catalog_warning", "codex_runtime_catalog_error",
      "codex_runtime_catalog_unavailable"] then
    summaryLine
      [labelled "status=" (detailString detail "status"),
        labelled "issue=" (detailString detail "issue"),
        labelled "path=" (detailString detail "path_note"),
        labelled "transport=" (nestedString detail "runtime" "transport"),
        labelled "method=" (nestedString detail "runtime" "method"),
        (nestedU64 detail "runtime" "duration_ms").map fun value =>
          ("duration=" : Text) ++ value ++ ("ms" : Text)]
  else if event.eventType = "web_search_source_probe" then webSourceSummary detail
  else if event.eventType = "cost_risk_diagnostic" then
    summaryLine
      [labelled "warnings=" (detailArraySummary detail "warnings"),
        labelled "chars=" (detailU64 detail "estimated_text_chars"),
        labelled "items=" (detailU64 detail "input_items")]
  else compactLogString event.message maxLogSummaryChars

/-! ## Titles and categories -/

/-- The event types with a title of their own. -/
def eventTitles : List (Text × Text) :=
  [("request_started", "Request started"), ("request_completed", "Request completed"),
    ("request_failed", "Request failed"),
    ("context_limit_exceeded", "Upstream context limit reached"),
    ("service_request_diagnostic", "Service request classified"),
    ("tool_exposure_diagnostic", "Tool exposure"),
    ("native_tool_namespace_reconciled", "Native tool namespaces merged"),
    ("native_tool_schema_repaired", "Native tool schemas completed"),
    ("context_compile_diagnostic", "Context compiled"),
    ("upstream_call_usage_breakdown", "Upstream usage"),
    ("upstream_usage_chunk_diagnostic", "Usage chunks merged"),
    ("client_tool_handoff_diagnostic", "Client tool handoff"),
    ("client_tool_handoff_guard_diagnostic", "Handoff guard"),
    ("retry_cache_diagnostic", "Retry cache diagnostic"),
    ("cost_risk_diagnostic", "Cost risk warning"),
    ("apply_patch_input_micro_repair_diagnostic", "Patch input micro repair"),
    ("deepseek_tool_protocol_adapted", "DeepSeek protocol adapted"),
    ("deepseek_tool_protocol_blocked", "DeepSeek protocol blocked"),
    ("deepseek_tool_protocol_parse_failed", "DeepSeek protocol parse failed"),
    ("codex_app_launch_succeeded", "Codex App launched"),
    ("codex_app_launch_injection_succeeded", "Codex App injection enabled"),
    ("codex_app_launch_injection_warning", "Codex App injection warning"),
    ("codex_app_launch_failed", "Codex App launch failed"),
    ("codex_runtime_catalog_verified", "Codex runtime catalog verified"),
    ("codex_runtime_catalog_warning", "Codex runtime catalog warning"),
    ("codex_runtime_catalog_error", "Codex runtime catalog error"),
    ("codex_runtime_catalog_unavailable", "Codex runtime catalog unavailable"),
    ("web_search_source_probe", "Search source probe")]

def eventTitle (event : EventRecord) : Text :=
  let named := ((detailString event.detail "name").map fun name => (": " : Text) ++ name).getD []
  if event.eventType = "tool_call" then ("Tool call" : Text) ++ named
  else if event.eventType = "tool_result" then ("Tool result" : Text) ++ named
  else match eventTitles.lookup event.eventType with
    | some title => title
    | none =>
        let message := Text.trim event.message
        if message = [] then event.eventType.map fun c => if c = '_' then ' ' else c
        else compactLogString message 96

def eventViewCategory (event : EventRecord) : Text :=
  let eventType := event.eventType
  if event.level = "error" then "error"
  else if eventType = "web_search_source_probe" ∨ Text.contains eventType "web_search" ∨
      detailString event.detail "name" = some (Text.lit "web_search") then "web"
  else if Text.startsWith eventType "deepseek_tool_protocol" then "protocol"
  else if Text.contains eventType "tool" ∨ Text.contains eventType "handoff" ∨
      eventType = "apply_patch_input_micro_repair_diagnostic" then "tool"
  else if Text.contains eventType "context" ∨ Text.contains eventType "usage" ∨
      Text.contains eventType "cache" ∨ eventType = "cost_risk_diagnostic" ∨
      eventType = "request_shape_diagnostic" then "context"
  else if Text.startsWith eventType "request_" ∨ eventType = "service_request_diagnostic" then
    "request"
  else if Text.contains eventType "config" ∨ Text.contains eventType "security" ∨
      Text.startsWith eventType "codex_runtime_catalog" then "security"
  else "system"

def eventRequestId (detail : Option Value) : Option Text :=
  ((detailString detail "id").or (detailString detail "request_id")).or
    (detailString detail "response_id")

/-! ## Views -/

/-- `{}` of a signed number. -/
def signedText : ℤ → Text
  | .ofNat n => Text.ofNat n
  | .negSucc n => '-' :: Text.ofNat (n + 1)

def eventCursor (event : EventRecord) : Text := event.ts ++ '|' :: signedText event.id

def eventViewRecord (event : EventRecord) : EventViewRecord where
  id := event.id
  ts := event.ts
  level := event.level
  eventType := event.eventType
  audience := eventAudience event
  category := eventViewCategory event
  title := eventTitle event
  summary := eventSummary event
  requestId := eventRequestId event.detail
  safeDetail := event.detail
  message := event.message
  cursor := some (eventCursor event)

/-! ## Queries -/

/-- `value.map(str::trim).filter(|value| !value.is_empty())` -/
def trimmedFilter (value : Option Text) : Option Text := (value.map Text.trim).filter (· ≠ [])

/-- The order of an event and a cursor: the time first, then the number, which is equal when the
cursor has none. -/
def eventCursorOrder (event : EventRecord) (cursor : Text) : Ordering :=
  let cursor := Text.trim cursor
  match Text.rsplitOnce '|' cursor with
  | some (ts, id) =>
      if event.ts ≠ ts then cmp event.ts ts
      else ((Text.parseI64 id).map fun cursorId => cmp event.id cursorId).getD .eq
  | none => cmp event.ts cursor

def eventBeforeQueryCursor (event : EventRecord) (query : EventViewQuery) : Bool :=
  match trimmedFilter (query.cursor.or query.before) with
  | none => true
  | some cursor =>
      match Text.rsplitOnce '|' cursor with
      | some (ts, id) =>
          if event.ts < ts then true
          else if ts < event.ts then false
          else ((Text.parseI64 id).map fun cursorId => decide (event.id < cursorId)).getD false
      | none => decide (event.ts < cursor)

def eventAfterQueryCursor (event : EventRecord) (query : EventViewQuery) : Bool :=
  match trimmedFilter query.after with
  | none => true
  | some cursor =>
      match Text.rsplitOnce '|' cursor with
      | some (ts, id) =>
          if ts < event.ts then true
          else if event.ts < ts then false
          else ((Text.parseI64 id).map fun cursorId => decide (cursorId < event.id)).getD false
      | none => decide (cursor < event.ts)

def queryCsvContains (filter : Option Text) (value : Text) : Bool :=
  match trimmedFilter filter with
  | none => true
  | some filter =>
      ((filter.splitOn ',').map Text.trim).any fun part =>
        Text.eqIgnoreAsciiCase part "all" || Text.eqIgnoreAsciiCase part value

def queryLevelIncludesDebug (query : EventViewQuery) : Bool :=
  ((query.level.getD []).splitOn ',').any fun part =>
    Text.eqIgnoreAsciiCase (Text.trim part) "debug"

/-- Diagnostic events are shown in no mode. -/
def eventViewAllowsAudience (event : EventRecord) (query : EventViewQuery) : Bool :=
  if event.level = "debug" ∧ !queryLevelIncludesDebug query then false
  else
    let mode := Text.toAsciiLowercase (Text.trim (query.audience.getD "safe"))
    if mode = "user" then eventAudience event = .user
    else eventAudience event = .user ∨ eventAudience event = .safeDiagnostic

/-- What the free text of a query is searched in. -/
def eventHaystack (view : EventViewRecord) : Text :=
  Text.toAsciiLowercase <| Text.join "\n"
    [view.eventType, view.message, view.title, view.summary, view.requestId.getD [],
      (view.safeDetail.map Value.print).getD []]

/-- The part of a query that is not a cursor. -/
def eventMatchesFilters (event : EventRecord) (query : EventViewQuery) : Bool :=
  let view := eventViewRecord event
  queryCsvContains query.level view.level && queryCsvContains query.category view.category &&
    (trimmedFilter query.requestId).all (fun requestId => view.requestId = some requestId) &&
    (trimmedFilter query.q).all fun q =>
      Text.contains (eventHaystack view) (Text.toAsciiLowercase q)

def eventMatchesEventViewQuery (event : EventRecord) (query : EventViewQuery) : Bool :=
  eventBeforeQueryCursor event query && eventAfterQueryCursor event query &&
    eventViewAllowsAudience event query && eventMatchesFilters event query

end CodeSeeX.Store
