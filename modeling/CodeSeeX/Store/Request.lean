import CodeSeeX.Core.Context

/-!
# Stored requests

One request as the store keeps it, and what the usage views read from it: its
token counts, its lifecycle, the user turn it belongs to and its row in the
history. Times are nanoseconds since the Unix epoch.
-/
namespace CodeSeeX.Store

open Context

def maxUsageSessionTitleChars : ℕ := 80

abbrev DateTime := ℤ

/-- A token count never leaves the range of `u64`. -/
def u64Max : ℕ := 2 ^ 64 - 1

/-- `left.saturating_add(right)` on `u64` -/
def saturatingAdd (left right : ℕ) : ℕ := min (left + right) u64Max

/-- `values.sum::<u64>()`, which wraps in a release build. -/
def wrappingSum (values : List ℕ) : ℕ := values.sum % 2 ^ 64

/-- The characters of an RFC 3339 text with an explicit offset. -/
def isTimestampChar (c : Char) : Bool :=
  c.isDigit || c == '-' || c == ':' || c == '+' || c == '.' || c == 'T'

/-- What the store takes from outside: the RFC 3339 text of a time, the standard hasher, and
Unicode lower case. No RFC 3339 text continues another. -/
structure StoreCrates where
  toRfc3339 : DateTime → Text
  defaultHash : List UInt8 → UInt64
  toLowercase : Text → Text
  rfc3339_chars : ∀ time, (toRfc3339 time).all isTimestampChar = true
  rfc3339_starts : ∀ time, toRfc3339 time ≠ []
  rfc3339_complete : ∀ s t, toRfc3339 s <+: toRfc3339 t → toRfc3339 s = toRfc3339 t

def epochText : Text := "1970-01-01T00:00:00+00:00"

/-- A store whose clock stands at the epoch. -/
def epochCrates : StoreCrates where
  toRfc3339 := fun _ => epochText
  defaultHash := fun _ => 0
  toLowercase := Text.toAsciiLowercase
  rfc3339_chars := fun _ => by decide +kernel
  rfc3339_starts := fun _ => by simp [epochText]
  rfc3339_complete := fun _ _ _ => rfl

inductive RequestStatus where
  | inProgress
  | completed
  | failed
  | interrupted
deriving DecidableEq

structure StoredRequest where
  id : Text
  previousResponseId : Option Text
  status : RequestStatus
  model : Option Text
  input : Value
  response : Value
  turnMessages : List Value
  toolFacts : List Text
  diagnostic : Option Value
  createdAt : DateTime
  updatedAt : DateTime

structure RequestTurn where
  id : Text
  model : Text
  requestedModel : Text
  reasoningEffort : Text
  lifecycle : Text
  failed : Bool
  conversationTurn : Bool
  billable : Bool
  completedAt : Text
  cachedInputTokens : ℕ
  cacheMissInputTokens : ℕ
  outputTokens : ℕ
  totalTokens : ℕ
  requestMs : ℕ
deriving DecidableEq

variable (crates : StoreCrates) (request : StoredRequest)

/-- `stable_hash_hex` -/
def stableHashHex (bytes : List UInt8) : Text := Text.hex16 (crates.defaultHash bytes)

/-! ## Token counts -/

def valueToU64 (value : Value) : Option ℕ :=
  value.asU64.or <| match value with
    | .number (.float d) => d.toU64?
    | _ => none

def firstU64 (value : Value) (keys : List Text) : Option ℕ :=
  (keys.filterMap fun key => value.get key).findSome? valueToU64

def inputKeys : List Text := ["input_tokens", "prompt_tokens"]

def outputKeys : List Text := ["output_tokens", "completion_tokens"]

def cachedKeys : List Text :=
  ["cached_input_tokens", "input_cached_tokens", "prompt_cache_hit_tokens",
    "cache_hit_input_tokens", "cached_tokens"]

def cacheMissKeys : List Text :=
  ["cache_miss_input_tokens", "input_cache_miss_tokens", "prompt_cache_miss_tokens",
    "cache_miss_tokens"]

/-- The five counts that every reader of a usage object computes the same way. -/
structure UsageCounts where
  input : ℕ
  cached : ℕ
  cacheMiss : ℕ
  output : ℕ
  total : ℕ
deriving DecidableEq

def usageCounts (usage : Value) : UsageCounts :=
  let cached :=
    ((firstU64 usage cachedKeys).or
      ((usage.pointer ["input_tokens_details", "cached_tokens"]).bind valueToU64)).or
      ((usage.pointer ["prompt_tokens_details", "cached_tokens"]).bind valueToU64) |>.getD 0
  let input := (firstU64 usage inputKeys).getD 0
  let cacheMiss := (firstU64 usage cacheMissKeys).getD (input - cached)
  let output := (firstU64 usage outputKeys).getD 0
  let total := (firstU64 usage ["total_tokens"]).getD
    (saturatingAdd (saturatingAdd cached cacheMiss) output)
  ⟨input, cached, cacheMiss, output, total⟩

def usageHasTokens (usage : Value) : Bool :=
  let counts := usageCounts usage
  counts.total > 0 ∨ counts.input > 0 ∨ counts.cached > 0 ∨ counts.cacheMiss > 0 ∨
    counts.output > 0

def usageValue (response : Value) : Option Value :=
  ((response.get "usage").or (response.pointer ["response", "usage"])).or
    (response.pointer ["choices", "0", "usage"])

def requestHasBillableUsage : Bool :=
  ((usageValue request.response).map usageHasTokens).getD false

/-! ## Lifecycle -/

def diagnosticStr (key : Text) : Option Text :=
  request.diagnostic.bind fun diagnostic => diagnostic.getStr key

def diagnosticBool (key : Text) : Option Bool :=
  request.diagnostic.bind fun diagnostic => (diagnostic.get key).bind Value.asBool

def requestLifecycle : Text :=
  match diagnosticStr request "codeseex_lifecycle" with
  | some lifecycle => lifecycle
  | none =>
      if request.status = .failed ∨ request.status = .interrupted then "failed_billable"
      else "final_turn"

/-- Whether the round itself failed: a failed round can still belong to a turn. -/
def requestFailed : Bool :=
  (request.status = .failed ∨ request.status = .interrupted) ∨
    requestLifecycle request = "failed_billable"

def requestHasGuardStopped : Bool :=
  diagnosticBool request "client_tool_handoff_guard_stopped" = some true

def requestIsCompletedFinalTurn : Bool :=
  request.status = .completed ∧ requestLifecycle request = "final_turn" ∧
    diagnosticBool request "client_tool_handoff_guard_stopped" ≠ some true

def requestIsCompletedBillableRequest : Bool :=
  (request.status = .completed ∨ request.status = .failed) ∧ requestHasBillableUsage request

/-! ## The user turn of a request -/

def codexUserRequestText (value : Text) : Option Text :=
  [("## My request for Codex:" : Text), "## My request:"].findSome? fun marker =>
    (Text.splitOnce marker value).bind fun (_, rest) =>
      if Text.trim rest = [] then none else some (Text.trim rest)

def compactUsageTitle (value : Text) : Option Text :=
  let text := Text.trim
    (Text.join " " (Text.splitWhitespace ((codexUserRequestText value).getD value)))
  if text = [] then none
  else if Text.startsWith text "# Selected text:" ∨
      Text.startsWith text "# Files mentioned by the user:" then none
  else if text.length > maxUsageSessionTitleChars then
    some (text.take (maxUsageSessionTitleChars - 1) ++ ("..." : Text))
  else some text

def runtimeLatestUserSummary (value : Value) : Option Text :=
  ((value.pointer ["_codeseex_runtime", "latest_user_summary"]).bind Value.asStr).bind
    compactUsageTitle

def latestUserSummaryFromMessages (messages : List Value) : Option Text :=
  messages.reverse.findSome? fun message =>
    if message.getStr "role" ≠ some ("user" : Text) then none
    else (message.getStr "content").bind compactUsageTitle

def latestUserSummaryFromInput (input : Value) : Option Text :=
  match input.getStr "input" with
  | some text => compactUsageTitle text
  | none =>
      (((input.get "messages").bind Value.asArray).bind latestUserSummaryFromMessages).or <|
        ((input.get "input").bind Value.asArray).bind fun items =>
          items.reverse.findSome? fun item =>
            if item.getStr "role" ≠ some ("user" : Text) then none
            else (item.get "content").bind fun content => compactUsageTitle (contentToText content)

def latestUserSummary : Option Text :=
  ((runtimeLatestUserSummary request.input).or
    (latestUserSummaryFromMessages request.turnMessages)).or
    (latestUserSummaryFromInput request.input)

def usageSummaryKey : Option Text := latestUserSummary request

def requestPromptCacheKey : Option Text :=
  ((request.input.getStr "prompt_cache_key").map Text.trim).filter (· ≠ [])

def usagePromptCacheKey : Option Text :=
  (requestPromptCacheKey request).map fun value => stableHashHex crates (Text.bytes value)

def usageNonFinalSessionKey : Text :=
  (((usageSummaryKey request).map fun key => ("summary:" : Text) ++ key).or
    ((usagePromptCacheKey crates request).map fun key => ("prompt_cache:" : Text) ++ key)).getD
    (("request:" : Text) ++ request.id)

/-! ## The history row of a request -/

/-- `u64::try_from(updated_at.signed_duration_since(created_at).num_milliseconds())`, zero when
negative. -/
def requestMs (createdAt updatedAt : DateTime) : ℕ :=
  ((updatedAt - createdAt).tdiv 1000000).toNat

def requestReasoningEffort : Text :=
  if requestLifecycle request = "service_ephemeral" ∨
      (diagnosticBool request "thinking_disabled").getD false then "none"
  else
    crates.toLowercase <| Text.trim <|
      ((((request.input.pointer ["reasoning", "effort"]).bind Value.asStr).or
        ((request.input.pointer ["_codeseex_runtime", "reasoning_effort"]).bind Value.asStr)).or
        (diagnosticStr request "reasoning_effort")).getD []

/-- `turn_from_request` always succeeds. -/
def turnFromRequest : RequestTurn :=
  let counts := usageCounts ((usageValue request.response).getD .null)
  { id := request.id
    model := ((request.response.getStr "model").or request.model).getD []
    requestedModel := ((request.input.getStr "model").or request.model).getD []
    reasoningEffort := requestReasoningEffort crates request
    lifecycle := requestLifecycle request
    failed := requestFailed request
    conversationTurn := requestIsCompletedFinalTurn request
    billable := requestHasBillableUsage request
    completedAt := crates.toRfc3339 request.updatedAt
    cachedInputTokens := counts.cached
    cacheMissInputTokens := counts.cacheMiss
    outputTokens := counts.output
    totalTokens := counts.total
    requestMs := requestMs request.createdAt request.updatedAt }

/-! ## What the readers agree on -/

@[simp] theorem usageCounts_null : usageCounts .null = ⟨0, 0, 0, 0, 0⟩ := rfl

@[simp] theorem turnFromRequest_lifecycle :
    (turnFromRequest crates request).lifecycle = requestLifecycle request := rfl

variable {request}

/-- A request without billable usage has no tokens to show. -/
theorem usageCounts_of_not_billable (h : requestHasBillableUsage request = false) :
    usageCounts ((usageValue request.response).getD .null) = ⟨0, 0, 0, 0, 0⟩ := by
  cases hu : usageValue request.response with
  | none => simp
  | some usage =>
    have hzero : usageHasTokens usage = false := by simpa [requestHasBillableUsage, hu] using h
    simp only [usageHasTokens, decide_eq_false_iff_not, not_or, Nat.not_lt, Nat.le_zero] at hzero
    obtain ⟨htotal, hinput, hcached, hmiss, houtput⟩ := hzero
    calc usageCounts usage = ⟨(usageCounts usage).input, (usageCounts usage).cached,
          (usageCounts usage).cacheMiss, (usageCounts usage).output, (usageCounts usage).total⟩ :=
        rfl
      _ = ⟨0, 0, 0, 0, 0⟩ := by rw [hinput, hcached, hmiss, houtput, htotal]

theorem not_guardStopped_of_final (h : requestIsCompletedFinalTurn request = true) :
    requestHasGuardStopped request = false := by
  simp only [requestIsCompletedFinalTurn, decide_eq_true_eq] at h
  simpa [requestHasGuardStopped] using h.2.2

end CodeSeeX.Store
