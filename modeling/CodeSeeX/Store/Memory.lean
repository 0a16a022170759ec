import CodeSeeX.Store.State

/-!
# What the store keeps of a request

Values are cut before they are kept in memory: long texts, long arrays, and
inline data URLs. A Codex request that resends its whole context is kept without
its input.
-/
namespace CodeSeeX.Store

open Context

def maxMemoryStringChars : ℕ := 64 * 1024
def maxMemoryArrayItems : ℕ := 256

section Crates
variable (crates : StoreCrates)

def looksLikeInlineDataUrl (value : Text) : Bool :=
  let lower := Text.toAsciiLowercase value
  Text.contains lower "data:" ∧ Text.contains lower ";base64,"

def truncateCharsWithHash (value : Text) (maxChars : ℕ) : Text :=
  if value.length ≤ maxChars then value
  else
    value.take maxChars ++ ("\n[CodeSeeX omitted " : Text) ++
      Text.ofNat (value.length - maxChars) ++ (" chars; hash=" : Text) ++
      stableHashHex crates (Text.bytes value) ++ ("]" : Text)

def redactedDataUrl (value : Text) : Text :=
  ("[redacted inline data url; original_chars=" : Text) ++ Text.ofNat value.length ++
    ("; hash=" : Text) ++ stableHashHex crates (Text.bytes value) ++ ("]" : Text)

def sanitizeMemoryString (value : Text) : Text :=
  if looksLikeInlineDataUrl value then redactedDataUrl crates value
  else truncateCharsWithHash crates value maxMemoryStringChars

def natValue (n : ℕ) : Value := .number (.posInt (UInt64.ofNat n))

def omittedItemsNotice (length : ℕ) : Value :=
  .object
    [("_codeseex_runtime_notice", .string "array middle omitted from in-memory adapter state"),
      ("omitted_items", natValue (length - maxMemoryArrayItems))]

/-- An array's kept items: all of them, or both ends around a notice. -/
def keptItems (items : List Value) : List Value :=
  if items.length ≤ maxMemoryArrayItems then items
  else
    items.take (maxMemoryArrayItems / 2) ++ [omittedItemsNotice items.length] ++
      items.drop (items.length - maxMemoryArrayItems / 2)

mutual
def memoryJsonValue : Value → Value
  | .string value => .string (sanitizeMemoryString crates value)
  | .array values => .array (keptItems (memoryItems values))
  | .object fields => .object (memoryFields fields)
  | other => other

def memoryItems : List Value → List Value
  | [] => []
  | value :: values => memoryJsonValue value :: memoryItems values

def memoryFields : List (Text × Value) → List (Text × Value)
  | [] => []
  | (key, value) :: fields => (key, memoryJsonValue value) :: memoryFields fields
end

def mergeRequestDiagnostic (existing : Option Value) (next : Value) : Value :=
  match existing.map (memoryJsonValue crates), memoryJsonValue crates next with
  | some (.object existing), .object next =>
      .object (next.foldl (fun fields field => Value.insertField field.1 field.2 fields) existing)
  | _, next => next

def fullContextReason : Text :=
  ("Codex owns and resends full conversation context; CodeSeeX keeps no " : Text) ++
    ("duplicate transcript." : Text)

/-- The stored stand-in for a resent context. -/
def fullContextRuntime (value input : Value) (reasoningEffort : Option Text) : Value :=
  let base : List (Text × Value) :=
    [("mode", .string "codex_full_context_not_stored"),
      ("original_input_hash", .string (stableHashHex crates (Text.bytes input.print))),
      ("original_input_items", natValue ((input.asArray.map List.length).getD 0)),
      ("reason", .string fullContextReason)]
  let withSummary := match latestUserSummaryFromInput value with
    | some summary => Value.insertField "latest_user_summary" (.string summary) base
    | none => base
  .object <| match reasoningEffort with
    | some effort => Value.insertField "reasoning_effort" (.string effort) withSummary
    | none => withSummary

/-- The fields that every stored request object keeps. -/
def storedHead (value : Value) (reasoningEffort : Option Text) : List (Text × Value) :=
  let kept := [("model" : Text), "prompt_cache_key"].foldl
    (fun stored key => match value.get key with
      | some field => Value.insertField key (memoryJsonValue crates field) stored
      | none => stored)
    []
  match reasoningEffort with
  | some effort =>
      Value.insertField "_codeseex_runtime" (.object [("reasoning_effort", .string effort)]) kept
  | none => kept

def requestInputForRuntime (previousResponseId : Option Text) (value : Value) : Value :=
  match value with
  | .object _ =>
      let reasoningEffort :=
        ((((value.pointer ["reasoning", "effort"]).bind Value.asStr).map Text.trim).filter
          (· ≠ [])).map Text.toAsciiLowercase
      let stored := storedHead crates value reasoningEffort
      match value.get "input" with
      | some input =>
          let hasResolvedExplicitPrevious := previousResponseId.isSome ∧
            ((value.getStr "previous_response_id").any fun id => Text.trim id ≠ [])
          if requestLooksLikeCodexFullContext value ∧ ¬ hasResolvedExplicitPrevious then
            .object (Value.insertField "_codeseex_runtime"
              (fullContextRuntime crates value input reasoningEffort)
              (Value.insertField "input" (.array []) stored))
          else .object (Value.insertField "input" (memoryJsonValue crates input) stored)
      | none =>
          match value.get "messages" with
          | some messages =>
              .object (Value.insertField "messages" (memoryJsonValue crates messages) stored)
          | none => memoryJsonValue crates value
  | _ => memoryJsonValue crates value

/-! ## Fallback usage -/

def usageCountsValue (input cached cacheMiss output total : ℕ) : Value :=
  .object
    [("cache_miss_input_tokens", natValue cacheMiss), ("cached_input_tokens", natValue cached),
      ("input_tokens", natValue input), ("output_tokens", natValue output),
      ("total_tokens", natValue total)]

def normalizedUsageValue (usage : Value) : Value :=
  let counts := usageCounts usage
  usageCountsValue (saturatingAdd counts.cached counts.cacheMiss) counts.cached counts.cacheMiss
    counts.output counts.total

def mergeUsageValues (left right : Value) : Value :=
  let left := normalizedUsageValue left
  let right := normalizedUsageValue right
  let add (key : Text) :=
    saturatingAdd ((firstU64 left [key]).getD 0) ((firstU64 right [key]).getD 0)
  let cached := add "cached_input_tokens"
  let miss := add "cache_miss_input_tokens"
  let output := add "output_tokens"
  usageCountsValue (saturatingAdd cached miss) cached miss output
    (saturatingAdd (saturatingAdd cached miss) output)

def fallbackFlag : Text := "_codeseex_runtime_usage_fallback"

def fallbackResponse (request : StoredRequest) (usage : Value) : Value :=
  .object
    [(fallbackFlag, .bool true), ("model", .string (request.model.getD [])),
      ("object", .string "codeseex_usage_fallback"), ("usage", usage)]

/-- The usage fallback that an upstream usage event leaves in its request, if it applies. -/
def upstreamUsageFallback (request : StoredRequest) (usage : Value) : Option Value :=
  let existingIsFallback :=
    (request.response.get fallbackFlag).bind Value.asBool = some true
  if (usageValue request.response).isSome ∧ ¬ existingIsFallback then none
  else
    let next := normalizedUsageValue usage
    let merged :=
      if existingIsFallback then
        mergeUsageValues ((usageValue request.response).getD .null) next
      else next
    some (fallbackResponse request merged)

end Crates
end CodeSeeX.Store
