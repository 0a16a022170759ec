import CodeSeeX.General.BTreeMap
import CodeSeeX.Json

/-!
# Pending tool groups

The hosted tool rounds that the proxy has run inside a turn are retained under the
response id, until a later request that continues the turn replays them. Retention
is bounded in number and in time; what is dropped is listed for a report.
-/
namespace CodeSeeX.Native

/-- Readings of the monotonic clock in nanoseconds; `duration_since` is truncated at zero. -/
abbrev Instant := ℕ

def maxPendingNativeGroups : ℕ := 64

def pendingNativeGroupTtl : ℕ := 30 * 60 * 10 ^ 9

/-- Upstream input that the proxy injected itself, with its offset in the client's items. -/
structure NativeInjectedItems where
  offset : ℕ
  items : List Value

structure NativePendingContinuation where
  pendingResponseId : Text
  mergedInput : List Value
  injectedItems : List NativeInjectedItems

structure PendingNativeToolGroup where
  responseId : Text
  requestAnchor : Option Text
  clientCallIds : List Text
  injectedItems : List NativeInjectedItems
  createdAt : Instant

structure NativePendingToolGroups where
  groups : BTreeMap Text PendingNativeToolGroup
  evicted : List Text

/-- A string that is not blank, without the white space around it. -/
def trimmedStr (v : Option Value) : Option Text :=
  ((v.bind Value.asStr).map Text.trim).filter (· ≠ [])

def requestAnchor (request : Value) : Option Text :=
  let promptCacheKey := trimmedStr (request.get "prompt_cache_key")
  let installationId := trimmedStr
    ((request.pointer ["client_metadata", "x-codex-installation-id"]).or
      (request.pointer ["metadata", "x-codex-installation-id"]))
  match promptCacheKey, installationId with
  | some cache, some installation =>
      some (("cache:" : Text) ++ cache ++ ("\x00installation:" : Text) ++ installation)
  | some cache, none => some (("cache:" : Text) ++ cache)
  | none, some installation => some (("installation:" : Text) ++ installation)
  | none, none => none

/-! ## Continuing a turn -/

/-- `item.get("type").and_then(Value::as_str)` -/
def itemType (item : Value) : Option Text := item.getStr "type"

/-- `item.get("call_id").and_then(Value::as_str)` -/
def callId (item : Value) : Option Text := item.getStr "call_id"

def isToolOutput (item : Value) : Bool :=
  itemType item = some ("function_call_output" : Text) ∨
    itemType item = some ("custom_tool_call_output" : Text)

def ownedHere (item : Value) (owned : List Text) : Bool := (callId item).any (· ∈ owned)

namespace NativeInjectedItems

def callIds (round : NativeInjectedItems) : List Text := round.items.filterMap callId

/-- The outputs that the record holds, under their call ids; a later one replaces an earlier. -/
def hostedOutputs (round : NativeInjectedItems) : BTreeMap Text Value :=
  round.items.foldl (fun outputs item =>
    if isToolOutput item then
      match callId item with
      | some id => outputs.insert id item
      | none => outputs
    else outputs) BTreeMap.empty

/-- The answer to a provider item: the recorded output, or else the client's. -/
def outputFor (round : NativeInjectedItems) (tail : List Value) (item : Value) : Option Value :=
  match callId item with
  | none => none
  | some id =>
      (round.hostedOutputs.get id).or
        (tail.find? fun candidate => isToolOutput candidate ∧ callId candidate = some id)

/-- The provider turn with one output for each call behind it. -/
def replayedTurn (round : NativeInjectedItems) (tail : List Value) : List Value :=
  let providerItems := round.items.filter fun item => ! isToolOutput item
  providerItems ++ providerItems.filterMap (round.outputFor tail)

end NativeInjectedItems

namespace PendingNativeToolGroup

variable (group : PendingNativeToolGroup)

def tailStart (input : List Value) : ℕ :=
  min ((group.injectedItems.map (·.offset)).min?.getD input.length) input.length

/-- The calls that the retained rounds carry. -/
def ownedIds : List Text := group.injectedItems.flatMap (·.callIds)

/-- The reasoning items directly before an index, down to the start of the tail. -/
def reasoningBefore (input : List Value) (start : ℕ) : ℕ → List ℕ
  | 0 => []
  | index + 1 =>
      if start ≤ index ∧ (input[index]?.bind itemType) = some ("reasoning" : Text) then
        index :: reasoningBefore input start index
      else []

/-- The indices of the client's own copy of the replayed turn. -/
def dropped (input : List Value) : List ℕ :=
  let tail := input.zipIdx.drop (group.tailStart input)
  let firstOwned := (tail.find? fun entry => ownedHere entry.1 group.ownedIds).map Prod.snd
  let reasoning := match firstOwned with
    | some first => reasoningBefore input (group.tailStart input) first
    | none => []
  reasoning ++ (tail.filter fun entry => ownedHere entry.1 group.ownedIds).map Prod.snd

/-- The loop over the client's items, with the rounds that are still to be replayed. -/
def mergeLoop (input : List Value) (dropped : List ℕ) :
    List NativeInjectedItems → List (Value × ℕ) → List Value
  | rounds, [] => rounds.flatMap (·.replayedTurn input)
  | rounds, (item, index) :: rest =>
      let due := fun round : NativeInjectedItems => decide (min round.offset input.length ≤ index)
      (rounds.takeWhile due).flatMap (·.replayedTurn input) ++
        (if index ∈ dropped then [] else [item]) ++
        mergeLoop input dropped (rounds.dropWhile due) rest

def continuation (input : List Value) : NativePendingContinuation where
  pendingResponseId := group.responseId
  mergedInput := mergeLoop input (group.dropped input) group.injectedItems input.zipIdx
  injectedItems := group.injectedItems

end PendingNativeToolGroup

/-! ## Matching -/

/-- The request mentions a call of the group. -/
def groupIsContinuedBy (group : PendingNativeToolGroup) (input : List Value) : Bool :=
  group.clientCallIds.any fun id => input.any fun item => callId item = some id

/-- The group under the previous response id, or else the latest under the request's anchor that
the request continues; of several equally late ones the last in key order. -/
def matchingGroup (groups : BTreeMap Text PendingNativeToolGroup) (request : Value) :
    Option PendingNativeToolGroup :=
  match (trimmedStr (request.get "previous_response_id")).bind groups.get with
  | some group => some group
  | none =>
      match requestAnchor request, (request.get "input").bind Value.asArray with
      | some anchor, some input =>
          let candidates := groups.values.filter fun group =>
            group.requestAnchor = some anchor ∧ groupIsContinuedBy group input
          candidates.reverse.argmax (·.createdAt)
      | _, _ => none

/-! ## Retention -/

def isLive (now : Instant) (group : PendingNativeToolGroup) : Bool :=
  now - group.createdAt < pendingNativeGroupTtl

def pruneExpired (now : Instant) (state : NativePendingToolGroups) : NativePendingToolGroups where
  groups := state.groups.retain (isLive now ·.2)
  evicted := state.evicted ++
    (state.groups.entries.filter fun entry => ! isLive now entry.2).map Prod.fst

def trimToCapacity (state : NativePendingToolGroups) : NativePendingToolGroups :=
  if state.groups.len ≤ maxPendingNativeGroups then state
  else
    match _h : state.groups.entries.argmin (·.2.createdAt) with
    | none => state
    | some oldest =>
        trimToCapacity
          { groups := state.groups.remove oldest.1, evicted := state.evicted ++ [oldest.1] }
termination_by state.groups.len
decreasing_by
  have hlength := (BTreeMap.remove_perm (List.argmin_mem _h)).length_eq
  simp only [BTreeMap.len, List.length_cons] at *
  omega

namespace NativePendingToolGroups

def default : NativePendingToolGroups := { groups := BTreeMap.empty, evicted := [] }

def register (state : NativePendingToolGroups) (now : Instant) (group : PendingNativeToolGroup) :
    NativePendingToolGroups :=
  let live := pruneExpired now state
  trimToCapacity { live with groups := live.groups.insert group.responseId group }

def continuationFor (state : NativePendingToolGroups) (now : Instant) (request : Value) :
    Option NativePendingContinuation × NativePendingToolGroups :=
  let live := pruneExpired now state
  let continuation := match matchingGroup live.groups request with
    | none => none
    | some group => ((request.get "input").bind Value.asArray).map group.continuation
  (continuation, live)

def settle (state : NativePendingToolGroups) (responseId : Text) : NativePendingToolGroups :=
  { state with groups := state.groups.remove responseId }

def takeEvictions (state : NativePendingToolGroups) : List Text × NativePendingToolGroups :=
  (state.evicted, { state with evicted := [] })

/-- The hash of the first retained round under the request's anchor. -/
def hasRoundFor (shortHash : Text → Text) (state : NativePendingToolGroups) (request : Value) :
    Option Text :=
  (requestAnchor request).bind fun anchor =>
    (state.groups.values.find? fun group => group.requestAnchor = some anchor).map fun group =>
      shortHash group.responseId

end NativePendingToolGroups

end CodeSeeX.Native
