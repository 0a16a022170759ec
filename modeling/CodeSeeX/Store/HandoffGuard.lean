import CodeSeeX.Store.Segments

/-!
# The guard of client handoffs

The guard counts the tool calls that are handed to the client, turn by turn, and keeps the calls
whose output is not there yet. It is bounded: the oldest turns go with their pending calls. What it
tells the stored request is left to the operations of the store.
-/
namespace CodeSeeX.Store
open Context List Option

structure ClientHandoffFailureStreak where
  argumentsHash : Text
  failureSummaryHash : Option Text
  count : ℕ

structure ClientHandoffTurnState where
  handoffRequests : ℕ := 0
  toolCalls : ℕ := 0
  signatureCounts : HashMap Text ℕ := ∅
  failureStreaksByTool : HashMap Text ClientHandoffFailureStreak := ∅
  cumulativeInputTokens : ℕ := 0
  cumulativeTotalTokens : ℕ := 0
  updatedAt : Option DateTime := none

structure ClientHandoffPendingKey where
  turnKey : Text
  requestKey : Text
  callId : Text
deriving DecidableEq

structure ClientHandoffPendingCall where
  turnKey : Text
  name : Text
  argumentsHash : Text

abbrev PendingCalls := HashMap ClientHandoffPendingKey ClientHandoffPendingCall

structure ClientHandoffGuardState where
  turns : HashMap Text ClientHandoffTurnState := ∅
  pendingByKey : PendingCalls := ∅
  turnOrder : List Text := []

structure ClientToolHandoffCall where
  callId : Text
  name : Text
  arguments : Text

structure ClientHandoffOutputItem where
  callId : Text
  failed : Bool
  failureSummary : Option Text

def maxClientHandoffGuardTurns : ℕ := 128

def maxClientHandoffPendingCalls : ℕ := 512

/-- Saturating addition of `u32`. -/
def saturatingAdd32 (left right : ℕ) : ℕ := min (left + right) (2 ^ 32 - 1)

/-! ## The bounds -/

/-- The loop over the turns from the oldest on. -/
def dropTurns (guard : ClientHandoffGuardState) : List Text → ClientHandoffGuardState
  | [] => { guard with turnOrder := [] }
  | oldest :: rest =>
      if rest.length + 1 > maxClientHandoffGuardTurns then
        dropTurns { guard with
          turns := guard.turns.erase oldest
          pendingByKey := guard.pendingByKey.retain fun key pending =>
            key.turnKey ≠ oldest && pending.turnKey ≠ oldest } rest
      else { guard with turnOrder := oldest :: rest }

section
variable (crates : StoreCrates) (iterate : PendingCalls → List ClientHandoffPendingKey)
  (guard : ClientHandoffGuardState)

/-- A map of pending calls is listed in the order of `iterate`. -/
def pruneClientHandoffGuard : ClientHandoffGuardState :=
  let guard := dropTurns guard guard.turnOrder
  let excess := guard.pendingByKey.len - maxClientHandoffPendingCalls
  { guard with
    pendingByKey := (guard.pendingByKey.removeEach ((iterate guard.pendingByKey).take excess)).2 }

def ensureClientHandoffTurn (turnKey : Text) : ClientHandoffGuardState :=
  pruneClientHandoffGuard iterate <|
    if turnKey ∈ guard.turns then guard
    else { guard with
      turnOrder := guard.turnOrder ++ [turnKey]
      turns := guard.turns.insert turnKey {} }

/-! ## Requests and outputs -/

def clientHandoffTurnKey (input : Value) : Text :=
  let hashed (label text : Text) : Text := label ++ stableHashHex crates text.bytes
  ((((runtimeLatestUserSummary input).map (hashed "summary:")).or
    (((input.pointer ["_codeseex_runtime", "original_input_hash"]).bind Value.asStr).map
      (Text.lit "full_context:" ++ ·))).or
    ((((input.getStr "prompt_cache_key").map Text.trim).filter (· ≠ [])).map
      (hashed "prompt_cache:"))).or
    ((latestUserSummaryFromInput input).map (hashed "input:")) |>.getD (hashed "request:" input.print)

def clientHandoffPendingRequestKeys (requestId : Text) (input : Value) : List Text :=
  let keys := (((input.getStr "previous_response_id").map Text.trim).filter (· ≠ [])).toList
  if requestId.trim ≠ [] ∧ requestId ∉ keys then keys ++ [requestId] else keys

def uniqueClientHandoffPendingKeyForTurn (turnKey callId : Text) : Option ClientHandoffPendingKey :=
  match guard.pendingByKey.keys.filter fun key => key.turnKey = turnKey && key.callId = callId with
  | [first] => some first
  | _ => none

def clientHandoffOutputFailure (output : Value) : Bool × Option Text :=
  let status := (output.getStr "status").any fun status =>
    (status.trim.toAsciiLowercase : Text) ∈ (["failed", "error", "cancelled"] : List Text)
  if (output.get "ok").bind Value.asBool = some false ∨ (output.get "error").isSome ∨ status then
    (true, some (contentToText output))
  else
    let text := contentToText output
    let normalized := text.trim.toAsciiLowercase
    let failed := normalized.startsWith "error:" || normalized.startsWith "failed:" ||
      normalized.contains "apply_patch verification failed" ||
      normalized.contains "tool execution failed" ||
      normalized.contains "traceback (most recent call last)"
    (failed, if failed then some text else none)

def clientHandoffOutputItems (input : Value) : List ClientHandoffOutputItem :=
  let items := ((input.get "input").bind Value.asArray).getD []
  (items.filter fun item => (item.getStr "type").any fun type => type ∈
      (["function_call_output", "custom_tool_call_output", "tool_search_output"] : List Text)).filterMap
    fun item =>
      ((((item.get "call_id").or (item.get "tool_call_id")).or (item.get "id")).bind
        Value.asStr).map fun callId =>
          let output := (((item.get "output").or (item.get "content")).or (item.get "result")).getD
            .null
          let (failed, failureSummary) := clientHandoffOutputFailure output
          { callId, failed, failureSummary }

def compactClientHandoffFailureSummary (value : Text) : Option Text :=
  let text := (Text.join " " value.splitWhitespace).trim
  if text = [] then none
  else if text.length ≤ maxUsageSegmentSummaryChars then some text
  else some (text.take (maxUsageSegmentSummaryChars - 1) ++ Text.lit "...")

def clientHandoffFailureSummaryHash (value : Option Text) : Option Text :=
  (value.bind compactClientHandoffFailureSummary).map fun summary =>
    stableHashHex crates summary.bytes

def updateClientHandoffFailureStreak (state : ClientHandoffTurnState)
    (toolName argumentsHash : Text) (failureSummaryHash : Option Text) : ClientHandoffTurnState :=
  let count := (((state.failureStreaksByTool.lookup toolName).filter fun streak =>
    streak.argumentsHash = argumentsHash && streak.failureSummaryHash = failureSummaryHash).map
      fun streak => saturatingAdd32 streak.count 1).getD 1
  { state with failureStreaksByTool :=
      state.failureStreaksByTool.insert toolName { argumentsHash, failureSummaryHash, count } }

/-! ## Operations -/

/-- The turn state is there when it is read; without it the operation panics. -/
def settleOutput (now : DateTime) (requestId : Text) (input : Value)
    (guard : ClientHandoffGuardState) (output : ClientHandoffOutputItem) :
    Option ClientHandoffGuardState :=
  let turnKey := clientHandoffTurnKey crates input
  let callId := output.callId.trim
  let requestKeys := clientHandoffPendingRequestKeys requestId input
  let pendingKey :=
    (requestKeys.findSome? fun requestKey =>
      let key : ClientHandoffPendingKey := { turnKey, requestKey, callId }
      if key ∈ guard.pendingByKey then some key else none).or
      (uniqueClientHandoffPendingKeyForTurn guard turnKey callId)
  match pendingKey.bind fun key => (guard.pendingByKey.lookup key).map fun pending => (key, pending) with
  | none => some guard
  | some (pendingKey, pending) =>
      let effectiveTurnKey := if pending.turnKey = [] then turnKey else pending.turnKey
      let guard := ensureClientHandoffTurn iterate
        { guard with pendingByKey := guard.pendingByKey.erase pendingKey } effectiveTurnKey
      (guard.turns.lookup effectiveTurnKey).map fun state =>
        let state := { state with updatedAt := some now }
        let failureSummaryHash := clientHandoffFailureSummaryHash crates output.failureSummary
        let state :=
          if output.failed then
            updateClientHandoffFailureStreak state pending.name pending.argumentsHash failureSummaryHash
          else { state with failureStreaksByTool := state.failureStreaksByTool.erase pending.name }
        { guard with turns := guard.turns.insert effectiveTurnKey state }

def settleClientToolHandoffs (now : DateTime) (requestId : Text) (input : Value)
    (guard : ClientHandoffGuardState) : Option ClientHandoffGuardState :=
  let outputItems := clientHandoffOutputItems input
  if outputItems.isEmpty then some guard
  else outputItems.foldlM (settleOutput crates iterate now requestId input)
    (pruneClientHandoffGuard iterate guard)

def recordClientToolHandoffs (now : DateTime) (requestId : Text) (input : Value)
    (calls : List ClientToolHandoffCall) (usage : Option Value) (guard : ClientHandoffGuardState) :
    Option ClientHandoffGuardState :=
  if calls.isEmpty then some guard
  else
    let turnKey := clientHandoffTurnKey crates input
    let guard := ensureClientHandoffTurn iterate (pruneClientHandoffGuard iterate guard) turnKey
    let usage := usage.getD .null
    let usageInput := (firstU64 usage inputKeys).getD 0
    let usageTotal := (firstU64 usage ["total_tokens"]).getD
      (saturatingAdd usageInput ((firstU64 usage outputKeys).getD 0))
    let hash (call : ClientToolHandoffCall) := stableHashHex crates call.arguments.bytes
    (guard.turns.lookup turnKey).map fun state =>
      { guard with
        turns := guard.turns.insert turnKey { state with
          handoffRequests := saturatingAdd32 state.handoffRequests 1
          toolCalls := saturatingAdd32 state.toolCalls (min calls.length (2 ^ 32 - 1))
          cumulativeInputTokens := saturatingAdd state.cumulativeInputTokens usageInput
          cumulativeTotalTokens := saturatingAdd state.cumulativeTotalTokens usageTotal
          updatedAt := some now
          signatureCounts := calls.foldl (fun counts call =>
            let signature := call.name ++ Text.lit "\n" ++ hash call
            counts.insert signature (saturatingAdd32 ((counts.lookup signature).getD 0) 1))
            state.signatureCounts }
        pendingByKey := calls.foldl (fun pendingByKey call =>
          pendingByKey.insert { turnKey, requestKey := requestId, callId := call.callId }
            { turnKey, name := call.name, argumentsHash := hash call }) guard.pendingByKey }

inductive GuardOperation where
  | settle (requestId : Text) (input : Value)
  | record (requestId : Text) (input : Value) (calls : List ClientToolHandoffCall)
      (usage : Option Value)
  | preflight

def performGuard (guard : ClientHandoffGuardState) (now : DateTime) :
    GuardOperation → Option ClientHandoffGuardState
  | .settle requestId input => settleClientToolHandoffs crates iterate now requestId input guard
  | .record requestId input calls usage =>
      recordClientToolHandoffs crates iterate now requestId input calls usage guard
  | .preflight => some (pruneClientHandoffGuard iterate guard)

def runGuard (operations : List (DateTime × GuardOperation)) : Option ClientHandoffGuardState :=
  operations.foldlM (fun guard op => performGuard crates iterate guard op.1 op.2) {}

end

/-! ## The representation -/

/-- The order lists the turns once each, and every pending call is one of a turn. -/
structure Listed (turns : HashMap Text ClientHandoffTurnState) (pendingByKey : PendingCalls)
    (order : List Text) : Prop where
  nodup : order.Nodup
  lists : ∀ key, key ∈ order ↔ key ∈ turns
  pending : ∀ key ∈ pendingByKey, key.turnKey ∈ turns

structure Represents (guard : ClientHandoffGuardState) : Prop extends
    Listed guard.turns guard.pendingByKey guard.turnOrder where
  bounded : guard.turnOrder.length ≤ maxClientHandoffGuardTurns

section
variable {guard : ClientHandoffGuardState} {order : List Text}

/-- The newest turns stay. -/
theorem turnOrder_dropTurns (guard : ClientHandoffGuardState) (order : List Text) :
    (dropTurns guard order).turnOrder = order.drop (order.length - maxClientHandoffGuardTurns) := by
  induction order generalizing guard with
  | nil => rfl
  | cons oldest rest ih =>
    rw [dropTurns]
    split_ifs with hlong
    · rw [ih, length_cons, Nat.succ_sub (by omega), drop_succ_cons]
    · rw [length_cons, Nat.sub_eq_zero_of_le (by omega), drop_zero]

theorem Listed.dropTurns (h : Listed guard.turns guard.pendingByKey order) :
    Listed (dropTurns guard order).turns (Store.dropTurns guard order).pendingByKey
      (Store.dropTurns guard order).turnOrder := by
  induction order generalizing guard with
  | nil => exact h
  | cons oldest rest ih =>
    rw [Store.dropTurns]
    split_ifs with hlong
    · obtain ⟨hnew, hnodup⟩ := nodup_cons.mp h.nodup
      refine ih ⟨hnodup, fun key => ?_, fun key hkey => ?_⟩
      · rw [AList.mem_erase, ← h.lists, mem_cons]
        constructor
        · intro hmem
          exact ⟨fun heq => hnew (heq ▸ hmem), .inr hmem⟩
        · exact fun hmem => hmem.2.resolve_left hmem.1
      · rw [← AList.lookup_isSome, HashMap.lookup_retain, isSome_filter] at hkey
        obtain ⟨pending, hlook, hkept⟩ := (any_eq_true _ _).mp hkey
        simp only [Bool.and_eq_true, decide_eq_true_eq] at hkept
        rw [AList.mem_erase]
        exact ⟨hkept.1, h.pending key (AList.lookup_isSome.mp (by rw [hlook]; rfl))⟩
    · exact h

variable {iterate : PendingCalls → List ClientHandoffPendingKey}

theorem Listed.prune (h : Listed guard.turns guard.pendingByKey guard.turnOrder) :
    Represents (pruneClientHandoffGuard iterate guard) := by
  rw [pruneClientHandoffGuard]
  generalize maxClientHandoffPendingCalls = limit
  refine ⟨⟨h.dropTurns.nodup, h.dropTurns.lists, fun key hkey => ?_⟩, ?_⟩
  · obtain ⟨pending, hlook⟩ := isSome_iff_exists.mp (AList.lookup_isSome.mpr hkey)
    have hold := ((HashMap.lookup_removeEach _ _).mp hlook).1
    exact h.dropTurns.pending key (AList.lookup_isSome.mp (by rw [hold]; rfl))
  · dsimp only
    rw [turnOrder_dropTurns, length_drop]
    omega

theorem turnOrder_prune (guard : ClientHandoffGuardState) :
    (pruneClientHandoffGuard iterate guard).turnOrder =
      guard.turnOrder.drop (guard.turnOrder.length - maxClientHandoffGuardTurns) := by
  rw [pruneClientHandoffGuard]
  exact turnOrder_dropTurns guard guard.turnOrder

/-- A turn is there after it was ensured, also when others had to go. -/
theorem Represents.ensure (h : Represents guard) (turnKey : Text) :
    Represents (ensureClientHandoffTurn iterate guard turnKey) ∧
      turnKey ∈ (ensureClientHandoffTurn iterate guard turnKey).turns := by
  have hbound := h.bounded
  rw [ensureClientHandoffTurn]
  split_ifs with hmem
  · have hpruned := @Listed.prune guard iterate h.toListed
    refine ⟨hpruned, (hpruned.lists turnKey).mp ?_⟩
    rw [turnOrder_prune, Nat.sub_eq_zero_of_le hbound, drop_zero]
    exact (h.lists turnKey).mpr hmem
  · have hlisted : Listed (guard.turns.insert turnKey {}) guard.pendingByKey
        (guard.turnOrder ++ [turnKey]) := by
      refine ⟨?_, fun key => ?_, fun key hkey => ?_⟩
      · rw [← concat_eq_append, nodup_concat]
        exact ⟨fun hlisted => hmem ((h.lists turnKey).mp hlisted), h.nodup⟩
      · rw [mem_append, mem_singleton, AList.mem_insert, h.lists, or_comm]
      · rw [AList.mem_insert]
        exact .inr (h.pending key hkey)
    have hpruned := @Listed.prune ⟨guard.turns.insert turnKey {}, guard.pendingByKey,
      guard.turnOrder ++ [turnKey]⟩ iterate hlisted
    refine ⟨hpruned, (hpruned.lists turnKey).mp ?_⟩
    have hlength : (guard.turnOrder ++ [turnKey]).length - maxClientHandoffGuardTurns ≤
        guard.turnOrder.length := by
      rw [length_append, length_singleton]
      have hpos : 0 < maxClientHandoffGuardTurns := by decide
      omega
    rw [turnOrder_prune, drop_append_of_le_length hlength]
    exact mem_append_right _ (mem_singleton_self turnKey)

/-- A turn that is listed may change its state, and its calls may be pending. -/
theorem Represents.update (h : Represents guard) {turnKey : Text} (hturn : turnKey ∈ guard.turns)
    (state : ClientHandoffTurnState) {pendingByKey : PendingCalls}
    (hpending : ∀ key ∈ pendingByKey, key ∈ guard.pendingByKey ∨ key.turnKey = turnKey) :
    Represents { guard with turns := guard.turns.insert turnKey state, pendingByKey } where
  nodup := h.nodup
  bounded := h.bounded
  lists := by
    intro key
    rw [h.lists, AList.mem_insert, or_iff_right_of_imp]
    rintro rfl
    exact hturn
  pending := by
    intro key hkey
    rw [AList.mem_insert]
    obtain hold | hnew := hpending key hkey
    · exact .inr (h.pending key hold)
    · exact .inl hnew

variable {crates : StoreCrates}

theorem Represents.settleOutput (h : Represents guard) (now : DateTime) (requestId : Text)
    (input : Value) (output : ClientHandoffOutputItem) : ∃ next,
      settleOutput crates iterate now requestId input guard output = some next ∧
        Represents next := by
  rw [Store.settleOutput]
  dsimp only
  split
  · exact ⟨guard, rfl, h⟩
  next pendingKey pending _ =>
  have herased : Represents { guard with pendingByKey := guard.pendingByKey.erase pendingKey } :=
    ⟨⟨h.nodup, h.lists, fun key hkey => h.pending key (AList.mem_erase.mp hkey).2⟩, h.bounded⟩
  obtain ⟨hensured, hturn⟩ := @Represents.ensure _ iterate herased
    (if pending.turnKey = [] then clientHandoffTurnKey crates input else pending.turnKey)
  obtain ⟨state, hstate⟩ := isSome_iff_exists.mp (AList.lookup_isSome.mpr hturn)
  rw [hstate]
  exact ⟨_, rfl, hensured.update hturn _ fun _ hkey => .inl hkey⟩

theorem Represents.record (h : Represents guard) (now : DateTime) (requestId : Text)
    (input : Value) (calls : List ClientToolHandoffCall) (usage : Option Value) : ∃ next,
      recordClientToolHandoffs crates iterate now requestId input calls usage guard = some next ∧
        Represents next := by
  rw [recordClientToolHandoffs]
  split_ifs with hcalls
  · exact ⟨guard, rfl, h⟩
  obtain ⟨hensured, hturn⟩ := @Represents.ensure _ iterate (@Listed.prune _ iterate h.toListed)
    (clientHandoffTurnKey crates input)
  obtain ⟨state, hstate⟩ := isSome_iff_exists.mp (AList.lookup_isSome.mpr hturn)
  dsimp only
  rw [hstate]
  refine ⟨_, rfl, hensured.update hturn _ ?_⟩
  generalize (ensureClientHandoffTurn iterate _ _).pendingByKey = before
  clear hcalls
  induction calls using reverseRecOn with
  | nil => exact fun key hkey => .inl hkey
  | append_singleton calls call ih =>
    intro key hkey
    rw [foldl_append] at hkey
    obtain rfl | hkey := (AList.mem_insert _).mp hkey
    · exact .inr rfl
    · exact ih key hkey

theorem represents_foldlM {α : Type} {step : ClientHandoffGuardState → α →
    Option ClientHandoffGuardState} (items : List α)
    (hstep : ∀ guard item, Represents guard → ∃ next, step guard item = some next ∧ Represents next)
    (h : Represents guard) : ∃ next, items.foldlM step guard = some next ∧ Represents next := by
  induction items generalizing guard with
  | nil => exact ⟨guard, rfl, h⟩
  | cons item items ih =>
    obtain ⟨next, heq, hnext⟩ := hstep guard item h
    rw [foldlM_cons, heq]
    exact ih hnext

theorem Represents.perform (h : Represents guard) (now : DateTime) (op : GuardOperation) :
    ∃ next, performGuard crates iterate guard now op = some next ∧ Represents next := by
  cases op with
  | settle requestId input =>
    rw [performGuard, settleClientToolHandoffs]
    split_ifs
    · exact ⟨guard, rfl, h⟩
    · exact represents_foldlM _ (fun guard output h => h.settleOutput now requestId input output)
        h.toListed.prune
  | record requestId input calls usage => exact h.record now requestId input calls usage
  | preflight => exact ⟨_, rfl, h.toListed.prune⟩

end

/-- Every run of the guard goes through, and the order of its turns represents them. -/
theorem guard_represented (crates : StoreCrates)
    (iterate : PendingCalls → List ClientHandoffPendingKey)
    (operations : List (DateTime × GuardOperation)) :
    ∃ guard, runGuard crates iterate operations = some guard ∧ Represents guard := by
  refine represents_foldlM operations (fun guard op h => h.perform op.1 op.2) ⟨⟨?_, ?_, ?_⟩, ?_⟩
  · exact nodup_nil
  · exact fun key => iff_of_false not_mem_nil (AList.notMem_empty key)
  · exact fun key hkey => absurd hkey (AList.notMem_empty key)
  · exact Nat.zero_le _

end CodeSeeX.Store
