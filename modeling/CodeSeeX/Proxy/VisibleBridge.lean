import CodeSeeX.Proxy.PatchStream
import CodeSeeX.Proxy.StreamToolCalls

/-!
# The events of streamed calls

The bridge to the client announces a call of the client while its pieces still arrive, sends on
the arguments as they come and closes the call when it is handed over. The events that it yields
are those of one turn of the upstream; a call that was not announced gets all its events when it
is handed over.
-/
namespace CodeSeeX.VisibleBridge
open Tools StreamToolCalls PatchStream

/-! ## Events -/

/-- What numbers the events of a response, and the number of the next fresh id. -/
structure Counters where
  outputIndex : ℕ := 0
  sequence : ℕ := 0
  fresh : ℕ := 0

/-- `*output_index += 1`, with the fresh id that goes with a slot. -/
def Counters.nextSlot (counters : Counters) : Counters :=
  { counters with outputIndex := counters.outputIndex + 1, fresh := counters.fresh + 1 }

/-- The counters behind some events that take their numbers one after the other. -/
def Counters.emit (counters : Counters) (count : ℕ) : Counters :=
  { counters with sequence := counters.sequence + count }

def natValue (n : ℕ) : Value := .number (.posInt (UInt64.ofNat n))

/-- `response.output_item.added` and `response.output_item.done`, by their type. -/
def outputItemEvent (type responseId : Text) (outputIndex : ℕ) (item : Value) (sequence : ℕ) :
    Value :=
  .object [
    ("item", item), ("output_index", natValue outputIndex), ("response_id", .string responseId),
    ("sequence_number", natValue sequence), ("type", .string type)]

def outputItemAdded : Text → ℕ → Value → ℕ → Value := outputItemEvent "response.output_item.added"

def outputItemDone : Text → ℕ → Value → ℕ → Value := outputItemEvent "response.output_item.done"

/-- The event for a part of the input or of the arguments of a call, by its type. -/
def deltaEvent (type responseId itemId : Text) (outputIndex : ℕ) (delta : Text) (sequence : ℕ) :
    Value :=
  .object [
    ("delta", .string delta), ("item_id", .string itemId), ("output_index", natValue outputIndex),
    ("response_id", .string responseId), ("sequence_number", natValue sequence),
    ("type", .string type)]

def customToolInputDelta : Text → Text → ℕ → Text → ℕ → Value :=
  deltaEvent "response.custom_tool_call_input.delta"

def functionArgumentsDelta : Text → Text → ℕ → Text → ℕ → Value :=
  deltaEvent "response.function_call_arguments.delta"

/-- `custom_tool_call_sse_done` -/
def customToolCallDone (responseId : Text) (outputIndex : ℕ) (item : Value) (sequence : ℕ) :
    List Value :=
  [.object [
    ("input", (item.get "input").getD .null), ("item_id", (item.get "id").getD .null),
    ("output_index", natValue outputIndex), ("response_id", .string responseId),
    ("sequence_number", natValue (sequence + 1)),
    ("type", .string "response.custom_tool_call_input.done")],
  outputItemDone responseId outputIndex item (sequence + 2)]

/-- `function_call_sse_done` -/
def functionCallDone (responseId : Text) (outputIndex : ℕ) (item : Value) (sequence : ℕ) :
    List Value :=
  [ToolContext.setSome (.object [
    ("arguments", (item.get "arguments").getD .null), ("item_id", (item.get "id").getD .null),
    ("name", (item.get "name").getD .null), ("output_index", natValue outputIndex),
    ("response_id", .string responseId), ("sequence_number", natValue (sequence + 1)),
    ("type", .string "response.function_call_arguments.done")])
    "namespace" (item.get "namespace"),
  outputItemDone responseId outputIndex item (sequence + 2)]

/-! ## States -/

/-- The state of a call with all that it keeps; what is consumed of the arguments is counted in
characters. -/
structure VisibleToolState extends StreamToolCalls.VisibleToolState where
  arguments : Text := []
  consumedArguments : ℕ := 0
  patchExtractor : JsonStringFieldExtractor := {}
  patchNormalizer : PatchStreamNormalizer := {}
  emittedInput : Text := []

structure StreamingVisibleToolBridge where
  states : BTreeMap ℕ VisibleToolState := BTreeMap.empty
  lastToolIndex : ℕ := 0

section
variable (texts : ItemTexts) (uuid : ℕ → Text) (responseId : Text)
  (toolContext : ToolContext)

namespace VisibleToolState

/-- The call is announced if its id and its name are there and the tool is the client's. -/
def startIfVisible (state : VisibleToolState) (counters : Counters) :
    VisibleToolState × Counters × List Value :=
  match StreamToolCalls.StreamingVisibleToolBridge.startIfVisible toolContext
    state.toVisibleToolState (uuid counters.fresh) counters.outputIndex with
  | none => (state, counters, [])
  | some started =>
      ({ state with started := some started }, counters.nextSlot.emit 1,
        [outputItemAdded responseId started.outputIndex
          (announcedItem texts toolContext state.id state.name started)
          (counters.sequence + 1)])

/-- What arrived of the arguments since the last time is sent on. -/
def emitArgumentDelta (state : VisibleToolState) (counters : Counters) :
    VisibleToolState × Counters × List Value :=
  if state.arguments.length ≤ state.consumedArguments then (state, counters, [])
  else match state.started with
    | none => (state, counters, [])
    | some started =>
        let chunk := state.arguments.drop state.consumedArguments
        let state := { state with consumedArguments := state.arguments.length }
        match started.kind with
        | .nativeApplyPatch =>
            let (extractor, decoded) := state.patchExtractor.feed chunk
            let (normalizer, normalized) := state.patchNormalizer.feed decoded
            let state := { state with patchExtractor := extractor, patchNormalizer := normalizer }
            if normalized = [] then (state, counters, [])
            else
              ({ state with emittedInput := state.emittedInput ++ normalized }, counters.emit 1,
                [customToolInputDelta responseId started.itemId started.outputIndex normalized
                  (counters.sequence + 1)])
        | .externalFunction =>
            if chunk = [] then (state, counters, [])
            else
              ({ state with emittedInput := state.emittedInput ++ chunk }, counters.emit 1,
                [functionArgumentsDelta responseId started.itemId started.outputIndex chunk
                  (counters.sequence + 1)])
        | .codexToolSearch =>
            ({ state with emittedInput := state.emittedInput ++ chunk }, counters, [])

/-- The pieces of a call are taken up. -/
def take (state : VisibleToolState) (pieces : CallPieces) : VisibleToolState :=
  { state with
    id := pieces.id.getD state.id
    name := state.name ++ pieces.name.getD []
    arguments := state.arguments ++ pieces.arguments.getD [] }

/-- One entry of a delta, for the call that it is about. -/
def process (state : VisibleToolState) (pieces : CallPieces) (counters : Counters) :
    VisibleToolState × Counters × List Value :=
  let state := state.take pieces
  let (state, counters, added) :=
    if state.started.isNone then
      state.startIfVisible texts uuid responseId toolContext counters
    else (state, counters, [])
  let (state, counters, deltas) :=
    if pieces.arguments.isSome || decide (state.consumedArguments < state.arguments.length) then
      state.emitArgumentDelta responseId counters
    else (state, counters, [])
  (state, counters, added ++ deltas)

end VisibleToolState

namespace StreamingVisibleToolBridge

/-- One entry of a delta; its events come with the index of the call that they are about. -/
def processCall (bridge : StreamingVisibleToolBridge) (counters : Counters) (call : Value) :
    StreamingVisibleToolBridge × Counters × List (ℕ × Value) :=
  let index := callIndex call bridge.lastToolIndex
  let (state, counters, events) := ((bridge.states.get index).getD {}).process texts uuid responseId
    toolContext (callPieces call) counters
  ({ states := bridge.states.insert index state, lastToolIndex := index }, counters,
    events.map fun event => (index, event))

def processCalls (bridge : StreamingVisibleToolBridge) (counters : Counters) :
    List Value → StreamingVisibleToolBridge × Counters × List (ℕ × Value)
  | [] => (bridge, counters, [])
  | call :: calls =>
      let (bridge, counters, events) :=
        bridge.processCall texts uuid responseId toolContext counters call
      let (bridge, counters, later) := processCalls bridge counters calls
      (bridge, counters, events ++ later)

def processDelta (bridge : StreamingVisibleToolBridge) (counters : Counters) (delta : Value) :
    StreamingVisibleToolBridge × Counters × List (ℕ × Value) :=
  bridge.processCalls texts uuid responseId toolContext counters (deltaToolCalls delta)

/-- The call was announced under this kind, with the id and the name of the call. -/
def isStateOf (call : ChatToolCall) (kind : VisibleToolKind) (state : VisibleToolState) : Bool :=
  state.id = call.id && state.name = call.name &&
    state.started.any fun started => started.kind = kind

variable (bridge : StreamingVisibleToolBridge) (call : ChatToolCall) (counters : Counters)

/-- `find_state_mut`, with the index at which the state is. -/
def findStateMut (kind : VisibleToolKind) : Option (ℕ × VisibleToolState) :=
  bridge.states.entries.find? fun (_, state) => isStateOf call kind state

/-- A finished call: the bridge and the counters behind it, its item and its events. -/
structure FinishedVisibleTool where
  bridge : StreamingVisibleToolBridge
  counters : Counters
  item : Value
  events : List Value

def finishNativeApplyPatch : Option FinishedVisibleTool := do
  let (index, state) ← bridge.findStateMut call .nativeApplyPatch
  let started ← state.started
  let item := Native.nativeApplyPatchResponseItemFromChatCallWithId texts.fromStr call.id
    call.arguments started.itemId
  let finalInput := (item.getStr "input").getD []
  let (normalizer, flushed) := state.patchNormalizer.finish
  let flushes := flushed ≠ [] ∧ state.emittedInput ++ flushed <+: finalInput
  let parts := if flushes then [flushed] else []
  let emittedInput := state.emittedInput ++ parts.flatten
  let rest := (Native.stripStart emittedInput finalInput).getD []
  let parts := parts ++ (if rest = [] then [] else [rest])
  let deltas := parts.mapIdx fun place delta =>
    customToolInputDelta responseId started.itemId started.outputIndex delta
      (counters.sequence + place + 1)
  let counters := counters.emit parts.length
  let state :=
    { state with patchNormalizer := normalizer, emittedInput := emittedInput ++ rest }
  some {
    bridge := { bridge with states := bridge.states.insert index state }
    counters := counters.emit 2
    item := item
    events := deltas ++
      customToolCallDone responseId started.outputIndex item counters.sequence }

def finishExternalFunction : Option FinishedVisibleTool := do
  let (index, state) ← bridge.findStateMut call .externalFunction
  let started ← state.started
  let item := toolContext.responseItemFromChatCallWithId texts call started.itemId
  let rest := (Native.stripStart state.emittedInput call.arguments).getD []
  let deltas := if rest = [] then []
    else [functionArgumentsDelta responseId started.itemId started.outputIndex rest
      (counters.sequence + 1)]
  let counters := counters.emit deltas.length
  let state := { state with emittedInput := state.emittedInput ++ rest }
  some {
    bridge := { bridge with states := bridge.states.insert index state }
    counters := counters.emit 2
    item := item
    events := deltas ++ functionCallDone responseId started.outputIndex item counters.sequence }

def finishCodexToolSearch : Option FinishedVisibleTool := do
  let (_, state) ← bridge.findStateMut call .codexToolSearch
  let started ← state.started
  let item := toolContext.responseItemFromChatCallWithId texts call started.itemId
  some {
    bridge := bridge
    counters := counters.emit 1
    item := item
    events := [outputItemDone responseId started.outputIndex item (counters.sequence + 1)] }

/-! ## The handover of a call -/

def nativeApplyPatchClientToolSseEvents : FinishedVisibleTool :=
  match bridge.finishNativeApplyPatch texts responseId call counters with
  | some finished => finished
  | none =>
      let item := nativeApplyPatchResponseItemFromChatCall texts (uuid counters.fresh) call
      let input := (item.getStr "input").getD []
      let deltas := if input = [] then []
        else [customToolInputDelta responseId ((item.getStr "id").getD []) counters.outputIndex input
          (counters.sequence + 2)]
      let sequence := counters.sequence + 1 + deltas.length
      { bridge := bridge
        counters := counters.nextSlot.emit (1 + deltas.length + 2)
        item := item
        events := outputItemAdded responseId counters.outputIndex (customToolCallAdded item)
          (counters.sequence + 1) :: deltas ++
          customToolCallDone responseId counters.outputIndex item sequence }

/-- A search for tools that was not announced. -/
def wholeCodexToolSearch : FinishedVisibleTool :=
  let item := toolContext.responseItemFromChatCall texts (uuid counters.fresh) call
  { bridge := bridge
    counters := counters.nextSlot.emit 2
    item := item
    events := [
      outputItemAdded responseId counters.outputIndex (inProgress item) (counters.sequence + 1),
      outputItemDone responseId counters.outputIndex item (counters.sequence + 2)] }

/-- A call of a function that was not announced. -/
def wholeExternalFunction : FinishedVisibleTool :=
  let item := toolContext.responseItemFromChatCall texts (uuid counters.fresh) call
  let deltas := if call.arguments = [] then []
    else [functionArgumentsDelta responseId ((item.getStr "id").getD []) counters.outputIndex
      call.arguments (counters.sequence + 2)]
  let sequence := counters.sequence + 1 + deltas.length
  { bridge := bridge
    counters := counters.nextSlot.emit (1 + deltas.length + 2)
    item := item
    events := outputItemAdded responseId counters.outputIndex (functionCallAdded item)
      (counters.sequence + 1) :: deltas ++
      functionCallDone responseId counters.outputIndex item sequence }

def externalClientToolSseEvents : FinishedVisibleTool :=
  if toolContext.isCodexToolSearchTool call.name then
    match bridge.finishCodexToolSearch texts responseId toolContext call counters with
    | some finished => finished
    | none => bridge.wholeCodexToolSearch texts uuid responseId toolContext call counters
  else
    match bridge.finishExternalFunction texts responseId toolContext call counters with
    | some finished => finished
    | none => bridge.wholeExternalFunction texts uuid responseId toolContext call counters

end StreamingVisibleToolBridge

end

end CodeSeeX.VisibleBridge
