import CodeSeeX.Proxy.ResponseItems

/-!
# Tool calls in a stream

The deltas of a turn name their calls piece by piece. One side collects the calls of the turn;
the other announces a call for the client as soon as its id and its name are there, in the
output slot that is free at that moment, and finds it again when the call is handed over. The
deltas of arguments that the second side sends on are left out.
-/
namespace CodeSeeX.StreamToolCalls
open Tools

/-! ## The calls of a turn -/

structure StreamingToolCallState where
  id : Text := []
  name : Text := []
  arguments : Text := []

/-- `tool_states` and `last_tool_index` of a turn. -/
structure ToolStates where
  states : BTreeMap ℕ StreamingToolCallState := BTreeMap.empty
  lastToolIndex : ℕ := 0

/-- The entries under `tool_calls` of a delta. -/
def deltaToolCalls (delta : Value) : List Value :=
  ((delta.get "tool_calls").bind Value.asArray).getD []

def callIndex (call : Value) (lastToolIndex : ℕ) : ℕ :=
  ((call.get "index").bind Value.asU64).getD lastToolIndex

/-- The texts that an entry has for a call: the id, and the pieces of the name and of the
arguments. -/
structure CallPieces where
  id : Option Text
  name : Option Text
  arguments : Option Text

def callPieces (call : Value) : CallPieces where
  id := call.getStr "id"
  name := (call.get "function").bind fun function => function.getStr "name"
  arguments := (call.get "function").bind fun function => function.getStr "arguments"

def ToolStates.collect (toolStates : ToolStates) (call : Value) : ToolStates :=
  let index := callIndex call toolStates.lastToolIndex
  let state := (toolStates.states.get index).getD {}
  let pieces := callPieces call
  { states := toolStates.states.insert index {
      id := pieces.id.getD state.id
      name := state.name ++ pieces.name.getD []
      arguments := state.arguments ++ pieces.arguments.getD [] }
    lastToolIndex := index }

def collectStreamingToolCallDeltas (delta : Value) (toolStates : ToolStates) : ToolStates :=
  (deltaToolCalls delta).foldl ToolStates.collect toolStates

/-- The calls that the adapter of the upstream found, behind all others. The index behind the last
key is free; behind `u64::MAX` the source finds none, here an index has no bound. -/
def insertStreamingToolCalls (calls : List ChatToolCall) (toolStates : ToolStates) : ToolStates :=
  calls.foldl (fun toolStates call =>
    let nextIndex := (toolStates.states.keys.getLast?).getD toolStates.lastToolIndex + 1
    { states := toolStates.states.insert nextIndex ⟨call.id, call.name, call.arguments⟩
      lastToolIndex := nextIndex }) toolStates

/-- The calls of a turn; one without an id gets a fresh one. -/
def streamingToolCalls (uuid : ℕ → Text) (toolStates : ToolStates) : List ChatToolCall :=
  let named := toolStates.states.entries.filter fun (_, state) => !state.name.isBlank
  named.map fun (index, state) =>
    { id := if state.id.isBlank then ("call_" : Text) ++ uuid index else state.id
      name := state.name
      arguments := if state.arguments.isBlank then "\x7b\x7d" else state.arguments }

/-! ## Calls that are announced -/

inductive VisibleToolKind where
  | nativeApplyPatch
  | externalFunction
  | codexToolSearch
  deriving DecidableEq

/-- What is set together when a call is announced: `kind`, `item_id` and `output_index`. -/
structure StartedTool where
  kind : VisibleToolKind
  itemId : Text
  outputIndex : ℕ

structure VisibleToolState where
  id : Text := []
  name : Text := []
  started : Option StartedTool := none

structure StreamingVisibleToolBridge where
  states : BTreeMap ℕ VisibleToolState := BTreeMap.empty
  lastToolIndex : ℕ := 0

/-- The kind under which a call is announced, if it is one for the client. -/
def visibleKind (toolContext : ToolContext) (name : Text) : Option VisibleToolKind :=
  if isNativeApplyPatchTool name then some .nativeApplyPatch
  else if toolContext.hasExternalTool name then
    if toolContext.isCodexToolSearchTool name then some .codexToolSearch
    else some .externalFunction
  else none

def itemIdStart : VisibleToolKind → Text
  | .nativeApplyPatch => "ctc_"
  | _ => "fc_"

/-- `custom_tool_call_sse_added` -/
def customToolCallAdded (item : Value) : Value :=
  .object [
    ("call_id", (item.get "call_id").getD .null), ("id", (item.get "id").getD .null),
    ("input", .string []), ("name", (item.get "name").getD .null), ("status", .string "in_progress"),
    ("type", .string "custom_tool_call")]

/-- `function_call_sse_added` -/
def functionCallAdded (item : Value) : Value :=
  ToolContext.setSome (.object [
    ("arguments", .string []), ("call_id", (item.get "call_id").getD .null),
    ("id", (item.get "id").getD .null), ("name", (item.get "name").getD .null),
    ("status", .string "in_progress"), ("type", .string "function_call")])
    "namespace" (item.get "namespace")

/-- The item with another status. -/
def inProgress (item : Value) : Value := item.set "status" (.string "in_progress")

/-- The item with which a call is announced. -/
def announcedItem (texts : ItemTexts) (toolContext : ToolContext) (id name : Text)
    (started : StartedTool) : Value :=
  let item := toolContext.responseItemFromChatCallWithId texts ⟨id, name, []⟩ started.itemId
  match started.kind with
  | .nativeApplyPatch => customToolCallAdded (.object [
      ("call_id", .string id), ("id", .string started.itemId), ("input", .string []),
      ("name", .string "apply_patch"), ("status", .string "completed"),
      ("type", .string "custom_tool_call")])
  | .externalFunction => functionCallAdded item
  | .codexToolSearch => inProgress item

namespace StreamingVisibleToolBridge

/-- `start_if_visible` for an item id and the next output slot. -/
def startIfVisible (toolContext : ToolContext) (state : VisibleToolState) (itemId : Text)
    (outputIndex : ℕ) : Option StartedTool :=
  if state.id.isBlank || state.name.isBlank then none
  else (visibleKind toolContext state.name).map fun kind =>
    ⟨kind, itemIdStart kind ++ itemId, outputIndex⟩

/-- One entry of a delta: the bridge, and the call that it announces. -/
def processCall (toolContext : ToolContext) (bridge : StreamingVisibleToolBridge)
    (call : Value) (itemId : Text) (outputIndex : ℕ) :
    StreamingVisibleToolBridge × Option (Text × Text × StartedTool) :=
  let index := callIndex call bridge.lastToolIndex
  let state := (bridge.states.get index).getD {}
  let pieces := callPieces call
  let state := { state with
    id := pieces.id.getD state.id
    name := state.name ++ pieces.name.getD [] }
  let started := if state.started.isNone
    then startIfVisible toolContext state itemId outputIndex else none
  ({ states := bridge.states.insert index { state with started := state.started.or started }
     lastToolIndex := index },
    started.map fun started => (state.id, state.name, started))

/-- `find_state_mut`: the first call of the kind with this id and this name that was announced. -/
def findState (bridge : StreamingVisibleToolBridge) (call : ChatToolCall) (kind : VisibleToolKind) :
    Option StartedTool :=
  ((bridge.states.values.find? fun state =>
    state.id = call.id && state.name = call.name &&
      state.started.any fun started => started.kind = kind)).bind VisibleToolState.started

/-- The calls that were announced. -/
def announced (bridge : StreamingVisibleToolBridge) : List StartedTool :=
  bridge.states.values.filterMap VisibleToolState.started

end StreamingVisibleToolBridge

end CodeSeeX.StreamToolCalls
