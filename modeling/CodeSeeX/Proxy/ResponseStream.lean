import CodeSeeX.Proxy.StreamToolCalls
import CodeSeeX.Proxy.ToolLoop
import CodeSeeX.Proxy.ToolProtocol

/-!
# The streamed response

`response_stream_from_chat`: the deltas of a completion are sent on as they come, its calls are
run, and the next completion is streamed behind. Of the events, those that announce and close
output items, the deltas of text and the end of the stream are kept.
-/
namespace CodeSeeX.ResponseStream
open Checks Tools ToolLoop StreamToolCalls

/-! ## Events and variables -/

inductive StreamEvent where
  | itemAdded (outputIndex : ℕ) (item : Value)
  | textDelta (itemId : Text) (outputIndex : ℕ) (delta : Text)
  | itemDone (outputIndex : ℕ) (item : Value)
  | failed (code message : Text)
  | completed (output : List Value)

/-- The parsed chunks of a completion, and the error that ended it, if one did. -/
structure ChatStream where
  chunks : List Value
  failure : Option Text := none

/-- What the stream is given besides; the answers of the upstream are streams. -/
structure StreamContext extends LoopContext where
  adaptDeepseekToolProtocol : Bool
  autoCompaction : Option Value
  streamChatCompletions : ℕ → Value → Except Text ChatStream

/-- The variables of the whole stream; `events` is what was yielded. -/
structure StreamVars where
  payload : Value
  seen : BTreeMap Text ℕ := BTreeMap.empty
  diagnostics : ToolLoopDiagnostics := ToolLoopDiagnostics.new
  outputIndex : ℕ := 0
  output : List Value := []
  events : List StreamEvent := []

/-- The variables of an iteration; `fresh` is the number of the next fresh id. -/
structure TurnVars extends StreamVars where
  iteration : ℕ
  fresh : ℕ := 1
  turnItemId : Text
  turnOutputIndex : Option ℕ := none
  turnOutputOpen : Bool := false
  turnOutputClosed : Bool := false
  turnText : Text := []
  turnReasoning : Text := []
  reasoningClosed : Bool := false
  toolStates : ToolStates := {}
  contentBuffer : Text := []
  reasoningBuffer : Text := []
  visibleToolBridge : StreamingVisibleToolBridge := {}

namespace TurnVars

def start (context : StreamContext) (iteration : ℕ) (vars : StreamVars) : TurnVars :=
  { vars with iteration, turnItemId := ("msg_" : Text) ++ context.uuid iteration 0 }

/-- An item is announced and closed in the next slot. -/
def pushWhole (turn : TurnVars) (added item : Value) : TurnVars :=
  { turn with
    outputIndex := turn.outputIndex + 1
    output := turn.output ++ [item]
    events := turn.events ++
      [.itemAdded turn.outputIndex added, .itemDone turn.outputIndex item] }

end TurnVars

/-! ## Messages and reasoning -/

/-- The item with which reasoning is announced. -/
def reasoningAdded (item : Value) : Value :=
  .object [("id", (item.get "id").getD .null), ("status", .string "in_progress"),
    ("summary", .array []), ("type", .string "reasoning")]

def messageAdded (itemId phase : Text) : Value :=
  .object [("content", .array []), ("id", .string itemId), ("phase", .string phase),
    ("role", .string "assistant"), ("status", .string "in_progress"), ("type", .string "message")]

/-- The item of `streaming_message_done_sse_events`. -/
def streamedMessageItem (itemId phase text : Text) : Value :=
  .object [
    ("content", .array [.object [
      ("annotations", .array []), ("text", .string text), ("type", .string "output_text")]]),
    ("id", .string itemId), ("phase", .string phase), ("role", .string "assistant"),
    ("status", .string "completed"), ("type", .string "message")]

section
variable (context : StreamContext)

def closeReasoningIfNeeded (turn : TurnVars) : TurnVars :=
  if !turn.reasoningClosed && !turn.turnReasoning.isEmpty then
    let item := reasoningResponseItem context.texts (context.uuid turn.iteration turn.fresh)
      turn.turnReasoning
    { turn.pushWhole (reasoningAdded item) item with
      fresh := turn.fresh + 1
      reasoningClosed := true }
  else turn

def closeContentIfNeeded (phase : Text) (turn : TurnVars) : TurnVars :=
  if turn.turnOutputOpen && !turn.turnOutputClosed then
    let item := streamedMessageItem turn.turnItemId phase turn.turnText
    { turn with
      output := turn.output ++ [item]
      events := turn.events ++ [.itemDone (turn.turnOutputIndex.getD 0) item]
      turnOutputClosed := true }
  else turn

/-- The message of the turn is announced. -/
def openContent (turn : TurnVars) : TurnVars :=
  if turn.turnOutputOpen then turn
  else
    { turn with
      turnOutputOpen := true
      turnOutputIndex := some turn.outputIndex
      outputIndex := turn.outputIndex + 1
      events := turn.events ++
        [.itemAdded turn.outputIndex (messageAdded turn.turnItemId "commentary")] }

/-- The text is added to the message and sent on. -/
def appendContent (content : Text) (turn : TurnVars) : TurnVars :=
  { turn with
    turnText := turn.turnText ++ content
    events := turn.events ++
      [.textDelta turn.turnItemId (turn.turnOutputIndex.getD 0) content] }

def emitContentDelta (content : Text) (turn : TurnVars) : TurnVars :=
  if !content.isEmpty && !turn.turnOutputClosed then
    appendContent content (openContent (closeReasoningIfNeeded context turn))
  else turn

def emitReasoningDelta (reasoning : Text) (turn : TurnVars) : TurnVars :=
  if !reasoning.isEmpty && !turn.reasoningClosed then
    { turn with turnReasoning := turn.turnReasoning ++ reasoning }
  else turn

/-- The calls that the adapter found are taken up; they get fresh ids. -/
def insertAdaptedCalls (calls : List ToolProtocol.ChatToolCall) (turn : TurnVars) : TurnVars :=
  { turn with
    fresh := turn.fresh + calls.length
    toolStates := insertStreamingToolCalls
      (calls.mapIdx fun index call =>
        ⟨("call_" : Text) ++ context.uuid turn.iteration (turn.fresh + index), call.name,
          call.arguments⟩)
      turn.toolStates }

inductive TextChannel where
  | content
  | reasoning
  deriving DecidableEq

/-- Visible text of a channel. -/
def emitVisible (channel : TextChannel) (text : Text) (turn : TurnVars) : TurnVars :=
  match channel with
  | .content => emitContentDelta context text turn
  | .reasoning => emitReasoningDelta text turn

def handleProviderToolContent (channel : TextChannel)
    (toolContent : ToolProtocol.DeepSeekToolContent) (turn : TurnVars) : TurnVars :=
  insertAdaptedCalls context toolContent.toolCalls
    (emitVisible context channel toolContent.visibleText turn)

/-! ## The deltas -/

def toolsAvailable (payload : Value) : Bool :=
  ((payload.get "tools").bind Value.asArray).any fun tools => !tools.isEmpty

namespace TurnVars

def buffer (turn : TurnVars) : TextChannel → Text
  | .content => turn.contentBuffer
  | .reasoning => turn.reasoningBuffer

def setBuffer (turn : TurnVars) (channel : TextChannel) (buffer : Text) : TurnVars :=
  match channel with
  | .content => { turn with contentBuffer := buffer }
  | .reasoning => { turn with reasoningBuffer := buffer }

end TurnVars

/-- Text of a channel, through the adapter where the upstream needs one. -/
def receiveText (channel : TextChannel) (text : Text) (turn : TurnVars) : TurnVars :=
  if context.adaptDeepseekToolProtocol then
    let pushed := ToolProtocol.push context.texts.fromStr (toolsAvailable turn.payload)
      (turn.buffer channel) text
    handleProviderToolContent context channel pushed.1 (turn.setBuffer channel pushed.2)
  else emitVisible context channel text turn

/-- One entry of `process_delta`. -/
def announceCall (turn : TurnVars) (call : Value) : TurnVars :=
  let (bridge, started) := turn.visibleToolBridge.processCall context.toolContext call
    (context.uuid turn.iteration turn.fresh) turn.outputIndex
  match started with
  | none => { turn with visibleToolBridge := bridge }
  | some (id, name, started) =>
      { turn with
        visibleToolBridge := bridge
        fresh := turn.fresh + 1
        outputIndex := turn.outputIndex + 1
        events := turn.events ++ [.itemAdded turn.outputIndex
          (announcedItem context.texts context.toolContext id name started)] }

def announceCalls (delta : Value) (turn : TurnVars) : TurnVars :=
  (deltaToolCalls delta).foldl (announceCall context) turn

/-- A delta has calls, and the turn has tools. -/
def bringsCalls (payload delta : Value) : Bool :=
  !(deltaToolCalls delta).isEmpty && toolsAvailable payload

/-- The entries under `tool_calls` of a delta. -/
def receiveToolCalls (delta : Value) (turn : TurnVars) : TurnVars :=
  if bringsCalls turn.payload delta then
    let turn := closeContentIfNeeded "commentary" (closeReasoningIfNeeded context turn)
    let turn := announceCalls context delta turn
    { turn with toolStates := collectStreamingToolCallDeltas delta turn.toolStates }
  else turn

def chunkDelta (chunk : Value) : Value := (chunk.pointer ["choices", "0", "delta"]).getD .null

/-- The text of a delta for a channel; empty text counts as none. -/
def deltaText (delta : Value) : TextChannel → Option Text
  | .content => (delta.getStr "content").filter fun text => !text.isEmpty
  | .reasoning => (delta.getStr "reasoning_content").filter fun text => !text.isEmpty

def receiveReasoning (delta : Value) (turn : TurnVars) : TurnVars :=
  if turn.reasoningClosed then turn
  else (deltaText delta .reasoning).elim turn fun text => receiveText context .reasoning text turn

def receiveContent (delta : Value) (turn : TurnVars) : TurnVars :=
  (deltaText delta .content).elim turn fun text => receiveText context .content text turn

/-- One chunk of the completion. -/
def receiveChunk (turn : TurnVars) (chunk : Value) : TurnVars :=
  let delta := chunkDelta chunk
  receiveToolCalls context delta (receiveContent context delta (receiveReasoning context delta turn))

/-- What an adapter held back is let go. -/
def finishChannel (channel : TextChannel) (turn : TurnVars) : TurnVars :=
  if context.adaptDeepseekToolProtocol then
    handleProviderToolContent context channel
      (ToolProtocol.finish context.texts.fromStr (toolsAvailable turn.payload) (turn.buffer channel))
      turn
  else turn

/-- The calls of the turn. -/
def turnToolCalls (turn : TurnVars) : List ChatToolCall :=
  streamingToolCalls (fun index => context.uuid turn.iteration (turn.fresh + index)) turn.toolStates

/-- The message and the reasoning are closed; the phase says whether calls follow. -/
def closeTurn (turn : TurnVars) : TurnVars :=
  closeContentIfNeeded (if turnToolCalls context turn = [] then "final_answer" else "commentary")
    (closeReasoningIfNeeded context turn)

/-- The deltas of a completion, up to the end of the stream. -/
def receiveStream (chunks : List Value) (turn : TurnVars) : TurnVars :=
  finishChannel context .content (finishChannel context .reasoning
    (chunks.foldl (receiveChunk context) turn))

/-- The deltas of a completion, all taken up. -/
def streamTurn (iteration : ℕ) (vars : StreamVars) (chunks : List Value) : TurnVars :=
  receiveStream context chunks (TurnVars.start context iteration vars)

end

end CodeSeeX.ResponseStream
