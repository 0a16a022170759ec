import CodeSeeX.Json
import CodeSeeX.General.TurnGrammar

/-!
# Chat messages

The message type that is sent upstream, its constructors, and the turn that a
message is in the call-and-answer grammar.
-/
namespace CodeSeeX

open TurnGrammar

structure ChatMessage where
  role : Text
  content : Text
  toolCalls : Option (List Value)
  toolCallId : Option Text
  reasoningContent : Option Text

namespace ChatMessage

def text (role content : Text) : ChatMessage :=
  { role, content, toolCalls := none, toolCallId := none, reasoningContent := none }

def assistantWithReasoning (content reasoningContent : Text) : ChatMessage :=
  { role := "assistant", content, toolCalls := none, toolCallId := none
    reasoningContent := some reasoningContent }

def assistantToolCalls (toolCalls : List Value) (content : Text) : ChatMessage :=
  { role := "assistant", content, toolCalls := some toolCalls, toolCallId := none
    reasoningContent := some [] }

def assistantToolCallsWithReasoning (toolCalls : List Value) (content reasoningContent : Text) :
    ChatMessage :=
  { role := "assistant", content, toolCalls := some toolCalls, toolCallId := none
    reasoningContent := some reasoningContent }

def toolResult (callId content : Text) : ChatMessage :=
  { role := "tool", content, toolCalls := none, toolCallId := some callId
    reasoningContent := none }

/-- The calls of an assistant message; other messages issue none. -/
def issuedCalls (m : ChatMessage) : List Value :=
  if m.role = "assistant" then m.toolCalls.getD [] else []

/-- The turn that a message is: an assistant message with a nonempty list of calls issues
their ids, a message with role `tool` answers its `tool_call_id`. -/
def turn (m : ChatMessage) : Turn (Option Text) :=
  if m.role = "tool" then .answer m.toolCallId
  else if m.issuedCalls = [] then .plain
  else .calls (m.issuedCalls.map fun call => call.getStr "id")

end ChatMessage

/-- The chat tool protocol: the calls of every assistant message are answered at once, one
`tool` message for each call in call order, the ids being distinct strings; any other `tool`
message carries an id of `valid`. -/
def LegalChat (valid : Finset Text) (messages : List ChatMessage) : Prop :=
  Legal (fun ids given => InCallOrder ids given ∧ ∀ id ∈ ids, id.isSome)
    (fun id => ∃ t ∈ valid, id = some t) (messages.map ChatMessage.turn)

end CodeSeeX
