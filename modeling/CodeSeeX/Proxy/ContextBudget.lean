import CodeSeeX.Core.Protocol
import CodeSeeX.Core.Redaction
import CodeSeeX.General.Blocks

/-!
# The byte budget of an upstream context

When the messages of a request are over the budget, their long texts are cut, then
blocks of messages are chosen, and last the texts of what was chosen are cut harder.
A block is an assistant message with calls and the results right behind it, or one
message.
-/
namespace CodeSeeX.Proxy.Budget

def budgetToolContentChars : ℕ := 512 * 1024
def budgetMessageContentChars : ℕ := 192 * 1024
def budgetReasoningChars : ℕ := 64 * 1024
def forceShrinkContentLimits : List ℕ :=
  [32 * 1024, 16 * 1024, 8 * 1024, 4 * 1024, 2 * 1024, 1024]

/-- The fields of a message as they are serialized: an absent option is left out. -/
def messageFields (message : ChatMessage) : List (Text × Value) :=
  [(("role" : Text), Value.string message.role), (("content" : Text), .string message.content)] ++
    (message.toolCalls.map fun calls => (("tool_calls" : Text), Value.array calls)).toList ++
    (message.toolCallId.map fun id => (("tool_call_id" : Text), Value.string id)).toList ++
    (message.reasoningContent.map fun text =>
      (("reasoning_content" : Text), Value.string text)).toList

def chatMessageJsonBytes (message : ChatMessage) : ℕ :=
  Text.utf8Len (Value.print (.object (messageFields message)))

def messagesJsonBytes (messages : List ChatMessage) : ℕ :=
  Text.utf8Len (Value.print (.array (messages.map fun message => .object (messageFields message))))

/-! ### Cutting texts -/

def truncateForBudget (text : Text) (maxChars : ℕ) : Text :=
  if text.length ≤ maxChars then text
  else text.take maxChars ++ ("...[truncated chars=" : Text) ++ Text.ofNat text.length ++
    " bytes=" ++ Text.ofNat (Text.utf8Len text) ++ "]"

def compactMessageForBudget (message : ChatMessage) : ChatMessage :=
  let contentLimit :=
    if message.role = "tool" then budgetToolContentChars else budgetMessageContentChars
  { message with
    content := truncateForBudget (Redaction.redactInlineDataUrls message.content) contentLimit
    reasoningContent := message.reasoningContent.map fun reasoning =>
      truncateForBudget reasoning budgetReasoningChars }

def forceShrinkMessage (message : ChatMessage) (contentLimit : ℕ) : ChatMessage :=
  if message.role = "system" then message
  else
    { message with
      content :=
        if contentLimit < message.content.length then
          truncateForBudget message.content contentLimit
        else message.content
      reasoningContent := message.reasoningContent.map fun reasoning =>
        let reasoningLimit := min contentLimit budgetReasoningChars
        if reasoningLimit < reasoning.length then truncateForBudget reasoning reasoningLimit
        else reasoning }

structure ForceShrinkResult where
  messages : List ChatMessage
  passes : ℕ

/-- The passes at the limits left. -/
def shrinkLoop (maxBytes : ℕ) : List ℕ → ForceShrinkResult → ForceShrinkResult
  | [], result => result
  | limit :: limits, result =>
      let next : ForceShrinkResult :=
        { messages := result.messages.map fun message => forceShrinkMessage message limit
          passes := result.passes + 1 }
      if messagesJsonBytes next.messages ≤ maxBytes then next else shrinkLoop maxBytes limits next

def forceShrinkMessagesToBudget (messages : List ChatMessage) (maxBytes : ℕ) :
    ForceShrinkResult :=
  if messagesJsonBytes messages ≤ maxBytes then { messages, passes := 0 }
  else shrinkLoop maxBytes forceShrinkContentLimits { messages, passes := 0 }

/-! ### Choosing blocks -/

def isProtectedContextMessage (message : ChatMessage) : Bool :=
  message.content.startsWith "Verified CodeSeeX tool execution facts" ||
    message.content.startsWith "Recovered CodeSeeX compaction summary" ||
    message.content.startsWith "CodeSeeX compacted"

/-- The ids of the calls that an assistant message issues. -/
def expectedIds (message : ChatMessage) : Finset Text :=
  if message.role = "assistant" then
    ((message.toolCalls.getD []).filterMap fun call => call.getStr "id").toFinset
  else ∅

def answersOneOf (expected : Finset Text) (message : ChatMessage) : Bool :=
  decide (message.role = "tool") && (message.toolCallId.any fun id => decide (id ∈ expected))

/-- `message_blocks`, from the message at `index` on: the indexes of every block. -/
def messageBlocks (index : ℕ) : List ChatMessage → List (List ℕ)
  | [] => []
  | message :: rest =>
      let results := rest.takeWhile (answersOneOf (expectedIds message))
      List.range' index (results.length + 1) ::
        messageBlocks (index + (results.length + 1)) (rest.drop results.length)
termination_by messages => messages.length

def issuesOneOf (ids : Finset Text) (message : ChatMessage) : Bool :=
  (message.toolCalls.getD []).any fun call =>
    (call.getStr "id").any fun id => decide (id ∈ ids)

def selectedToolResultIds (messages : List ChatMessage) (selected : Finset ℕ) : Finset Text :=
  (((Blocks.pick selected 0 messages).filter fun message =>
    message.role = ("tool" : Text)).filterMap ChatMessage.toolCallId).toFinset

/-- Every message that issues the call of a selected result is selected as well. -/
def protectParentToolCallsForSelectedResults (messages : List ChatMessage)
    (selected : Finset ℕ) : Finset ℕ :=
  selected ∪ (Finset.range messages.length).filter fun index =>
    (messages[index]?).any (issuesOneOf (selectedToolResultIds messages selected))

/-- The size of the message at an index, zero when there is none. -/
def bytesAt (messages : List ChatMessage) (index : ℕ) : ℕ :=
  (messages[index]?).elim 0 chatMessageJsonBytes

structure Selection where
  indexes : Finset ℕ
  totalBytes : ℕ
  droppedBlocks : ℕ

/-- What the loop does with one block. -/
def takeBlock (messages : List ChatMessage) (maxBytes : ℕ) (selection : Selection)
    (block : List ℕ) : Selection :=
  if block.any fun index => decide (index ∈ selection.indexes) then
    { selection with indexes := selection.indexes ∪ block.toFinset }
  else
    let blockBytes := (block.map (bytesAt messages)).sum
    if selection.totalBytes + blockBytes ≤ maxBytes ∨ selection.indexes = ∅ then
      { selection with
        indexes := selection.indexes ∪ block.toFinset
        totalBytes := selection.totalBytes + blockBytes }
    else { selection with droppedBlocks := selection.droppedBlocks + 1 }

/-- A message that is kept whatever the budget. -/
def mandatory (protectedStartIndex index : ℕ) (message : ChatMessage) : Bool :=
  decide (message.role = "system") || decide (protectedStartIndex ≤ index) ||
    isProtectedContextMessage message

def mandatoryIndexes (messages : List ChatMessage) (protectedStartIndex : ℕ) : Finset ℕ :=
  (Finset.range messages.length).filter fun index =>
    (messages[index]?).any (mandatory protectedStartIndex index)

/-- What is selected before the loop over the blocks. -/
def firstSelection (messages : List ChatMessage) (protectedStartIndex : ℕ) : Selection :=
  let indexes := protectParentToolCallsForSelectedResults messages
    (mandatoryIndexes messages protectedStartIndex)
  { indexes, totalBytes := ∑ index ∈ indexes, bytesAt messages index, droppedBlocks := 0 }

def finalSelection (messages : List ChatMessage) (protectedStartIndex maxBytes : ℕ) : Selection :=
  (messageBlocks 0 messages).reverse.foldl (takeBlock messages maxBytes)
    (firstSelection messages protectedStartIndex)

structure SelectedMessages where
  messages : List ChatMessage
  droppedBlocks : ℕ

def selectBudgetedMessageBlocks (messages : List ChatMessage)
    (protectedStartIndex maxBytes : ℕ) : SelectedMessages :=
  let selection := finalSelection messages protectedStartIndex maxBytes
  { messages := Blocks.pick selection.indexes 0 messages
    droppedBlocks := selection.droppedBlocks }

end CodeSeeX.Proxy.Budget
