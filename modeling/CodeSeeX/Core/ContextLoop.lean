import CodeSeeX.Core.Context

/-!
# What one round of the compile loop does

The kind of an item decides everything: whether the pending assistant message is
flushed, which messages are pushed behind it, and what becomes of the pending
calls. The facts about whole runs are derived from these.
-/
namespace CodeSeeX.Context

open Redaction Option List

variable {crates : CoreCrates} {resolved valid : Finset Text} {st : CompileState}

/-! ### The classification of items -/

theorem responseItemToChatToolCall_id {item call : Value}
    (h : responseItemToChatToolCall item resolved = some call) :
    ∃ id, responseItemCallId item = some id ∧ id ∈ resolved ∧ toolCallId call = some id := by
  unfold responseItemToChatToolCall at h
  split_ifs at h with htype
  cases hid : responseItemCallId item with
  | none => simp [hid] at h
  | some id =>
    simp only [hid, ite_none_left_eq_some, not_not] at h
    obtain ⟨hres, h⟩ := h
    cases hname : responseItemToolName item with
    | none => simp [hname] at h
    | some name =>
      simp only [hname, some.injEq] at h
      have hblank : Text.isBlank id = false := by
        simpa using (filter_eq_some_iff.mp hid).2
      refine ⟨id, rfl, hres, ?_⟩
      simp [← h, toolCallId, nonblank, Value.getStr, Value.get, lookup_cons, Value.asStr, hblank]

theorem toolResultMessage_eq {item : Value} {seen : Finset Text} {names : List (Text × Text)}
    {message : ChatMessage} {fact : Option Text}
    (h : responseItemToToolResultMessage crates item resolved seen names valid =
      some (message, fact)) :
    ∃ id, responseItemCallId item = some id ∧ message = ChatMessage.toolResult id
      (truncateText (redactInlineDataUrls (toolOutputText item)) maxToolOutputChars) ∧
      fact = mcpResourceListingSemanticFact crates (names.lookup id) (toolOutputText item) := by
  unfold responseItemToToolResultMessage at h
  split_ifs at h with htype
  cases hid : responseItemCallId item with
  | none => simp [hid] at h
  | some id =>
    simp only [hid, ite_none_left_eq_some] at h
    have := Prod.mk.inj (some.inj h.2)
    exact ⟨id, rfl, this.1.symm, this.2.symm⟩

section
variable {item : Value} {message : ChatMessage}

theorem compactionMessage_eq (h : responseItemToCompactionMessage item = some message) :
    ∃ text, (nonblankText item "summary").or (nonblankText item "content") = some text ∧
      message = ChatMessage.text "user"
        (compactionHeader ++ truncateText text (maxFactTextChars * 2)) := by
  unfold responseItemToCompactionMessage at h
  split_ifs at h
  obtain ⟨text, htext, rfl⟩ := map_eq_some_iff.mp h
  exact ⟨text, htext, rfl⟩

theorem responseItemToMessage_eq (h : responseItemToMessage item = some message) :
    ∃ value, item.get "content" = some value ∧
      message = ChatMessage.text (normalizeRole ((item.getStr "role").getD "user"))
        (truncateText (contentToText value) maxMessageContentChars) := by
  unfold responseItemToMessage at h
  cases hvalue : item.get "content" with
  | none => simp [hvalue] at h
  | some value =>
    simp only [hvalue, map_some, getD_some, ite_none_left_eq_some,
      some.injEq] at h
    exact ⟨value, rfl, h.2.symm⟩

theorem responseItemToMessage_not_blank
    (h : responseItemToMessage item = some message) : message.content.isBlank = false := by
  unfold responseItemToMessage at h
  dsimp only at h
  split_ifs at h with hblank
  rw [← some.inj h]
  exact Bool.eq_false_iff.mpr hblank

end

theorem normalizeRole_eq_tool {role : Text} (h : normalizeRole role = "tool") : role = "tool" := by
  unfold normalizeRole at h
  split_ifs at h with h1 h2 h3 <;> simp_all

/-- An item with role `tool` is a verified fact, never a message. -/
theorem role_ne_tool {item : Value} {message : ChatMessage}
    (hfact : responseItemToVerifiedFact item = none)
    (h : responseItemToMessage item = some message) : message.role ≠ "tool" := by
  obtain ⟨value, _, rfl⟩ := responseItemToMessage_eq h
  intro hrole
  have hitem : (item.getStr "role").getD "user" = "tool" := normalizeRole_eq_tool hrole
  cases hget : item.getStr "role" with
  | none => simp [hget] at hitem
  | some role =>
    have hlike : responseItemIsFactLike item = true := by
      simp only [hget, getD_some] at hitem
      simp [responseItemIsFactLike, hget, hitem]
    simp [responseItemToVerifiedFact, hlike] at hfact

/-- What each kind says about the tests: the one that accepted the item, and the refusals of
those before it that matter. -/
theorem itemKind_spec (crates : CoreCrates) (resolved valid : Finset Text) (st : CompileState)
    (item : Value) :
    match itemKind crates resolved valid st item with
    | .reasoning text => responseItemToReasoningText crates item = some text
    | .toolCall call => responseItemToReasoningText crates item = none ∧
        responseItemToChatToolCall item resolved = some call
    | .toolResult message fact => responseItemToChatToolCall item resolved = none ∧
        responseItemToToolResultMessage crates item resolved st.seenToolCallIds
          st.seenToolCallNames valid = some (message, fact)
    | .compaction message => responseItemToCompactionMessage item = some message
    | .verifiedFact fact => responseItemToVerifiedFact item = some fact
    | .message message => responseItemToVerifiedFact item = none ∧
        responseItemToMessage item = some message
    | .unsupported => responseItemToVerifiedFact item = none ∧
        responseItemToMessage item = none := by
  unfold itemKind
  grind

/-! ### The effect of one round -/

namespace ItemKind

/-- Every item but a reasoning item and a tool call flushes the pending assistant message. -/
def flushes : ItemKind → Bool
  | reasoning _ => false
  | toolCall _ => false
  | _ => true

/-- The messages that an item pushes itself. -/
def emitted : ItemKind → List ChatMessage
  | toolResult m semanticFact => m :: (semanticFact.map userMessage).toList
  | compaction m => [m]
  | message m => if m.role = "assistant" then [] else [m]
  | _ => []

end ItemKind

theorem flush_messages (st : CompileState) :
    st.flush.messages = st.messages ++ st.pendingAssistant.message.toList := by
  unfold CompileState.flush
  cases st.pendingAssistant.message <;> simp

theorem flush_toolCalls (st : CompileState) : st.flush.pendingAssistant.toolCalls = [] := by
  unfold CompileState.flush
  cases hmsg : st.pendingAssistant.message with
  | some message => rfl
  | none =>
    unfold PendingAssistant.message at hmsg
    split_ifs at hmsg with hblank
    exact hblank.2.2

theorem compileStep_messages (item : Value) :
    (compileStep crates resolved valid st item).messages =
      (if (itemKind crates resolved valid st item).flushes then st.flush.messages
        else st.messages) ++ (itemKind crates resolved valid st item).emitted := by
  unfold compileStep
  cases itemKind crates resolved valid st item with
  | reasoning text => simp [ItemKind.flushes, ItemKind.emitted, reasoningStep]
  | toolCall call => simp [ItemKind.flushes, ItemKind.emitted, toolCallStep]
  | toolResult message fact => simp [ItemKind.flushes, ItemKind.emitted, toolResultStep]
  | compaction message => simp [ItemKind.flushes, ItemKind.emitted, compactionStep]
  | verifiedFact fact => simp [ItemKind.flushes, ItemKind.emitted, verifiedFactStep]
  | message message =>
    by_cases hrole : message.role = "assistant" <;>
      simp [ItemKind.flushes, ItemKind.emitted, messageStep, hrole]
  | unsupported => simp [ItemKind.flushes, ItemKind.emitted, unsupportedStep]

theorem compileStep_toolCalls (item : Value) :
    (compileStep crates resolved valid st item).pendingAssistant.toolCalls =
      match itemKind crates resolved valid st item with
      | .reasoning _ => st.pendingAssistant.toolCalls
      | .toolCall call => st.pendingAssistant.toolCalls ++ [call]
      | _ => [] := by
  unfold compileStep
  cases itemKind crates resolved valid st item with
  | reasoning text => rfl
  | toolCall call => rfl
  | toolResult message fact => exact flush_toolCalls st
  | compaction message => exact flush_toolCalls st
  | verifiedFact fact => exact flush_toolCalls st
  | message message =>
    dsimp only [messageStep]
    split_ifs
    · exact flush_toolCalls st
    · exact flush_toolCalls st
  | unsupported => exact flush_toolCalls st

theorem flush_facts (st : CompileState) : st.flush.facts = st.facts := by
  unfold CompileState.flush
  cases st.pendingAssistant.message <;> rfl

theorem compileStep_facts (item : Value) :
    (compileStep crates resolved valid st item).facts =
      match itemKind crates resolved valid st item with
      | .verifiedFact fact => if st.facts.length < maxFacts then st.facts ++ [fact] else st.facts
      | _ => st.facts := by
  unfold compileStep
  cases itemKind crates resolved valid st item with
  | reasoning text => rfl
  | toolCall call => rfl
  | toolResult message fact => exact flush_facts st
  | compaction message => exact flush_facts st
  | verifiedFact fact =>
    dsimp only [verifiedFactStep]
    rw [flush_facts]
  | message message =>
    dsimp only [messageStep]
    split_ifs
    · exact flush_facts st
    · exact flush_facts st
  | unsupported => exact flush_facts st

/-- The pushed messages carry no calls and are no assistant messages; a `tool` message among
them is the redacted and truncated output of the item. -/
theorem emitted_spec {item : Value} {message : ChatMessage}
    (h : message ∈ (itemKind crates resolved valid st item).emitted) :
    message.toolCalls = none ∧ message.role ≠ "assistant" ∧
      (message.role = "tool" → ∃ id, responseItemCallId item = some id ∧
        message = ChatMessage.toolResult id
          (truncateText (redactInlineDataUrls (toolOutputText item)) maxToolOutputChars)) := by
  have hspec := itemKind_spec crates resolved valid st item
  cases hkind : itemKind crates resolved valid st item with
  | reasoning text => simp [hkind, ItemKind.emitted] at h
  | toolCall call => simp [hkind, ItemKind.emitted] at h
  | toolResult result fact =>
    rw [hkind] at hspec
    obtain ⟨id, hid, rfl, _⟩ := toolResultMessage_eq hspec.2
    simp only [hkind, ItemKind.emitted, mem_cons, mem_toList,
      map_eq_some_iff] at h
    rcases h with rfl | ⟨text, _, rfl⟩
    · exact ⟨rfl, by simp [ChatMessage.toolResult], fun _ => ⟨id, hid, rfl⟩⟩
    · exact ⟨rfl, by simp [userMessage, ChatMessage.text],
        by simp [userMessage, ChatMessage.text]⟩
  | compaction m =>
    rw [hkind] at hspec
    obtain ⟨text, _, rfl⟩ := compactionMessage_eq hspec
    simp only [hkind, ItemKind.emitted, mem_singleton] at h
    subst h
    exact ⟨rfl, by simp [ChatMessage.text], by simp [ChatMessage.text]⟩
  | verifiedFact fact => simp [hkind, ItemKind.emitted] at h
  | message m =>
    rw [hkind] at hspec
    simp only [hkind, ItemKind.emitted] at h
    split_ifs at h with hrole
    · simp at h
    · rw [mem_singleton.mp h]
      obtain ⟨value, _, hm⟩ := responseItemToMessage_eq hspec.2
      exact ⟨by rw [hm]; rfl, hrole, fun htool => absurd htool (role_ne_tool hspec.1 hspec.2)⟩
  | unsupported => simp [hkind, ItemKind.emitted] at h

theorem pendingMessage_eq {pending : PendingAssistant} {message : ChatMessage}
    (h : pending.message = some message) :
    message.role = "assistant" ∧ message.content = pending.content ∧
      message.toolCalls = if pending.toolCalls = [] then none else some pending.toolCalls := by
  unfold PendingAssistant.message at h
  split_ifs at h with hblank hcalls hreasoning hreasoning <;> cases h <;>
    exact ⟨rfl, rfl, by simp [hcalls, ChatMessage.text, ChatMessage.assistantWithReasoning,
      ChatMessage.assistantToolCalls, ChatMessage.assistantToolCallsWithReasoning]⟩

theorem pendingMessage_isSome {pending : PendingAssistant}
    (h : pending.content.isBlank = false ∨ pending.toolCalls ≠ []) :
    ∃ message, pending.message = some message := by
  cases hmsg : pending.message with
  | some message => exact ⟨message, rfl⟩
  | none =>
    unfold PendingAssistant.message at hmsg
    split_ifs at hmsg with hall
    rcases h with h | h
    · rw [hall.1] at h
      contradiction
    · exact absurd hall.2.2 h

/-! ### The gathered messages -/

/-- The messages that the rest of the loop adds, its last flush included. -/
def emissions (crates : CoreCrates) (resolved valid : Finset Text) :
    CompileState → List Value → List ChatMessage
  | st, [] => st.pendingAssistant.message.toList
  | st, item :: items =>
      let kind := itemKind crates resolved valid st item
      (if kind.flushes then st.pendingAssistant.message.toList else []) ++ kind.emitted ++
        emissions crates resolved valid (compileStep crates resolved valid st item) items

theorem messages_compileItems (items : List Value) :
    (compileItems crates resolved valid st items).flush.messages =
      st.messages ++ emissions crates resolved valid st items := by
  induction items generalizing st with
  | nil => exact flush_messages st
  | cons item items ih =>
    have hrest := @ih (compileStep crates resolved valid st item)
    unfold compileItems at hrest ⊢
    rw [foldl_cons, hrest, compileStep_messages, emissions]
    split_ifs
    · rw [flush_messages]
      simp only [append_assoc]
    · simp only [append_assoc, nil_append]

theorem gatherItems_messages (items : List Value) :
    (gatherItems crates items valid).messages = emissions crates
      (collectResolvedToolCallIds items) valid { diagnostic := { inputItems := items.length } }
      items :=
  messages_compileItems items

/-- The gathered messages, the facts message in front being the only one that the loop does not
add. -/
theorem gatheredMessages_eq (items : List Value) :
    ∃ front, gatheredMessages crates items valid =
        front ++ (gatherItems crates items valid).messages ∧
      ∀ m ∈ front, ∃ facts truncatedItems, m = verifiedFactsMessage facts truncatedItems := by
  unfold gatheredMessages
  dsimp only
  split_ifs
  · exact ⟨[], by simp⟩
  · refine ⟨[_], rfl, ?_⟩
    intro m hm
    exact ⟨_, _, mem_singleton.mp hm⟩

/-- What holds of every pending message and of every pushed message holds of all that the loop
adds. -/
theorem emissions_forall {P : ChatMessage → Prop} (items : List Value)
    (hpending : ∀ pending : PendingAssistant, ∀ m, pending.message = some m → P m)
    (hemitted : ∀ st : CompileState, ∀ item,
      ∀ m ∈ (itemKind crates resolved valid st item).emitted, P m) :
    ∀ m ∈ emissions crates resolved valid st items, P m := by
  induction items generalizing st with
  | nil =>
    intro m hm
    exact hpending _ m (mem_toList.mp hm)
  | cons item items ih =>
    intro m hm
    simp only [emissions, mem_append] at hm
    rcases hm with (hm | hm) | hm
    · split_ifs at hm
      · exact hpending _ m (mem_toList.mp hm)
      · simp at hm
    · exact hemitted st item m hm
    · exact ih m hm

/-- What holds of the pending calls and of the calls that the items issue holds of all calls of
the messages that the loop adds. -/
theorem emissions_calls {P : Value → Prop} (items : List Value)
    (hpending : ∀ call ∈ st.pendingAssistant.toolCalls, P call)
    (hitems : ∀ item ∈ items, ∀ call, responseItemToChatToolCall item resolved = some call →
      P call) :
    ∀ m ∈ emissions crates resolved valid st items, ∀ call ∈ m.issuedCalls, P call := by
  have hflushed : ∀ st : CompileState, (∀ call ∈ st.pendingAssistant.toolCalls, P call) →
      ∀ m ∈ st.pendingAssistant.message.toList, ∀ call ∈ m.issuedCalls, P call := by
    intro st hpending m hm call hcall
    obtain ⟨hrole, _, hcalls⟩ := pendingMessage_eq (mem_toList.mp hm)
    apply hpending
    by_cases hnil : st.pendingAssistant.toolCalls = []
    · simp [ChatMessage.issuedCalls, hcalls, hnil] at hcall
    · simpa [ChatMessage.issuedCalls, hrole, hcalls, hnil] using hcall
  induction items generalizing st with
  | nil => exact hflushed st hpending
  | cons item items ih =>
    intro m hm
    simp only [emissions, mem_append] at hm
    rcases hm with (hm | hm) | hm
    · split_ifs at hm
      · exact hflushed st hpending m hm
      · simp at hm
    · intro call hcall
      simp [ChatMessage.issuedCalls, (emitted_spec hm).1] at hcall
    · refine ih ?_ (fun i hi => hitems i (mem_cons_of_mem item hi)) m hm
      intro call hcall
      have hspec := itemKind_spec crates resolved valid st item
      rw [compileStep_toolCalls] at hcall
      cases hkind : itemKind crates resolved valid st item with
      | reasoning text =>
        rw [hkind] at hcall
        exact hpending call hcall
      | toolCall c =>
        rw [hkind] at hspec hcall
        rcases mem_append.mp hcall with hcall | hcall
        · exact hpending call hcall
        · rw [mem_singleton.mp hcall]
          exact hitems item (by simp) c hspec.2
      | _ => simp [hkind] at hcall

end CodeSeeX.Context
