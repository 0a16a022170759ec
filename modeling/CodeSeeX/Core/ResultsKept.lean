import CodeSeeX.Core.ToolGroups

/-!
# Tool results on their way through the compiler

An output item becomes a `tool` message or a verified fact. The protocol pass keeps
a `tool` message or turns it into a fact of its own; nothing but a second result
with the same id is dropped there. Of the verified facts the first `maxFacts` are
printed.
-/
namespace CodeSeeX.Context

open Redaction List

variable {message : ChatMessage} {items : List Value}

/-! ### The protocol pass -/

section Pass

variable {valid expected seen : Finset Text} {messages : List ChatMessage} {m : ChatMessage}
  {id : Text}

/-- No two messages carry the same call id. -/
def DistinctResults (messages : List ChatMessage) : Prop :=
  messages.Pairwise fun a b => ∀ id, a.toolCallId = some id → b.toolCallId ≠ some id

theorem DistinctResults.sublist {messages' : List ChatMessage} (h : DistinctResults messages)
    (hsub : messages'.Sublist messages) : DistinctResults messages' := List.Pairwise.sublist hsub h

theorem DistinctResults.eq_of_id (h : DistinctResults messages) {m' : ChatMessage}
    (hm : m ∈ messages) (hm' : m' ∈ messages) (hid : m.toolCallId = some id)
    (hid' : m'.toolCallId = some id) : m = m' := by
  by_contra hne
  have hsymm : Std.Symm fun a b : ChatMessage =>
      ∀ id, a.toolCallId = some id → b.toolCallId ≠ some id :=
    ⟨fun a b hab id hb ha => hab id ha hb⟩
  exact List.Pairwise.forall h hm hm' hne id hid hid'

/-- What the scan meets under a new id it keeps, or it leaves it behind. -/
theorem scan_covers (hdistinct : DistinctResults messages) (hm : m ∈ messages)
    (hid : m.toolCallId = some id) (hseen : id ∉ seen) :
    m ∈ (scanToolMessages expected seen messages).1 ∨
      m ∈ (scanToolMessages expected seen messages).2.2 := by
  induction messages generalizing seen with
  | nil => simp at hm
  | cons first rest ih =>
    obtain ⟨hfirst, hrest⟩ := pairwise_cons.mp hdistinct
    simp only [scanToolMessages]
    split_ifs with hrole
    · cases hfid : first.toolCallId with
      | none => exact .inr hm
      | some fid =>
        dsimp only
        by_cases hexp : fid ∈ expected
        · rw [if_neg (not_not.mpr hexp)]
          rcases mem_cons.mp hm with rfl | hlater
          · obtain rfl : fid = id := Option.some.inj (hfid.symm.trans hid)
            rw [if_neg hseen]
            exact .inl mem_cons_self
          · have hne : id ≠ fid := fun heq => hfirst m hlater fid hfid (heq ▸ hid)
            have hunseen : id ∉ insert fid seen := by simp [hne, hseen]
            rcases ih hrest hlater hunseen with hkept | hleft
            · left
              split_ifs
              · exact hkept
              · exact mem_cons_of_mem _ hkept
            · right
              split_ifs
              · exact hleft
              · exact hleft
        · rw [if_pos hexp]
          exact .inr hm
    · exact .inr hm

/-- A complete group holds every message of its scan. -/
theorem mem_orderedToolMessages {ids : List Text} (hdistinct : DistinctResults messages)
    (hcomplete : (scanToolMessages ids.toFinset ∅ messages).2.1.card = ids.length)
    (hm : m ∈ (scanToolMessages ids.toFinset ∅ messages).1) :
    m ∈ orderedToolMessages (scanToolMessages ids.toFinset ∅ messages).1 ids := by
  obtain ⟨hnodup, hall⟩ := scan_complete hcomplete
  obtain ⟨_, id, hexp, hid, _⟩ := scanToolMessages_spec hm
  obtain ⟨consumed, hmessages, _, hsub⟩ := scanToolMessages_consumed ids.toFinset ∅ messages
  have hscan : DistinctResults (scanToolMessages ids.toFinset ∅ messages).1 := by
    apply hdistinct.sublist
    conv_rhs => rw [hmessages]
    exact hsub.trans (sublist_append_left _ _)
  have hids := orderedToolMessages_ids hnodup hall
  have hmem : some id ∈ (orderedToolMessages (scanToolMessages ids.toFinset ∅ messages).1
      ids).map ChatMessage.toolCallId := by
    rw [hids]
    exact mem_map_of_mem (by simpa using hexp)
  obtain ⟨m', hm', hid'⟩ := mem_map.mp hmem
  have heq : m = m' := hscan.eq_of_id hm (orderedToolMessages_subset hm') hid hid'
  exact heq ▸ hm'

theorem ne_issuing (hrole : m.role = "tool") (hexp : expectedIds message ≠ []) : m ≠ message := by
  rintro rfl
  have hassistant := role_of_expectedIds_ne_nil hexp
  rw [hrole] at hassistant
  exact absurd hassistant (by decide)

/-- The pass keeps a result as it is or as a fact. -/
theorem result_survives (hdistinct : DistinctResults messages) (hm : m ∈ messages)
    (hrole : m.role = "tool") (hid : m.toolCallId = some id) :
    m ∈ sanitizeLoop valid messages ∨ orphanToolResultFact m ∈ sanitizeLoop valid messages := by
  fun_induction sanitizeLoop valid messages with
  | case1 => simp at hm
  | case2 message rest expected hexp scan hcard ih =>
    obtain ⟨_, hrest⟩ := pairwise_cons.mp hdistinct
    have hmem : m ∈ rest := mem_of_ne_of_mem (ne_issuing hrole hexp) hm
    rcases scan_covers hrest hmem hid (Finset.notMem_empty id) with hkept | hleft
    · have hordered := mem_orderedToolMessages hrest hcard hkept
      exact .inl (mem_cons_of_mem _ (mem_append_left _ hordered))
    · have hlater := ih (hrest.sublist scanToolMessages_rest_suffix.sublist) hleft
      exact hlater.imp
        (fun h => mem_cons_of_mem _ (mem_append_right _ h))
        fun h => mem_cons_of_mem _ (mem_append_right _ h)
  | case3 message rest expected hexp scan hcard ih =>
    obtain ⟨_, hrest⟩ := pairwise_cons.mp hdistinct
    have hmem : m ∈ rest := mem_of_ne_of_mem (ne_issuing hrole hexp) hm
    rcases scan_covers hrest hmem hid (Finset.notMem_empty id) with hkept | hleft
    · right
      exact mem_append_left _ (mem_append_right _ (mem_map_of_mem hkept))
    · have hlater := ih (hrest.sublist scanToolMessages_rest_suffix.sublist) hleft
      exact hlater.imp (mem_append_right _) (mem_append_right _)
  | case4 message rest expected hexp htool ih =>
    obtain ⟨_, hrest⟩ := pairwise_cons.mp hdistinct
    rcases mem_cons.mp hm with rfl | hlater
    · exact .inl mem_cons_self
    · exact (ih hrest hlater).imp (mem_cons_of_mem _) (mem_cons_of_mem _)
  | case5 message rest expected hexp hnvalid htool ih =>
    obtain ⟨_, hrest⟩ := pairwise_cons.mp hdistinct
    rcases mem_cons.mp hm with rfl | hlater
    · exact .inr mem_cons_self
    · exact (ih hrest hlater).imp (mem_cons_of_mem _) (mem_cons_of_mem _)
  | case6 message rest expected hexp hnvalid htool ih =>
    obtain ⟨_, hrest⟩ := pairwise_cons.mp hdistinct
    rcases mem_cons.mp hm with rfl | hlater
    · exact absurd hrole htool
    · exact (ih hrest hlater).imp (mem_cons_of_mem _) (mem_cons_of_mem _)

end Pass

/-! ### The messages of the loop -/

section Loop

variable {crates : CoreCrates} {resolved valid : Finset Text} {st : CompileState}

theorem pendingMessage_toolCallId {pending : PendingAssistant}
    (h : pending.message = some message) : message.toolCallId = none := by
  unfold PendingAssistant.message at h
  split_ifs at h
  all_goals
    cases h
    rfl

/-- The call ids of what an item pushes: its own, and only if it is an output. -/
theorem emitted_ids (item : Value) :
    ((itemKind crates resolved valid st item).emitted.filterMap ChatMessage.toolCallId).Sublist
      (([item].filter responseItemIsToolOutput).filterMap responseItemCallId) := by
  have hspec := itemKind_spec crates resolved valid st item
  cases hkind : itemKind crates resolved valid st item with
  | reasoning text => exact nil_sublist _
  | toolCall call => exact nil_sublist _
  | toolResult message fact =>
    rw [hkind] at hspec
    obtain ⟨id, hid, rfl, _⟩ := toolResultMessage_eq hspec.2
    have houtput : responseItemIsToolOutput item = true := by
      by_contra hnot
      have hresult := hspec.2
      unfold responseItemToToolResultMessage at hresult
      simp [hnot] at hresult
    have hfact : ((fact.map userMessage).toList).filterMap ChatMessage.toolCallId = [] := by
      cases fact with
      | none => rfl
      | some text => rfl
    have hown : ([item].filter responseItemIsToolOutput).filterMap responseItemCallId = [id] := by
      simp [houtput, hid]
    rw [hown, ItemKind.emitted, filterMap_cons, hfact]
    exact Sublist.refl _
  | compaction message =>
    rw [hkind] at hspec
    obtain ⟨text, _, rfl⟩ := compactionMessage_eq hspec
    exact nil_sublist _
  | verifiedFact fact => exact nil_sublist _
  | message message =>
    rw [hkind] at hspec
    obtain ⟨value, _, rfl⟩ := responseItemToMessage_eq hspec.2
    rw [ItemKind.emitted]
    split_ifs
    · exact nil_sublist _
    · exact nil_sublist _
  | unsupported => exact nil_sublist _

/-- The call ids of the gathered messages are those of the output items, in order. -/
theorem emissions_ids (items : List Value) :
    ((emissions crates resolved valid st items).filterMap ChatMessage.toolCallId).Sublist
      ((items.filter responseItemIsToolOutput).filterMap responseItemCallId) := by
  have hpending : ∀ pending : PendingAssistant,
      pending.message.toList.filterMap ChatMessage.toolCallId = [] := by
    intro pending
    cases hmessage : pending.message with
    | none => rfl
    | some message => simp [pendingMessage_toolCallId hmessage]
  induction items generalizing st with
  | nil => simp [emissions, hpending]
  | cons item items ih =>
    have hflushed : (if (itemKind crates resolved valid st item).flushes then
        st.pendingAssistant.message.toList else []).filterMap ChatMessage.toolCallId = [] := by
      split_ifs
      · exact hpending _
      · rfl
    rw [emissions, filterMap_append, filterMap_append, hflushed, nil_append,
      ← singleton_append, filter_append, filterMap_append]
    exact (emitted_ids item).append ih

theorem distinct_gathered
    (h : ((items.filter responseItemIsToolOutput).filterMap responseItemCallId).Nodup) :
    DistinctResults (gatheredMessages crates items valid) := by
  obtain ⟨front, hgathered, hfront⟩ := @gatheredMessages_eq crates valid items
  have hnone : front.filterMap ChatMessage.toolCallId = [] := by
    rw [filterMap_eq_nil_iff]
    intro m hm
    obtain ⟨facts, truncatedItems, rfl⟩ := hfront m hm
    rfl
  have hnodup : ((gatheredMessages crates items valid).filterMap ChatMessage.toolCallId).Nodup := by
    rw [hgathered, filterMap_append, hnone, nil_append, gatherItems_messages]
    exact (emissions_ids items).nodup h
  unfold Nodup at hnodup
  rw [pairwise_filterMap] at hnodup
  refine hnodup.imp ?_
  intro a b hab id ha hb
  exact hab id ha id hb rfl

theorem mem_emissions {items before after : List Value} {item : Value} {m : ChatMessage}
    (hitems : items = before ++ item :: after)
    (h : m ∈ (itemKind crates resolved valid (compileItems crates resolved valid st before)
      item).emitted) : m ∈ emissions crates resolved valid st items := by
  subst hitems
  induction before generalizing st with
  | nil =>
    exact mem_append_left _ (mem_append_right _ h)
  | cons first before ih =>
    exact mem_append_right _ (ih h)

/-- Facts are only added. -/
theorem facts_run (items : List Value) :
    st.facts <+: (compileItems crates resolved valid st items).facts := by
  induction items generalizing st with
  | nil => exact prefix_rfl
  | cons item items ih =>
    have hstep : st.facts <+: (compileStep crates resolved valid st item).facts := by
      rw [compileStep_facts]
      cases itemKind crates resolved valid st item with
      | verifiedFact fact =>
        split_ifs
        · exact prefix_append _ _
        · exact prefix_rfl
      | _ => exact prefix_rfl
    exact hstep.trans ih

end Loop

/-! ### Output items -/

section Outputs

variable {crates : CoreCrates} {resolved valid : Finset Text} {st : CompileState}
  {item : Value} {output : Text}

/-- A tool-output item whose output is a string. -/
structure TextOutput (item : Value) (output : Text) : Prop where
  type : item.getStr "type" ∈ ([some ("function_call_output" : Text),
    some ("custom_tool_call_output" : Text), some ("web_search_call_output" : Text)] :
      List (Option Text))
  output : item.get "output" = some (.string output)

theorem TextOutput.isToolOutput (h : TextOutput item output) :
    responseItemIsToolOutput item = true := by
  have htype := h.type
  simp only [mem_cons, not_mem_nil, or_false] at htype
  simp only [responseItemIsToolOutput, mem_cons, not_mem_nil, or_false,
    decide_eq_true_eq]
  rcases htype with h | h | h
  · exact .inl h
  · exact .inr (.inl h)
  · exact .inr (.inr (.inl h))

theorem TextOutput.text (h : TextOutput item output) :
    redactInlineDataUrls (toolOutputText item) = redactInlineDataUrls output := by
  have htext : toolOutputText item = redactInlineDataUrls output := by
    simp [toolOutputText, h.output, contentToText]
  rw [htext, redactInlineDataUrls_idempotent]

theorem take_truncateText {text : Text} {count maxChars : ℕ} (h : count ≤ maxChars) :
    (truncateText text maxChars).take count = text.take count := by
  unfold truncateText
  dsimp only
  split_ifs with hlength
  · rfl
  · have hcount : count ≤ (text.take maxChars).length := by
      rw [length_take]
      omega
    rw [append_assoc, append_assoc, append_assoc, append_assoc,
      take_append_of_le_length hcount, take_take, min_eq_left h]

theorem take_infix_truncateText {text : Text} {count maxChars : ℕ} (h : count ≤ maxChars) :
    text.take count <:+: truncateText text maxChars := by
  rw [← take_truncateText h]
  exact ( take_prefix _ _).isInfix

theorem infix_join {part sep : Text} {parts : List Text} (h : part ∈ parts) :
    part <:+: Text.join sep parts := by
  induction parts with
  | nil => simp at h
  | cons first rest ih =>
    cases rest with
    | nil =>
      obtain rfl : part = first := by simpa using h
      simp [Text.join, intercalate]
    | cons next rest =>
      have hjoin : Text.join sep (first :: next :: rest) =
          first ++ (sep ++ Text.join sep (next :: rest)) := by
        simp [Text.join, intercalate]
      rw [hjoin]
      rcases mem_cons.mp h with rfl | hlater
      · exact (prefix_append _ _).isInfix
      · have hrest := ih hlater
        exact hrest.trans ((suffix_append _ _).isInfix.trans (suffix_append _ _).isInfix)

theorem TextOutput.factLike (h : TextOutput item output) : responseItemIsFactLike item = true := by
  have htype := h.type
  simp only [mem_cons, not_mem_nil, or_false] at htype
  unfold responseItemIsFactLike
  split_ifs
  · rfl
  · rcases htype with htype | htype | htype
    · rw [htype]
      decide
    · rw [htype]
      decide
    · rw [htype]
      decide

/-- As a verified fact the item shows the beginning of its output. -/
theorem TextOutput.verifiedFact (h : TextOutput item output) {fact : Text}
    (hfact : responseItemToVerifiedFact item = some fact) :
    (redactInlineDataUrls output).take maxFactTextChars <:+: fact := by
  have hfield : ("output" : Text) ++ ['='] ++ summarizeValue (.string output) ∈
      verifiedFactFields item := by
    apply mem_append_right
    rw [mem_filterMap]
    refine ⟨("output" : Text), by decide, ?_⟩
    rw [h.output]
    rfl
  have hshown : (redactInlineDataUrls output).take maxFactTextChars <:+:
      ("output" : Text) ++ ['='] ++ summarizeValue (.string output) :=
    (take_infix_truncateText le_rfl).trans (suffix_append _ _).isInfix
  unfold responseItemToVerifiedFact at hfact
  rw [if_neg (not_not.mpr h.factLike)] at hfact
  obtain rfl := Option.some.inj hfact
  apply hshown.trans
  apply infix_join
  split_ifs
  · exact mem_append_left _ hfield
  · exact hfield

/-- The item answers a call that was issued before it, or one of the valid ones. -/
def AnswersCall (valid : Finset Text) (st : CompileState) (item : Value) : Prop :=
  ∃ id, responseItemCallId item = some id ∧ (id ∈ st.seenToolCallIds ∨ id ∈ valid)

/-- Neither reasoning nor a compaction summary is an output item. -/
theorem not_other_kind (h : responseItemIsToolOutput item = true) :
    responseItemToReasoningText crates item = none ∧
      responseItemToCompactionMessage item = none := by
  unfold responseItemToReasoningText responseItemToCompactionMessage
  rcases isToolOutput_type h with h | h | h | h
  · simp [h]
  · simp [h]
  · simp [h]
  · simp [h]

theorem not_answersCall (h : responseItemIsToolOutput item = true)
    (hresolved : ∀ id, responseItemCallId item = some id → id ∈ resolved)
    (hnone : responseItemToToolResultMessage crates item resolved st.seenToolCallIds
      st.seenToolCallNames valid = none) : ¬ AnswersCall valid st item := by
  rintro ⟨id, hid, hanswers⟩
  have hin := hresolved id hid
  unfold responseItemToToolResultMessage at hnone
  rw [if_neg (not_not.mpr h), hid] at hnone
  dsimp only at hnone
  split_ifs at hnone with hrefused
  tauto

/-- An output item is a result or a verified fact. -/
theorem TextOutput.kind (h : TextOutput item output)
    (hresolved : ∀ id, responseItemCallId item = some id → id ∈ resolved) :
    (∃ id fact, itemKind crates resolved valid st item =
        .toolResult (ChatMessage.toolResult id
          (truncateText (redactInlineDataUrls output) maxToolOutputChars)) fact) ∨
      ¬ AnswersCall valid st item ∧ ∃ fact,
        itemKind crates resolved valid st item = .verifiedFact fact ∧
          (redactInlineDataUrls output).take maxFactTextChars <:+: fact := by
  obtain ⟨hreasoning, hcompaction⟩ := @not_other_kind crates item h.isToolOutput
  have hcall : responseItemToChatToolCall item resolved = none :=
    toolCall_eq_none_of_output h.isToolOutput
  cases hresult : responseItemToToolResultMessage crates item resolved st.seenToolCallIds
      st.seenToolCallNames valid with
  | some pair =>
    left
    obtain ⟨message, fact⟩ := pair
    obtain ⟨id, _, hmessage, _⟩ := toolResultMessage_eq hresult
    refine ⟨id, fact, ?_⟩
    rw [h.text] at hmessage
    unfold itemKind
    rw [hreasoning, hcall, hresult, hmessage]
  | none =>
    right
    obtain ⟨fact, hfact⟩ : ∃ fact, responseItemToVerifiedFact item = some fact := by
      unfold responseItemToVerifiedFact
      rw [if_neg (not_not.mpr h.factLike)]
      exact ⟨_, rfl⟩
    refine ⟨not_answersCall h.isToolOutput hresolved hresult, fact, ?_, h.verifiedFact hfact⟩
    unfold itemKind
    rw [hreasoning, hcall, hresult, hcompaction, hfact]

end Outputs

/-! ### Compiled messages -/

section Compiled

variable {crates : CoreCrates} {valid : Finset Text} {items before after : List Value}
  {item : Value} {output : Text}

/-- The state of the loop behind the items `before` of the array. -/
def gatheredBehind (crates : CoreCrates) (valid : Finset Text) (items before : List Value) :
    CompileState :=
  compileItems crates (collectResolvedToolCallIds items) valid
    { diagnostic := { inputItems := items.length } } before

/-- The beginning of the output occurs in some message. -/
def Represented (output : Text) (messages : List ChatMessage) : Prop :=
  ∃ message ∈ messages, (redactInlineDataUrls output).take maxFactTextChars <:+: message.content

theorem represented_useful {messages : List ChatMessage}
    (h : ∃ message ∈ messages, messageIsUseful message = true ∧
      (redactInlineDataUrls output).take maxFactTextChars <:+: message.content) :
    Represented output (messages.filter messageIsUseful) := by
  obtain ⟨message, hm, huseful, hshown⟩ := h
  exact ⟨message, mem_filter.mpr ⟨hm, huseful⟩, hshown⟩

theorem compiled_array (crates : CoreCrates) (valid : Finset Text) (items : List Value)
    (h : Represented output
      (sanitizeChatToolProtocol (gatheredMessages crates items valid) valid)) :
    Represented output
      (compileResponsesInputWithToolOutputs crates (.array items) valid).messages := by
  obtain ⟨message, hm, hshown⟩ := h
  have hne : sanitizeChatToolProtocol (gatheredMessages crates items valid) valid ≠ [] :=
    ne_nil_of_mem hm
  simp only [compileResponsesInputWithToolOutputs, if_neg hne]
  exact ⟨message, hm, hshown⟩

theorem not_blank_of_mem {text : Text} {c : Char} (hmem : c ∈ text)
    (hc : Text.isWhitespace c = false) : text.isBlank = false := by
  by_contra hblank
  have hwhite := Text.isBlank_iff.mp (Bool.not_eq_false _ ▸ hblank) c hmem
  rw [hc] at hwhite
  contradiction

/-- The fact about an orphaned result shows what the result showed. -/
theorem orphanFact_shows
    (h : message.content = truncateText (redactInlineDataUrls output) maxToolOutputChars) :
    messageIsUseful (orphanToolResultFact message) = true ∧
      (redactInlineDataUrls output).take maxFactTextChars <:+:
        (orphanToolResultFact message).content := by
  constructor
  · have hfirst : 'V' ∈ (orphanToolResultFact message).content := by
      have hlabel : 'V' ∈
          ("Verified prior tool result without replayable parent call. tool_call_id=" : Text) := by
        decide
      exact mem_append_left _ (mem_append_left _ (mem_append_left _ hlabel))
    have hblank := not_blank_of_mem hfirst (by decide)
    have hrole : (orphanToolResultFact message).role ≠ "assistant" := by
      simp [orphanToolResultFact, ChatMessage.text]
    simp [messageIsUseful, hrole, hblank]
  · have hclean : redactInlineDataUrls message.content = message.content := by
      rw [h]
      exact redactInlineDataUrls_of_not_infix
        (marker_not_in_truncated (marker_not_in_redacted output) _)
    have hle : maxFactTextChars ≤ maxToolOutputChars := by decide
    have hshown := @take_infix_truncateText message.content maxFactTextChars maxFactTextChars le_rfl
    rw [h, take_truncateText hle, ← h] at hshown
    have hcontent : (orphanToolResultFact message).content =
        (("Verified prior tool result without replayable parent call. tool_call_id=" : Text) ++
          truncateText (message.toolCallId.getD []) 120 ++ " output=") ++
          truncateText message.content maxFactTextChars := by
      rw [orphanToolResultFact, hclean]
      rfl
    rw [hcontent]
    exact hshown.trans (suffix_append _ _).isInfix

/-- A result is represented, as a `tool` message or as a fact about it. -/
theorem represented_result {id : Text} {fact : Option Text}
    (hdistinct : ((items.filter responseItemIsToolOutput).filterMap responseItemCallId).Nodup)
    (hitems : items = before ++ item :: after)
    (hkind : itemKind crates (collectResolvedToolCallIds items) valid
      (gatheredBehind crates valid items before) item = .toolResult (ChatMessage.toolResult id
        (truncateText (redactInlineDataUrls output) maxToolOutputChars)) fact) :
    Represented output
      (sanitizeChatToolProtocol (gatheredMessages crates items valid) valid) := by
  apply represented_useful
  generalize hresult : ChatMessage.toolResult id
    (truncateText (redactInlineDataUrls output) maxToolOutputChars) = result at hkind
  have hcontent : result.content =
      truncateText (redactInlineDataUrls output) maxToolOutputChars := by
    rw [← hresult]
    rfl
  have hgathered : result ∈ gatheredMessages crates items valid := by
    obtain ⟨front, hfront, _⟩ := @gatheredMessages_eq crates valid items
    rw [hfront, gatherItems_messages]
    apply mem_append_right
    have hemitted : result ∈ (itemKind crates (collectResolvedToolCallIds items) valid
        (gatheredBehind crates valid items before) item).emitted := by
      rw [hkind]
      exact mem_cons_self
    exact mem_emissions hitems hemitted
  rcases result_survives (distinct_gathered hdistinct) hgathered (by rw [← hresult]; rfl)
    (show result.toolCallId = some id by rw [← hresult]; rfl) with hkept | hfact
  · refine ⟨result, hkept, ?_, ?_⟩
    · simp [← hresult, messageIsUseful, ChatMessage.toolResult]
    · rw [hcontent]
      exact take_infix_truncateText (by decide)
  · exact ⟨_, hfact, orphanFact_shows hcontent⟩

theorem sanitize_factsMessage (facts : List Text) (truncatedItems : ℕ)
    (rest : List ChatMessage) :
    sanitizeLoop valid (verifiedFactsMessage facts truncatedItems :: rest) =
      verifiedFactsMessage facts truncatedItems :: sanitizeLoop valid rest := by
  have hexpected : expectedIds (verifiedFactsMessage facts truncatedItems) = [] := by
    simp [expectedIds, ChatMessage.issuedCalls, verifiedFactsMessage, ChatMessage.text]
  have hrole : (verifiedFactsMessage facts truncatedItems).role ≠ "tool" := by
    simp [verifiedFactsMessage, ChatMessage.text]
  rw [sanitizeLoop, if_neg (not_not.mpr hexpected), if_neg fun htool => hrole htool.1,
    if_neg hrole]

/-- Every fact is printed in the facts message, which the protocol pass keeps. -/
theorem factsMessage_shows {facts : List Text} {truncatedItems : ℕ} {fact : Text}
    {rest : List ChatMessage} (h : fact ∈ facts) :
    verifiedFactsMessage facts truncatedItems ∈
        sanitizeLoop valid (verifiedFactsMessage facts truncatedItems :: rest) ∧
      messageIsUseful (verifiedFactsMessage facts truncatedItems) = true ∧
        fact <:+: (verifiedFactsMessage facts truncatedItems).content := by
  refine ⟨?_, ?_, ?_⟩
  · rw [sanitize_factsMessage]
    exact mem_cons_self
  · have hfirst : 'V' ∈ (verifiedFactsMessage facts truncatedItems).content := by
      have hheader : 'V' ∈ verifiedFactsHeader := by decide
      exact mem_append_left _ (mem_append_left _ hheader)
    have hblank := not_blank_of_mem hfirst (by decide)
    have hrole : (verifiedFactsMessage facts truncatedItems).role ≠ "assistant" := by
      simp [verifiedFactsMessage, ChatMessage.text]
    simp [messageIsUseful, hrole, hblank]
  · obtain ⟨earlier, later, rfl⟩ := append_of_mem h
    have hline : fact <:+: ("- " : Text) ++ fact ++ ['\n'] := infix_append _ _ _
    have hlines : ("- " : Text) ++ fact ++ ['\n'] <:+:
        (earlier ++ fact :: later).flatMap fun fact => ("- " : Text) ++ fact ++ ['\n'] := by
      rw [flatMap_append, flatMap_cons, ← append_assoc]
      exact infix_append _ _ _
    exact hline.trans (hlines.trans (infix_append _ _ _))

/-- A verified fact that finds room is represented. -/
theorem represented_fact {fact : Text} (hitems : items = before ++ item :: after)
    (hkind : itemKind crates (collectResolvedToolCallIds items) valid
      (gatheredBehind crates valid items before) item = .verifiedFact fact)
    (hroom : (gatheredBehind crates valid items before).facts.length < maxFacts)
    (hshown : (redactInlineDataUrls output).take maxFactTextChars <:+: fact) :
    Represented output
      (sanitizeChatToolProtocol (gatheredMessages crates items valid) valid) := by
  apply represented_useful
  have hfacts : fact ∈ (gatherItems crates items valid).facts := by
    have hstep : fact ∈ (compileStep crates (collectResolvedToolCallIds items) valid
        (gatheredBehind crates valid items before) item).facts := by
      rw [compileStep_facts, hkind]
      dsimp only
      rw [if_pos hroom]
      exact mem_append_right _ mem_cons_self
    have hrun : compileItems crates (collectResolvedToolCallIds items) valid
        { diagnostic := { inputItems := items.length } } items =
          compileItems crates (collectResolvedToolCallIds items) valid
            (compileStep crates (collectResolvedToolCallIds items) valid
              (gatheredBehind crates valid items before) item) after := by
      rw [gatheredBehind, compileItems, compileItems, compileItems, ← foldl_cons,
        ← foldl_append, ← hitems]
    rw [gatherItems, flush_facts, hrun]
    exact (facts_run after).subset hstep
  have hgathered : gatheredMessages crates items valid =
      verifiedFactsMessage (gatherItems crates items valid).facts
          (gatherItems crates items valid).diagnostic.truncatedItems ::
        (gatherItems crates items valid).messages := if_neg (ne_nil_of_mem hfacts)
  obtain ⟨hkept, huseful, hprinted⟩ := factsMessage_shows hfacts
  rw [hgathered]
  exact ⟨_, hkept, huseful, hshown.trans hprinted⟩

/-- No output is lost but the facts over the limit: the beginning of every string output occurs
in some message, wherever its call stands, unless the item is a verified fact behind `maxFacts`
others. -/
theorem output_represented (crates : CoreCrates) (valid : Finset Text)
    (hitems : items = before ++ item :: after)
    (hdistinct : ((items.filter responseItemIsToolOutput).filterMap responseItemCallId).Nodup)
    (houtput : TextOutput item output)
    (hroom : AnswersCall valid (gatheredBehind crates valid items before) item ∨
      (gatheredBehind crates valid items before).facts.length < maxFacts) :
    ∃ message ∈ (compileResponsesInputWithToolOutputs crates (.array items) valid).messages,
      (redactInlineDataUrls output).take 4096 <:+: message.content := by
  apply compiled_array
  have hresolved : ∀ id, responseItemCallId item = some id →
      id ∈ collectResolvedToolCallIds items := by
    intro id hid
    have hmem : item ∈ items := by simp [hitems]
    rw [collectResolvedToolCallIds, mem_toFinset, mem_filterMap]
    exact ⟨item, mem_filter.mpr ⟨hmem, houtput.isToolOutput⟩, hid⟩
  rcases houtput.kind hresolved with ⟨id, fact, hkind⟩ | ⟨hunanswered, fact, hkind, hshown⟩
  · exact represented_result hdistinct hitems hkind
  · exact represented_fact hitems hkind (hroom.resolve_left hunanswered) hshown

end Compiled

/-- A result in front of its call is reported as a fact. -/
theorem earlyResult_represented :
    ∃ message ∈ (compileResponsesInputWithToolOutputs ⟨fun _ => none, fun _ => none⟩
        (.array [functionCallOutput "call_1" "ok", functionCall "call_1" "read_file"]) ∅).messages,
      (redactInlineDataUrls ("ok" : Text)).take 4096 <:+: message.content :=
  @output_represented [functionCallOutput "call_1" "ok", functionCall "call_1" "read_file"] []
    [functionCall "call_1" "read_file"] (functionCallOutput "call_1" "ok") "ok"
    ⟨fun _ => none, fun _ => none⟩ ∅ rfl (by decide) ⟨by decide, rfl⟩ (.inr (by decide))

/-- One result more than there is room for facts, none of them with a call. -/
def orphanedOutputs : List Value :=
  ((range maxFacts).map fun i => functionCallOutput (Text.ofNat i) "found") ++
    [functionCallOutput "last" "~"]

/-- All that is gathered is facts, and none of them holds the last output. -/
theorem gathered_orphans :
    let gathered := gatherItems ⟨fun _ => none, fun _ => none⟩ orphanedOutputs ∅
    gathered.messages.isEmpty = true ∧ gathered.facts.isEmpty = false ∧
      ∀ fact ∈ gathered.facts, '~' ∉ fact := by
  decide +kernel

theorem compiled_facts_only {crates : CoreCrates}
    (hmessages : (gatherItems crates items ∅).messages = [])
    (hfacts : (gatherItems crates items ∅).facts ≠ []) :
    (compileResponsesInputWithToolOutputs crates (.array items) ∅).messages =
      [verifiedFactsMessage (gatherItems crates items ∅).facts
        (gatherItems crates items ∅).diagnostic.truncatedItems] := by
  obtain ⟨fact, hfact⟩ := exists_mem_of_ne_nil _ hfacts
  have hgathered : gatheredMessages crates items ∅ =
      [verifiedFactsMessage (gatherItems crates items ∅).facts
        (gatherItems crates items ∅).diagnostic.truncatedItems] := by
    rw [gatheredMessages, if_neg hfacts, hmessages]
  have hkept : sanitizeChatToolProtocol (gatheredMessages crates items ∅) ∅ =
      [verifiedFactsMessage (gatherItems crates items ∅).facts
        (gatherItems crates items ∅).diagnostic.truncatedItems] := by
    obtain ⟨_, huseful, _⟩ := @factsMessage_shows ∅ (gatherItems crates items ∅).facts
      (gatherItems crates items ∅).diagnostic.truncatedItems fact [] hfact
    rw [hgathered, sanitizeChatToolProtocol, sanitize_factsMessage, sanitizeLoop,
      filter_cons_of_pos huseful, filter_nil]
  simp only [compileResponsesInputWithToolOutputs, hkept, cons_ne_nil, if_false]

theorem tilde_notMem_factsMessage {facts : List Text} (truncatedItems : ℕ)
    (h : ∀ fact ∈ facts, '~' ∉ fact) :
    '~' ∉ (verifiedFactsMessage facts truncatedItems).content := by
  have hheader : '~' ∉ verifiedFactsHeader := by decide +kernel
  have hdash : '~' ∉ ("- " : Text) := by decide
  have hnotice : '~' ∉
      (" additional fact item(s) were omitted by the deterministic context budget.\n" : Text) := by
    decide +kernel
  have hdigits : '~' ∉ Text.ofNat truncatedItems := fun hmem =>
    absurd (Text.digit_of_mem_ofNat hmem) (by decide)
  intro hmem
  rcases mem_append.mp hmem with hfront | hback
  · rcases mem_append.mp hfront with hmem | hlines
    · exact hheader hmem
    · obtain ⟨fact, hfact, hline⟩ := mem_flatMap.mp hlines
      simp [hdash, h fact hfact] at hline
  · split_ifs at hback
    · simp [hdash, hdigits, hnotice] at hback
    · simp at hback

/-- The output of the last one is in no message. -/
theorem last_output_lost :
    ((orphanedOutputs.filter responseItemIsToolOutput).filterMap responseItemCallId).Nodup ∧
      TextOutput (functionCallOutput "last" "~") "~" ∧
      functionCallOutput "last" "~" ∈ orphanedOutputs ∧
      ¬ ∃ message ∈ (compileResponsesInputWithToolOutputs ⟨fun _ => none, fun _ => none⟩
          (.array orphanedOutputs) ∅).messages,
        (redactInlineDataUrls ("~" : Text)).take 4096 <:+: message.content := by
  refine ⟨by decide +kernel, ⟨by decide, rfl⟩, mem_append_right _ mem_cons_self, ?_⟩
  obtain ⟨hmessages, hsome, hfacts⟩ := gathered_orphans
  rintro ⟨message, hm, hshown⟩
  have hlast : (redactInlineDataUrls ("~" : Text)).take 4096 = ['~'] := by decide +kernel
  rw [compiled_facts_only (by simpa using hmessages) (by simpa using hsome),
    mem_singleton] at hm
  rw [hm, hlast] at hshown
  exact tilde_notMem_factsMessage _ hfacts (hshown.subset mem_cons_self)

end CodeSeeX.Context
