import CodeSeeX.Core.ContextProtocol

/-!
# When the results of a message close

The protocol pass keeps a message with calls exactly if its ids are distinct and the
loop adds the results of all of them before any other message. `ResultsClose` says
so on the items.
-/
namespace CodeSeeX.Context
open List Option

variable {message : ChatMessage} {rest : List ChatMessage} {messages : List ChatMessage}

/-! ### The protocol pass at a message that is no result -/

theorem scanToolMessages_append (expected seen : Finset Text) (messages : List ChatMessage)
    (h : message.role ≠ "tool") :
    scanToolMessages expected seen (messages ++ message :: rest) =
      ((scanToolMessages expected seen messages).1, (scanToolMessages expected seen messages).2.1,
        (scanToolMessages expected seen messages).2.2 ++ message :: rest) := by
  induction messages generalizing seen with
  | nil => simp [scanToolMessages, h]
  | cons first messages ih =>
    simp only [cons_append, scanToolMessages]
    split_ifs
    · cases first.toolCallId with
      | none => rfl
      | some id =>
        dsimp only
        split_ifs
        · exact ih (insert id seen)
        · rw [ih (insert id seen)]
        · rfl
    · rfl

/-- A message that is no result cuts the protocol pass in two. -/
theorem sanitizeLoop_append (valid : Finset Text) (messages : List ChatMessage)
    (rest : List ChatMessage) (h : message.role ≠ "tool") :
    sanitizeLoop valid (messages ++ message :: rest) =
      sanitizeLoop valid messages ++ sanitizeLoop valid (message :: rest) := by
  fun_induction sanitizeLoop valid messages with
  | case1 => rfl
  | case2 first messages expected hexp scan hcard ih =>
    have hscan : scanToolMessages expected.toFinset ∅ (messages ++ message :: rest) =
        (scan.1, scan.2.1, scan.2.2 ++ message :: rest) :=
      scanToolMessages_append expected.toFinset ∅ messages h
    rw [cons_append, sanitizeLoop, if_pos hexp]
    simp only [hscan, expected] at hcard ⊢
    rw [if_pos hcard, ih]
    simp only [cons_append, append_assoc]
  | case3 first messages expected hexp scan hcard ih =>
    have hscan : scanToolMessages expected.toFinset ∅ (messages ++ message :: rest) =
        (scan.1, scan.2.1, scan.2.2 ++ message :: rest) :=
      scanToolMessages_append expected.toFinset ∅ messages h
    rw [cons_append, sanitizeLoop, if_pos hexp]
    simp only [hscan, expected] at hcard ⊢
    rw [if_neg hcard, ih]
    simp only [append_assoc]
  | case4 first messages expected hexp htool ih =>
    rw [cons_append, sanitizeLoop, if_neg hexp, if_pos htool, ih, cons_append]
  | case5 first messages expected hexp hnvalid htool ih =>
    rw [cons_append, sanitizeLoop, if_neg hexp, if_neg hnvalid, if_pos htool, ih,
      cons_append]
  | case6 first messages expected hexp hnvalid htool ih =>
    rw [cons_append, sanitizeLoop, if_neg hexp, if_neg hnvalid, if_neg htool, ih,
      cons_append]

/-- The messages of the pass that issue calls are messages that it was given. -/
theorem mem_of_issuing {valid : Finset Text} (h : message ∈ sanitizeLoop valid messages)
    (hcalls : message.issuedCalls ≠ []) :
    message ∈ messages := by
  have horphan : ∀ m, (orphanToolResultFact m).issuedCalls = [] := fun m => rfl
  fun_induction sanitizeLoop valid messages with
  | case1 => simp at h
  | case2 first rest expected hexp scan hcard ih =>
    rw [mem_cons, mem_append] at h
    rcases h with rfl | h | h
    · simp
    · obtain ⟨consumed, hrest, _, hsub⟩ := scanToolMessages_consumed expected.toFinset ∅ rest
      have hmem := hsub.subset (orderedToolMessages_subset h)
      rw [hrest]
      simp [hmem]
    · exact mem_cons_of_mem _ (scanToolMessages_rest_suffix.subset (ih h))
  | case3 first rest expected hexp scan hcard ih =>
    rw [mem_append, mem_append] at h
    rcases h with (h | h) | h
    · have hdown := turn_downgraded (mem_toList.mp h) (role_of_expectedIds_ne_nil hexp)
      unfold ChatMessage.turn at hdown
      split_ifs at hdown
    · obtain ⟨m, _, rfl⟩ := mem_map.mp h
      exact absurd (horphan m) hcalls
    · exact mem_cons_of_mem _ (scanToolMessages_rest_suffix.subset (ih h))
  | case4 first rest expected hexp htool ih =>
    rcases mem_cons.mp h with rfl | h
    · simp
    · exact mem_cons_of_mem _ (ih h)
  | case5 first rest expected hexp hnvalid htool ih =>
    rcases mem_cons.mp h with rfl | h
    · exact absurd (horphan first) hcalls
    · exact mem_cons_of_mem _ (ih h)
  | case6 first rest expected hexp hnvalid htool ih =>
    rcases mem_cons.mp h with rfl | h
    · simp
    · exact mem_cons_of_mem _ (ih h)

/-- The scan is complete exactly if the ids are distinct and it meets all of them. -/
theorem scan_card_iff (ids : List Text) (messages : List ChatMessage) :
    (scanToolMessages ids.toFinset ∅ messages).2.1.card = ids.length ↔
      ids.Nodup ∧ ids.toFinset ⊆ (scanToolMessages ids.toFinset ∅ messages).2.1 := by
  constructor
  · intro h
    obtain ⟨hnodup, hall⟩ := scan_complete h
    refine ⟨hnodup, ?_⟩
    intro id hid
    exact mem_scanToolMessages_seen.mpr (.inr (hall id (mem_toFinset.mp hid)))
  · rintro ⟨hnodup, hsub⟩
    have hsup : (scanToolMessages ids.toFinset ∅ messages).2.1 ⊆ ids.toFinset := by
      intro id hid
      rcases mem_scanToolMessages_seen.mp hid with hmem | ⟨m, hm, hmid⟩
      · simp at hmem
      · obtain ⟨_, id', hexp, hid', _⟩ := scanToolMessages_spec hm
        rw [hmid, some.injEq] at hid'
        exact hid' ▸ hexp
    rw [Finset.Subset.antisymm hsup hsub]
    exact toFinset_card_of_nodup hnodup

/-! ### The results that the loop adds -/

section Close

variable {crates : CoreCrates} {resolved valid expected seen : Finset Text} {st : CompileState}

/-- Every expected id that is not seen yet gets its result before the loop adds anything else. -/
def ResultsClose (crates : CoreCrates) (resolved valid expected : Finset Text) :
    Finset Text → CompileState → List Value → Prop
  | seen, _, [] => expected ⊆ seen
  | seen, st, item :: items =>
      let later := fun seen => ResultsClose crates resolved valid expected seen
        (compileStep crates resolved valid st item) items
      expected ⊆ seen ∨
        match itemKind crates resolved valid st item with
        | .reasoning _ => later seen
        | .verifiedFact _ => later seen
        | .unsupported => later seen
        | .toolResult message none => ∃ id ∈ expected, message.toolCallId = some id ∧
            later (insert id seen)
        | .toolResult message (some _) => ∃ id ∈ expected, message.toolCallId = some id ∧
            expected ⊆ insert id seen
        | _ => False

/-- The scan of these messages has met every expected id. -/
def MeetsAll (expected seen : Finset Text) (messages : List ChatMessage) : Prop :=
  expected ⊆ (scanToolMessages expected seen messages).2.1

theorem meetsAll_of_subset (h : expected ⊆ seen) :
    MeetsAll expected seen messages :=
  fun _ hid => mem_scanToolMessages_seen.mpr (.inl (h hid))

theorem meetsAll_of_not_tool (h : message.role ≠ "tool") :
    MeetsAll expected seen (message :: rest) ↔ expected ⊆ seen := by
  unfold MeetsAll
  simp only [scanToolMessages, h, if_false]

theorem meetsAll_tool {id content : Text} :
    MeetsAll expected seen (ChatMessage.toolResult id content :: rest) ↔
      expected ⊆ seen ∨ id ∈ expected ∧ MeetsAll expected (insert id seen) rest := by
  by_cases hid : id ∈ expected
  · have hscan : (scanToolMessages expected seen (ChatMessage.toolResult id content :: rest)).2.1 =
        (scanToolMessages expected (insert id seen) rest).2.1 := by
      simp only [scanToolMessages, ChatMessage.toolResult, if_true, hid, not_true_eq_false,
        if_false]
      split_ifs <;> rfl
    unfold MeetsAll
    rw [hscan]
    constructor
    · exact fun h => .inr ⟨hid, h⟩
    · rintro (h | ⟨_, h⟩)
      · exact meetsAll_of_subset (h.trans (Finset.subset_insert id seen))
      · exact h
  · unfold MeetsAll
    simp [scanToolMessages, ChatMessage.toolResult, hid]

section
variable {message : ChatMessage} (items : List Value)
  (h : st.pendingAssistant.message = some message)
include h

/-- A state with a pending message adds an assistant message before anything else. -/
theorem emissions_pending :
    ∃ m rest, emissions crates resolved valid st items = m :: rest ∧ m.role = "assistant" := by
  induction items generalizing st message with
  | nil => exact ⟨message, [], by simp [emissions, h], (pendingMessage_eq h).1⟩
  | cons item items ih =>
    cases hkind : itemKind crates resolved valid st item with
    | reasoning text =>
      have hstep : compileStep crates resolved valid st item = reasoningStep st text := by
        simp only [compileStep, hkind]
      obtain ⟨m, rest, heq, hrole⟩ := @ih (reasoningStep st text) message h
      exact ⟨m, rest, by simp [emissions, hkind, ItemKind.flushes, ItemKind.emitted, hstep, heq],
        hrole⟩
    | toolCall call =>
      have hstep : compileStep crates resolved valid st item = toolCallStep st call := by
        simp only [compileStep, hkind]
      obtain ⟨next, hnext⟩ := @pendingMessage_isSome (toolCallStep st call).pendingAssistant
        (.inr (by simp [toolCallStep]))
      obtain ⟨m, rest, heq, hrole⟩ := ih hnext
      exact ⟨m, rest, by simp [emissions, hkind, ItemKind.flushes, ItemKind.emitted, hstep, heq],
        hrole⟩
    | _ => exact ⟨message, _, by simp [emissions, hkind, ItemKind.flushes, h]; rfl,
        (pendingMessage_eq h).1⟩

theorem not_meetsAll_pending :
    MeetsAll expected seen (emissions crates resolved valid st items) ↔ expected ⊆ seen := by
  obtain ⟨m, rest, heq, hrole⟩ := @emissions_pending crates resolved valid st message items h
  rw [heq, meetsAll_of_not_tool]
  simp [hrole]

end

theorem flush_settled (st : CompileState) : st.flush.pendingAssistant.message = none := by
  unfold CompileState.flush
  cases hmsg : st.pendingAssistant.message with
  | some message => rfl
  | none => exact hmsg

/-- Behind an item that flushes nothing is pending, unless the item is an assistant message. -/
theorem compileStep_settled {item : Value}
    (hst : st.pendingAssistant.message = none ∨
      (itemKind crates resolved valid st item).flushes = true)
    (hkind : match itemKind crates resolved valid st item with
      | .toolCall _ => False
      | .message message => message.role ≠ "assistant"
      | _ => True) :
    (compileStep crates resolved valid st item).pendingAssistant.message = none := by
  have hflush := flush_settled st
  unfold compileStep
  cases hcase : itemKind crates resolved valid st item with
  | reasoning text =>
    rw [hcase] at hst
    exact hst.resolve_right (by simp [ItemKind.flushes])
  | toolCall call => simp [hcase] at hkind
  | message message =>
    simp only [hcase] at hkind
    simpa [messageStep, hkind] using hflush
  | _ => exact hflush

theorem meetsAll_step {item : Value} {items : List Value}
    (hst : st.pendingAssistant.message = none ∨
      (itemKind crates resolved valid st item).flushes = true)
    (hlater : ∀ seen, (compileStep crates resolved valid st item).pendingAssistant.message = none →
      (MeetsAll expected seen (emissions crates resolved valid
          (compileStep crates resolved valid st item) items) ↔
        ResultsClose crates resolved valid expected seen
          (compileStep crates resolved valid st item) items)) :
    MeetsAll expected seen ((itemKind crates resolved valid st item).emitted ++
        emissions crates resolved valid (compileStep crates resolved valid st item) items) ↔
      ResultsClose crates resolved valid expected seen st (item :: items) := by
  have hspec := itemKind_spec crates resolved valid st item
  have hsettled := @compileStep_settled crates resolved valid st item hst
  unfold ResultsClose
  -- an item that adds no message leaves the question to the rest
  have quiet : (compileStep crates resolved valid st item).pendingAssistant.message = none →
      (MeetsAll expected seen ([] ++ emissions crates resolved valid
          (compileStep crates resolved valid st item) items) ↔
        expected ⊆ seen ∨ ResultsClose crates resolved valid expected seen
          (compileStep crates resolved valid st item) items) := by
    intro h
    rw [nil_append, hlater seen h]
    constructor
    · exact .inr
    · rintro (hsub | hclose)
      · exact (hlater seen h).mp (meetsAll_of_subset hsub)
      · exact hclose
  cases hkind : itemKind crates resolved valid st item with
  | reasoning text =>
    rw [hkind] at hsettled
    exact quiet (hsettled trivial)
  | verifiedFact fact =>
    rw [hkind] at hsettled
    exact quiet (hsettled trivial)
  | unsupported =>
    rw [hkind] at hsettled
    exact quiet (hsettled trivial)
  | toolCall call =>
    have hstep : compileStep crates resolved valid st item = toolCallStep st call := by
      simp only [compileStep, hkind]
    obtain ⟨next, hnext⟩ := @pendingMessage_isSome (toolCallStep st call).pendingAssistant
      (.inr (by simp [toolCallStep]))
    simp only [ItemKind.emitted, nil_append, hstep, or_false]
    exact not_meetsAll_pending items hnext
  | compaction m =>
    rw [hkind] at hspec
    obtain ⟨text, _, rfl⟩ := compactionMessage_eq hspec
    simp only [ItemKind.emitted, singleton_append, or_false]
    exact meetsAll_of_not_tool (by simp [ChatMessage.text])
  | message m =>
    rw [hkind] at hspec
    simp only [ItemKind.emitted, or_false]
    by_cases hrole : m.role = "assistant"
    · have hcontent : m.content.isBlank = false := responseItemToMessage_not_blank hspec.2
      have hstep : compileStep crates resolved valid st item = messageStep st m := by
        simp only [compileStep, hkind]
      obtain ⟨next, hnext⟩ := @pendingMessage_isSome (messageStep st m).pendingAssistant
        (.inl (by simp [messageStep, hrole, hcontent]))
      rw [if_pos hrole, nil_append, hstep]
      exact not_meetsAll_pending items hnext
    · rw [if_neg hrole, singleton_append]
      exact meetsAll_of_not_tool (role_ne_tool hspec.1 hspec.2)
  | toolResult m fact =>
    rw [hkind] at hspec hsettled
    obtain ⟨id, _, rfl, _⟩ := toolResultMessage_eq hspec.2
    have hexpects : ∀ p : Text → Prop,
        (∃ i ∈ expected, some id = some i ∧ p i) ↔ id ∈ expected ∧ p id := by
      intro p
      constructor
      · rintro ⟨i, hi, heq, hp⟩
        rw [some.inj heq]
        exact ⟨hi, hp⟩
      · rintro ⟨hi, hp⟩
        exact ⟨id, hi, rfl, hp⟩
    simp only [ItemKind.emitted, cons_append, meetsAll_tool]
    cases fact with
    | none =>
      simp only [map_none, toList_none, nil_append, ChatMessage.toolResult,
        hexpects, hlater _ (hsettled trivial)]
    | some text =>
      have huser : (userMessage text).role ≠ "tool" := by simp [userMessage, ChatMessage.text]
      simp only [map_some, toList_some, singleton_append,
        meetsAll_of_not_tool huser, ChatMessage.toolResult, hexpects]

theorem meetsAll_emissions (items : List Value) (hst : st.pendingAssistant.message = none) :
    MeetsAll expected seen (emissions crates resolved valid st items) ↔
      ResultsClose crates resolved valid expected seen st items := by
  induction items generalizing st seen with
  | nil => simp [emissions, ResultsClose, MeetsAll, scanToolMessages, hst]
  | cons item items ih =>
    have hshape : emissions crates resolved valid st (item :: items) =
        (itemKind crates resolved valid st item).emitted ++
          emissions crates resolved valid (compileStep crates resolved valid st item) items := by
      simp [emissions, hst]
    rw [hshape]
    exact meetsAll_step (.inl hst) fun seen h => ih h

end Close

end CodeSeeX.Context
