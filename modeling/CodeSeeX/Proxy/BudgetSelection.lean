import CodeSeeX.Proxy.ContextBudget

/-!
# The selection keeps the tool protocol

A call message and its results stand in one block, and the loop leaves no block
selected in part: it visits every block, and takes all of a block that it finds
partly selected. What is sent is a concatenation of blocks, and each block of a
legal conversation is legal by itself.
-/
namespace CodeSeeX.Proxy.Budget

open TurnGrammar Blocks List

variable (messages : List ChatMessage) {call : ChatMessage} {rest : List ChatMessage}

/-- The blocks as lists of messages. -/
def messageGroups : List ChatMessage → List (List ChatMessage)
  | [] => []
  | message :: rest =>
      let results := rest.takeWhile (answersOneOf (expectedIds message))
      (message :: results) :: messageGroups (rest.drop results.length)
termination_by messages => messages.length

theorem messageGroups_cons (message : ChatMessage) (rest : List ChatMessage) :
    messageGroups (message :: rest) =
      (message :: rest.takeWhile (answersOneOf (expectedIds message))) ::
        messageGroups (rest.drop
          (rest.takeWhile (answersOneOf (expectedIds message))).length) := by
  rw [messageGroups]

theorem messageGroups_flatten :
    (messageGroups messages).flatten = messages := by
  induction messages using messageGroups.induct with
  | case1 => simp [messageGroups]
  | case2 message rest results ih =>
    rw [messageGroups_cons, flatten_cons, ih, cons_append,
      prefix_iff_eq_append.mp ( takeWhile_prefix _)]

theorem messageBlocks_eq_positions (index : ℕ) (messages : List ChatMessage) :
    messageBlocks index messages = positions index (messageGroups messages) := by
  induction messages using messageGroups.induct generalizing index with
  | case1 => simp [messageBlocks, messageGroups, positions]
  | case2 message rest results ih =>
    rw [messageBlocks, messageGroups_cons, positions, length_cons]
    exact congrArg _ (ih _)

/-! ### Blocks of a legal conversation -/

section Legality

variable {valid : Finset Text} {messages : List ChatMessage}

variable {message : ChatMessage}

/-- Only an assistant message with calls expects results. -/
theorem expectedIds_of_turn (h : ∀ ids, message.turn ≠ .calls ids) : expectedIds message = ∅ := by
  unfold expectedIds
  split_ifs with hrole
  · have hcalls : message.toolCalls.getD [] = [] := by
      by_contra hne
      have hturn : message.turn =
          .calls ((message.toolCalls.getD []).map fun call => call.getStr "id") := by
        simp [ChatMessage.turn, ChatMessage.issuedCalls, hrole, hne]
      exact h _ hturn
    rw [hcalls]
    rfl
  · rfl

theorem takeWhile_of_no_ids (h : expectedIds message = ∅)
    (rest : List ChatMessage) : rest.takeWhile (answersOneOf (expectedIds message)) = [] := by
  rw [takeWhile_eq_nil_iff]
  intro hpos
  simp [answersOneOf, h]

variable {ids : List (Option Text)}

theorem expectedIds_of_calls (h : message.turn = .calls ids) {id : Text} (hid : some id ∈ ids) :
    id ∈ expectedIds message := by
  unfold ChatMessage.turn ChatMessage.issuedCalls at h
  split_ifs at h with hrole hassistant hcalls
  · obtain rfl := Turn.calls.inj h
    simpa [expectedIds, hassistant] using hid
  · contradiction

theorem answer_of_turn {id : Option Text}
    (h : message.turn = .answer id) : message.role = "tool" ∧ message.toolCallId = id := by
  unfold ChatMessage.turn at h
  split_ifs at h with hrole hcalls
  exact ⟨hrole, Turn.answer.inj h⟩

theorem turn_of_answersOneOf {expected : Finset Text}
    (h : answersOneOf expected message = true) : message.turn = .answer message.toolCallId := by
  have hrole : message.role = "tool" := by
    simp only [answersOneOf, Bool.and_eq_true, decide_eq_true_eq] at h
    exact h.1
  simp [ChatMessage.turn, hrole]

/-- Answers in front of a legal conversation are loose ones. -/
theorem legal_split {answers : List ChatMessage} (hanswers : ∀ m ∈ answers, ∃ id, m.turn = .answer id)
    (h : LegalChat valid (answers ++ messages)) : LegalChat valid answers ∧ LegalChat valid messages := by
  induction answers with
  | nil => exact ⟨.nil, h⟩
  | cons first answers ih =>
    rw [forall_mem_cons] at hanswers
    obtain ⟨id, hid⟩ := hanswers.1
    unfold LegalChat at h ⊢
    rw [cons_append, map_cons, hid, Legal.answer_iff] at h
    obtain ⟨hfirst, hrest⟩ := ih hanswers.2 h.2
    rw [map_cons, hid]
    exact ⟨.loose h.1 hfirst, hrest⟩

theorem legal_from_call {before rest : List ChatMessage} (hturn : call.turn = .calls ids)
    (h : LegalChat valid (before ++ call :: rest)) : LegalChat valid (call :: rest) := by
  unfold LegalChat at h ⊢
  rw [map_append, map_cons, hturn] at h
  rw [map_cons, hturn]
  obtain ⟨given, after, hsplit, hanswers, hafter⟩ := Legal.after_calls h
  rw [hsplit]
  exact .group hanswers hafter

/-- The results of a legal call stand right behind it and are collected with it. -/
theorem results_collected (hturn : message.turn = .calls ids)
    (h : LegalChat valid (message :: rest)) :
    ∃ own others, rest = own ++ others ∧ own.map ChatMessage.turn = ids.map .answer ∧
      (∀ m ∈ own, answersOneOf (expectedIds message) m = true) ∧ LegalChat valid others ∧
      ids.Nodup ∧ ∀ id ∈ ids, id.isSome := by
  unfold LegalChat at h
  rw [map_cons, hturn] at h
  obtain ⟨given, after, hsplit, ⟨⟨rfl, hnodup⟩, hsome⟩, hafter⟩ :=
    @Legal.after_calls _ _ _ [] _ _ h
  obtain ⟨own, others, rfl, hown, rfl⟩ := map_eq_append_iff.mp hsplit
  refine ⟨own, others, rfl, hown, ?_, hafter, hnodup, hsome⟩
  intro m hm
  have hmem : m.turn ∈ given.map Turn.answer := hown ▸ mem_map_of_mem hm
  obtain ⟨id, hid, hanswer⟩ := mem_map.mp hmem
  obtain ⟨hrole, hcall⟩ := answer_of_turn hanswer.symm
  obtain ⟨text, rfl⟩ := Option.isSome_iff_exists.mp (hsome id hid)
  have hexpected : text ∈ expectedIds message := expectedIds_of_calls hturn hid
  simp [answersOneOf, hrole, hcall, hexpected]

theorem legal_first_group (h : LegalChat valid (message :: rest)) :
    LegalChat valid (message :: rest.takeWhile (answersOneOf (expectedIds message))) ∧
      LegalChat valid (rest.drop
        (rest.takeWhile (answersOneOf (expectedIds message))).length) := by
  cases hturn : message.turn with
  | plain =>
    rw [takeWhile_of_no_ids (expectedIds_of_turn (by simp [hturn]))]
    unfold LegalChat at h ⊢
    rw [map_cons, hturn, Legal.plain_iff] at h
    rw [map_cons, hturn]
    exact ⟨.plain .nil, h⟩
  | answer id =>
    rw [takeWhile_of_no_ids (expectedIds_of_turn (by simp [hturn]))]
    unfold LegalChat at h ⊢
    rw [map_cons, hturn, Legal.answer_iff] at h
    rw [map_cons, hturn]
    exact ⟨.loose h.1 .nil, h.2⟩
  | calls ids =>
    obtain ⟨own, others, rfl, hown, hcollected, hothers, hnodup, hsome⟩ :=
      results_collected hturn h
    rw [takeWhile_append_of_pos hcollected, length_append, ← drop_drop,
      drop_left]
    -- results collected beyond the call's own are loose ones
    have hextra : ∀ m ∈ others.takeWhile (answersOneOf (expectedIds message)),
        ∃ id, m.turn = .answer id :=
      fun m hm => ⟨_, turn_of_answersOneOf (mem_takeWhile_imp hm)⟩
    have hsplit := prefix_iff_eq_append.mp
      ( takeWhile_prefix (answersOneOf (expectedIds message)) (l := others))
    obtain ⟨hloose, hrest⟩ := legal_split hextra (hsplit.symm ▸ hothers)
    refine ⟨?_, hrest⟩
    unfold LegalChat at hloose ⊢
    rw [map_cons, hturn, map_append, hown]
    exact .group ⟨⟨rfl, hnodup⟩, hsome⟩ hloose

theorem legal_messageGroups (h : LegalChat valid messages) :
    ∀ group ∈ messageGroups messages, LegalChat valid group := by
  induction messages using messageGroups.induct with
  | case1 => simp [messageGroups]
  | case2 message rest results ih =>
    obtain ⟨hfirst, hrest⟩ := legal_first_group h
    rw [messageGroups_cons, forall_mem_cons]
    exact ⟨hfirst, ih hrest⟩

theorem legal_flatten {groups : List (List ChatMessage)}
    (h : ∀ group ∈ groups, LegalChat valid group) : LegalChat valid groups.flatten := by
  induction groups with
  | nil => exact .nil
  | cons group groups ih =>
    rw [forall_mem_cons] at h
    unfold LegalChat at h ih ⊢
    rw [flatten_cons, map_append]
    exact h.1.append (ih h.2)

/-- No block reaches over a call behind its first message. -/
theorem takeWhile_before_call {before rest : List ChatMessage} (hturn : call.turn = .calls ids)
    (expected : Finset Text) :
    (before ++ call :: rest).takeWhile (answersOneOf expected) =
      before.takeWhile (answersOneOf expected) := by
  have hcall : answersOneOf expected call = false := by
    by_contra hne
    have hanswer := turn_of_answersOneOf (Bool.not_eq_false _ ▸ hne)
    rw [hturn] at hanswer
    contradiction
  induction before with
  | nil => simp [hcall]
  | cons first before ih =>
    rw [cons_append, takeWhile_cons, takeWhile_cons, ih]

/-- A call and its results stand in one block. -/
theorem group_in_block (start : ℕ) (before : List ChatMessage) (hturn : call.turn = .calls ids)
    (h : LegalChat valid (call :: rest)) :
    ∃ block ∈ messageBlocks start (before ++ call :: rest),
      ∀ i, start + before.length ≤ i → i ≤ start + before.length + ids.length → i ∈ block := by
  induction hlength : before.length using Nat.strong_induction_on generalizing before start with
  | _ length ih =>
    cases before with
    | nil =>
      obtain ⟨own, others, rfl, hown, hcollected, _⟩ := results_collected hturn h
      obtain rfl : 0 = length := hlength
      rw [nil_append, messageBlocks]
      refine ⟨_, mem_cons_self, ?_⟩
      intro i hfrom hto
      have hids : own.length = ids.length := by simpa using congrArg length hown
      rw [takeWhile_append_of_pos hcollected, length_append, mem_range'_1]
      omega
    | cons first before =>
      rw [cons_append, messageBlocks, takeWhile_before_call hturn]
      have hle := ( takeWhile_prefix (answersOneOf (expectedIds first))
        (l := before)).length_le
      rw [length_cons] at hlength
      rw [drop_append_of_le_length hle]
      have hshorter : (before.drop
          (before.takeWhile (answersOneOf (expectedIds first))).length).length < length := by
        rw [length_drop]
        omega
      obtain ⟨block, hblock, hcovers⟩ := ih _ hshorter _ _ rfl
      refine ⟨block, mem_cons_of_mem _ hblock, ?_⟩
      intro i hfrom hto
      apply hcovers i
      · rw [length_drop]
        omega
      · rw [length_drop]
        omega

end Legality

/-! ### The loop over the blocks -/

theorem takeBlock_indexes (maxBytes : ℕ) (selection : Selection) (block : List ℕ) :
    (takeBlock messages maxBytes selection block).indexes =
        selection.indexes ∪ block.toFinset ∨
      (takeBlock messages maxBytes selection block).indexes = selection.indexes ∧
        ∀ i ∈ block, i ∉ selection.indexes := by
  unfold takeBlock
  dsimp only
  split_ifs with hany hfits
  · exact .inl rfl
  · exact .inl rfl
  · exact .inr ⟨rfl, by simpa using hany⟩

/-- After the loop every block met is whole, and nothing selected is given up. -/
theorem whole_after_loop (maxBytes : ℕ) {blocks : List (List ℕ)} (selection : Selection)
    (hdisjoint : blocks.Pairwise List.Disjoint) :
    selection.indexes ⊆ (blocks.foldl (takeBlock messages maxBytes) selection).indexes ∧
      (∀ i ∈ (blocks.foldl (takeBlock messages maxBytes) selection).indexes,
        i ∈ selection.indexes ∨ ∃ block ∈ blocks, i ∈ block) ∧
      ∀ block ∈ blocks, Whole (blocks.foldl (takeBlock messages maxBytes) selection).indexes
        block := by
  induction blocks generalizing selection with
  | nil => simp
  | cons block blocks ih =>
    rw [pairwise_cons] at hdisjoint
    rw [foldl_cons]
    generalize hnext : takeBlock messages maxBytes selection block = next
    obtain ⟨hsub, hfrom, hwhole⟩ := ih next hdisjoint.2
    generalize blocks.foldl (takeBlock messages maxBytes) next = final at hsub hfrom hwhole ⊢
    have hstep := takeBlock_indexes messages maxBytes selection block
    rw [hnext] at hstep
    rcases hstep with htaken | ⟨hleft, hapart⟩
    · rw [htaken] at hsub hfrom
      have hblock : ∀ i ∈ block, i ∈ final.indexes :=
        fun i hi => hsub (Finset.mem_union_right _ (mem_toFinset.mpr hi))
      refine ⟨Finset.union_subset_left hsub, ?_, forall_mem_cons.mpr ⟨.inl hblock, hwhole⟩⟩
      intro i hi
      rcases hfrom i hi with hin | ⟨later, hlater, hin⟩
      · rcases Finset.mem_union.mp hin with hold | hnew
        · exact .inl hold
        · exact .inr ⟨block, mem_cons_self, mem_toFinset.mp hnew⟩
      · exact .inr ⟨later, mem_cons_of_mem _ hlater, hin⟩
    · rw [hleft] at hsub hfrom
      -- a block left out stays out: later blocks do not overlap it
      have hblock : ∀ i ∈ block, i ∉ final.indexes := by
        intro i hi hin
        rcases hfrom i hin with hold | ⟨later, hlater, hin'⟩
        · exact hapart i hi hold
        · exact hdisjoint.1 later hlater hi hin'
      refine ⟨hsub, ?_, forall_mem_cons.mpr ⟨.inr hblock, hwhole⟩⟩
      intro i hi
      rcases hfrom i hi with hin | ⟨later, hlater, hin⟩
      · exact .inl hin
      · exact .inr ⟨later, mem_cons_of_mem _ hlater, hin⟩

theorem finalSelection_whole (protectedStartIndex maxBytes : ℕ) :
    (firstSelection messages protectedStartIndex).indexes ⊆
        (finalSelection messages protectedStartIndex maxBytes).indexes ∧
      ∀ block ∈ messageBlocks 0 messages,
        Whole (finalSelection messages protectedStartIndex maxBytes).indexes block := by
  have hdisjoint : (messageBlocks 0 messages).reverse.Pairwise List.Disjoint := by
    rw [pairwise_reverse, messageBlocks_eq_positions]
    exact positions_pairwise.imp List.Disjoint.symm
  obtain ⟨hsub, _, hwhole⟩ := whole_after_loop messages maxBytes
    (firstSelection messages protectedStartIndex) hdisjoint
  exact ⟨hsub, fun block hblock => hwhole block (mem_reverse.mpr hblock)⟩

/-- The messages sent are those at the selected indexes, in order; they obey the protocol, hold
every message that is kept whatever the budget, and hold a call and its results together or
not at all. -/
theorem selection_keeps_protocol {valid : Finset Text} {messages : List ChatMessage}
    (h : LegalChat valid messages) (protectedStartIndex maxBytes : ℕ) :
    ∃ kept : Finset ℕ,
      (selectBudgetedMessageBlocks messages protectedStartIndex maxBytes).messages =
          pick kept 0 messages ∧
        (pick kept 0 messages).Sublist messages ∧
        LegalChat valid (pick kept 0 messages) ∧
        (∀ index message, messages[index]? = some message →
          (message.role = ("system" : Text) ∨ isProtectedContextMessage message = true ∨
            protectedStartIndex ≤ index) → index ∈ kept) ∧
        ∀ before call results after ids, messages = before ++ call :: results ++ after →
          call.turn = .calls ids → results.length = ids.length →
          (∀ index, before.length ≤ index → index ≤ before.length + results.length →
            index ∈ kept) ∨
          (∀ index, before.length ≤ index → index ≤ before.length + results.length →
            index ∉ kept) := by
  obtain ⟨hsub, hwhole⟩ := finalSelection_whole messages protectedStartIndex maxBytes
  refine ⟨(finalSelection messages protectedStartIndex maxBytes).indexes, rfl, pick_sublist,
    ?_, ?_, ?_⟩
  · rw [messageBlocks_eq_positions] at hwhole
    obtain ⟨chosen, hchosen, hpick⟩ := pick_flatten hwhole
    rw [messageGroups_flatten] at hpick
    rw [hpick]
    exact legal_flatten fun group hgroup => legal_messageGroups h group (hchosen.subset hgroup)
  · intro index message hmessage hkept
    apply hsub
    apply Finset.mem_union_left
    have hrange : index < messages.length := (List.getElem?_eq_some_iff.mp hmessage).1
    rw [mandatoryIndexes, Finset.mem_filter, Finset.mem_range, hmessage]
    refine ⟨hrange, ?_⟩
    simp only [Option.any_some, mandatory, Bool.or_eq_true, decide_eq_true_eq]
    tauto
  · rintro before call results after ids rfl hturn hlength
    rw [append_assoc, cons_append] at h hwhole ⊢
    obtain ⟨block, hblock, hcovers⟩ :=
      group_in_block 0 before hturn (legal_from_call hturn h)
    have hmem : ∀ index, before.length ≤ index → index ≤ before.length + results.length →
        index ∈ block := by
      intro index hfrom hto
      apply hcovers
      · omega
      · omega
    rcases hwhole block hblock with hall | hnone
    · exact .inl fun index hfrom hto => hall index (hmem index hfrom hto)
    · exact .inr fun index hfrom hto => hnone index (hmem index hfrom hto)

/-- A call with two results; the boundary of the protected messages may fall between them. -/
def cutGroup : List ChatMessage :=
  [ChatMessage.text "system" "be brief", ChatMessage.text "user" "an earlier question",
    ChatMessage.assistantToolCalls
      [.object [(("id" : Text), .string "a")], .object [(("id" : Text), .string "b")]] [],
    ChatMessage.toolResult "a" "the first result", ChatMessage.toolResult "b" "the second",
    ChatMessage.text "user" "go on"]

theorem cutGroup_keeps_protocol :
    ∃ kept : Finset ℕ, (selectBudgetedMessageBlocks cutGroup 4 300).messages =
        pick kept 0 cutGroup ∧ LegalChat ∅ (pick kept 0 cutGroup) ∧ 5 ∈ kept := by
  have hturns : cutGroup.map ChatMessage.turn =
      [.plain, .plain, .calls [some ("a" : Text), some ("b" : Text)],
        .answer (some ("a" : Text)), .answer (some ("b" : Text)), .plain] := rfl
  have hgroup : LegalChat ∅ cutGroup := by
    unfold LegalChat
    rw [hturns]
    exact .plain (.plain (@Legal.group _ _ _ [.plain] _ [some ("a" : Text), some ("b" : Text)]
      ⟨⟨rfl, by decide⟩, by decide⟩ (.plain .nil)))
  obtain ⟨kept, hpick, _, hlegal, hmandatory, _⟩ := selection_keeps_protocol hgroup 4 300
  exact ⟨kept, hpick, hlegal, hmandatory 5 _ rfl (by decide)⟩

end CodeSeeX.Proxy.Budget
