import CodeSeeX.Core.ContextLoop

/-!
# Compiled messages obey the chat tool protocol

The loop over the items only ever adds assistant messages whose calls carry an id;
from such messages the protocol pass makes a legal conversation, whatever the order
of the messages and the ids.
-/
namespace CodeSeeX.Context

open TurnGrammar Option List

variable {ids : List Text}

/-! ### The scan behind an assistant message -/

section Scan

variable {expected seen : Finset Text} {messages : List ChatMessage}

theorem scanToolMessages_spec {message : ChatMessage}
    (h : message ∈ (scanToolMessages expected seen messages).1) :
    message.role = "tool" ∧ ∃ id ∈ expected, message.toolCallId = some id ∧ id ∉ seen := by
  induction messages generalizing seen with
  | nil => simp [scanToolMessages] at h
  | cons first rest ih =>
    simp only [scanToolMessages] at h
    split_ifs at h with hrole
    · cases hid : first.toolCallId with
      | none => simp [hid] at h
      | some id =>
        have later : message ∈ (scanToolMessages expected (insert id seen) rest).1 →
            message.role = "tool" ∧ ∃ id ∈ expected, message.toolCallId = some id ∧ id ∉ seen := by
          intro hmem
          obtain ⟨ht, id', he, hm, hns⟩ := ih hmem
          exact ⟨ht, id', he, hm, fun hs => hns (Finset.mem_insert_of_mem hs)⟩
        simp only [hid] at h
        by_cases hexp : id ∈ expected
        · by_cases hseen : id ∈ seen
          · exact later (by simpa [hexp, hseen] using h)
          · have hcases : message = first ∨
                message ∈ (scanToolMessages expected (insert id seen) rest).1 := by
              simpa [hexp, hseen] using h
            rcases hcases with rfl | hmem
            · exact ⟨hrole, id, hexp, hid, hseen⟩
            · exact later hmem
        · simp [hexp] at h
    · simp at h

theorem mem_scanToolMessages_seen {id : Text} :
    id ∈ (scanToolMessages expected seen messages).2.1 ↔
      id ∈ seen ∨ ∃ m ∈ (scanToolMessages expected seen messages).1, m.toolCallId = some id := by
  induction messages generalizing seen with
  | nil => simp [scanToolMessages]
  | cons first rest ih =>
    simp only [scanToolMessages]
    split_ifs with hrole
    · cases hid : first.toolCallId with
      | none => simp
      | some id' =>
        by_cases hexp : id' ∈ expected
        · by_cases hseen : id' ∈ seen
          · simp [hexp, hseen, ih, Finset.insert_eq_of_mem hseen]
          · simp only [hexp, hseen, not_true_eq_false, if_false, ih, Finset.mem_insert,
              mem_cons, exists_eq_or_imp, hid, some.injEq]
            constructor
            · rintro ((rfl | hs) | hm)
              · exact .inr (.inl rfl)
              · exact .inl hs
              · exact .inr (.inr hm)
            · rintro (hs | rfl | hm)
              · exact .inl (.inr hs)
              · exact .inl (.inl rfl)
              · exact .inr hm
        · simp [hexp]
    · simp

/-- The scan consumes `tool` messages only; what it keeps of them is in their order. -/
theorem scanToolMessages_consumed (expected seen : Finset Text) (messages : List ChatMessage) :
    ∃ consumed, messages = consumed ++ (scanToolMessages expected seen messages).2.2 ∧
      (∀ m ∈ consumed, m.role = "tool") ∧
      (scanToolMessages expected seen messages).1.Sublist consumed := by
  induction messages generalizing seen with
  | nil => exact ⟨[], by simp [scanToolMessages]⟩
  | cons first rest ih =>
    simp only [scanToolMessages]
    split_ifs with hrole
    · cases first.toolCallId with
      | none => exact ⟨[], by simp⟩
      | some id =>
        obtain ⟨consumed, hmessages, htools, hsub⟩ := ih (insert id seen)
        have htools' : ∀ m ∈ first :: consumed, m.role = "tool" :=
          forall_mem_cons.mpr ⟨hrole, htools⟩
        dsimp only
        split_ifs
        · exact ⟨first :: consumed, by simp [← hmessages], htools', hsub.cons first⟩
        · exact ⟨first :: consumed, by simp [← hmessages], htools', hsub.cons_cons first⟩
        · exact ⟨[], by simp⟩
    · exact ⟨[], by simp⟩

/-- What the scan left behind it is the tail of what it was given. -/
theorem scanToolMessages_rest_suffix :
    (scanToolMessages expected seen messages).2.2 <:+ messages := by
  obtain ⟨consumed, hmessages, _⟩ := scanToolMessages_consumed expected seen messages
  exact ⟨consumed, hmessages.symm⟩

end Scan

variable {messages : List ChatMessage}

/-- A complete scan has met every expected id, and no id was expected twice. -/
theorem scan_complete (h : (scanToolMessages ids.toFinset ∅ messages).2.1.card = ids.length) :
    ids.Nodup ∧ ∀ id ∈ ids, ∃ m ∈ (scanToolMessages ids.toFinset ∅ messages).1,
      m.toolCallId = some id := by
  have hsub : (scanToolMessages ids.toFinset ∅ messages).2.1 ⊆ ids.toFinset := by
    intro id hid
    rcases mem_scanToolMessages_seen.mp hid with hmem | ⟨m, hm, hmid⟩
    · simp at hmem
    · obtain ⟨_, id', hexp, hid', _⟩ := scanToolMessages_spec hm
      rw [hmid, some.injEq] at hid'
      exact hid' ▸ hexp
  have hcard : ids.toFinset.card ≤ ids.length := ids.toFinset_card_le
  have heq : (scanToolMessages ids.toFinset ∅ messages).2.1 = ids.toFinset :=
    Finset.eq_of_subset_of_card_le hsub (h ▸ hcard)
  constructor
  · rw [heq] at h
    exact Multiset.toFinset_card_eq_card_iff_nodup.mp h
  · intro id hid
    have hseen : id ∈ (scanToolMessages ids.toFinset ∅ messages).2.1 := by simpa [heq] using hid
    simpa using mem_scanToolMessages_seen.mp hseen

variable {message : ChatMessage}

theorem orderedToolMessages_subset (h : message ∈ orderedToolMessages messages ids) :
    message ∈ messages := by
  induction ids generalizing messages with
  | nil => simp [orderedToolMessages] at h
  | cons id ids ih =>
    simp only [orderedToolMessages] at h
    cases hfind : messages.find? fun m => m.toolCallId = some id with
    | none => simp only [hfind] at h; exact ih h
    | some first =>
      simp only [hfind, mem_cons] at h
      rcases h with rfl | h
      · exact mem_of_find?_eq_some hfind
      · exact mem_of_mem_filter (ih h)

/-- Ordered by distinct ids that all have a message, the messages carry the ids in order. -/
theorem orderedToolMessages_ids (hnodup : ids.Nodup)
    (hall : ∀ id ∈ ids, ∃ m ∈ messages, m.toolCallId = some id) :
    (orderedToolMessages messages ids).map ChatMessage.toolCallId = ids.map some := by
  induction ids generalizing messages with
  | nil => rfl
  | cons id ids ih =>
    have hfind : ∃ first, (messages.find? fun m => m.toolCallId = some id) = some first := by
      obtain ⟨m, hm, hid⟩ := hall id (by simp)
      exact isSome_iff_exists.mp (find?_isSome.mpr ⟨m, hm, by simpa using hid⟩)
    obtain ⟨first, hfirst⟩ := hfind
    have hfirstId : first.toolCallId = some id := by simpa using find?_some hfirst
    have hrest : ∀ id' ∈ ids, ∃ m ∈ messages.filter fun m => m.toolCallId ≠ some id,
        m.toolCallId = some id' := by
      intro id' hid'
      obtain ⟨m, hm, hmid⟩ := hall id' (by simp [hid'])
      have hne : id' ≠ id := fun heq => (nodup_cons.mp hnodup).1 (heq ▸ hid')
      exact ⟨m, mem_filter.mpr ⟨hm, by simpa [hmid] using hne⟩, hmid⟩
    have hids := ih (nodup_cons.mp hnodup).2 hrest
    simp only [orderedToolMessages, hfirst, map_cons, hfirstId, hids]

/-! ### The protocol pass -/

/-- Every call that the message issues carries an id. -/
def CallsIdentified (message : ChatMessage) : Prop :=
  ∀ call ∈ message.issuedCalls, (toolCallId call).isSome

theorem getStr_of_toolCallId {call : Value} {id : Text} (h : toolCallId call = some id) :
    call.getStr "id" = some id := (filter_eq_some_iff.mp h).1

theorem callsIdentified_map (h : CallsIdentified message) :
    (message.issuedCalls.map fun call => call.getStr "id") = (expectedIds message).map some := by
  unfold CallsIdentified at h
  unfold expectedIds
  generalize message.issuedCalls = calls at h
  induction calls with
  | nil => rfl
  | cons call calls ih =>
    obtain ⟨id, hid⟩ := isSome_iff_exists.mp (h call (by simp))
    have hrest := ih fun c hc => h c (by simp [hc])
    simp [hid, getStr_of_toolCallId hid, hrest]

theorem role_of_expectedIds_ne_nil (h : expectedIds message ≠ []) : message.role = "assistant" := by
  by_contra hrole
  simp [expectedIds, ChatMessage.issuedCalls, hrole] at h

theorem turn_of_tool (h : message.role = "tool") :
    message.turn = .answer message.toolCallId := by simp [ChatMessage.turn, h]

theorem turn_of_expectedIds (hids : CallsIdentified message)
    (h : expectedIds message ≠ []) : message.turn = .calls ((expectedIds message).map some) := by
  have hrole := role_of_expectedIds_ne_nil h
  have hissued : message.issuedCalls ≠ [] := by
    intro hnil
    simp [expectedIds, hnil] at h
  simp [ChatMessage.turn, hrole, hissued, callsIdentified_map hids]

theorem turn_of_not_issuing (hids : CallsIdentified message)
    (h : expectedIds message = []) (hrole : message.role ≠ "tool") : message.turn = .plain := by
  have hissued : message.issuedCalls = [] := by
    have hmap := callsIdentified_map hids
    rw [h] at hmap
    simpa using hmap
  simp [ChatMessage.turn, hrole, hissued]

@[simp] theorem turn_text (content : Text) : (ChatMessage.text "user" content).turn = .plain := by
  simp [ChatMessage.turn, ChatMessage.text, ChatMessage.issuedCalls]

@[simp] theorem turn_orphanToolResultFact (message : ChatMessage) :
    (orphanToolResultFact message).turn = .plain := turn_text _

theorem turn_downgraded {message down : ChatMessage}
    (h : downgradeIncompleteAssistant message = some down) (hrole : message.role = "assistant") :
    down.turn = .plain := by
  unfold downgradeIncompleteAssistant at h
  simp only [ite_none_left_eq_some] at h
  have hdown := some.inj h.2
  simp [← hdown, ChatMessage.turn, ChatMessage.issuedCalls, hrole]

variable {valid : Finset Text}

theorem legal_plain_append
    (plain : List ChatMessage) (hplain : ∀ m ∈ plain, m.turn = .plain) (h : LegalChat valid messages) :
    LegalChat valid (plain ++ messages) := by
  induction plain with
  | nil => exact h
  | cons m plain ih =>
    have hrest := ih fun m' hm' => hplain m' (by simp [hm'])
    unfold LegalChat at hrest ⊢
    simpa [hplain m (by simp)] using Legal.plain hrest

/-- An assistant message whose scan is complete opens a legal group. -/
theorem legal_group {rest messages : List ChatMessage}
    (hids : CallsIdentified message) (hexp : expectedIds message ≠ [])
    (hcard : (scanToolMessages (expectedIds message).toFinset ∅ rest).2.1.card =
      (expectedIds message).length)
    (h : LegalChat valid messages) :
    LegalChat valid (message :: (orderedToolMessages
      (scanToolMessages (expectedIds message).toFinset ∅ rest).1 (expectedIds message) ++
        messages)) := by
  obtain ⟨hnodup, hall⟩ := scan_complete hcard
  have hanswers : (orderedToolMessages (scanToolMessages (expectedIds message).toFinset ∅ rest).1
      (expectedIds message)).map ChatMessage.turn =
        ((expectedIds message).map some).map Turn.answer := by
    rw [← orderedToolMessages_ids hnodup hall, List.map_map]
    apply List.map_congr_left
    intro m hm
    exact turn_of_tool (scanToolMessages_spec (orderedToolMessages_subset hm)).1
  have hgroup : InCallOrder ((expectedIds message).map some) ((expectedIds message).map some) :=
    ⟨rfl, hnodup.map (some_injective _)⟩
  unfold LegalChat at h ⊢
  rw [map_cons, map_append, hanswers, turn_of_expectedIds hids hexp]
  exact Legal.group ⟨hgroup, by simp⟩ h

/-- The protocol pass makes a legal conversation of messages whose calls carry ids. -/
theorem legal_sanitizeLoop (valid : Finset Text)
    (h : ∀ m ∈ messages, CallsIdentified m) : LegalChat valid (sanitizeLoop valid messages) := by
  fun_induction sanitizeLoop valid messages with
  | case1 => exact Legal.nil
  | case2 message rest expected hexp scan hcard ih =>
    have hrest := ih fun m hm => h m (by simp [scanToolMessages_rest_suffix.subset hm])
    exact legal_group (h message (by simp)) hexp hcard hrest
  | case3 message rest expected hexp scan hcard ih =>
    have hrest := ih fun m hm => h m (by simp [scanToolMessages_rest_suffix.subset hm])
    refine legal_plain_append _ ?_ hrest
    intro m hm
    rcases mem_append.mp hm with hdown | horphan
    · exact turn_downgraded (mem_toList.mp hdown) (role_of_expectedIds_ne_nil hexp)
    · obtain ⟨t, _, rfl⟩ := mem_map.mp horphan
      simp
  | case4 message rest expected hexp htool ih =>
    have hrest := ih fun m hm => h m (by simp [hm])
    have hvalid : ∃ t ∈ valid, message.toolCallId = some t := by
      have := htool.2
      unfold toolMessageIsCurrentValidOutput at this
      cases hid : message.toolCallId with
      | none => simp [hid] at this
      | some id => exact ⟨id, by simpa [hid] using this, rfl⟩
    unfold LegalChat at hrest ⊢
    rw [map_cons, turn_of_tool htool.1]
    exact Legal.loose hvalid hrest
  | case5 message rest expected hexp hnvalid htool ih =>
    have hrest := ih fun m hm => h m (by simp [hm])
    unfold LegalChat at hrest ⊢
    simpa using Legal.plain hrest
  | case6 message rest expected hexp hnvalid htool ih =>
    have hrest := ih fun m hm => h m (by simp [hm])
    have hplain := turn_of_not_issuing (h message (by simp)) (by simpa using hexp) htool
    unfold LegalChat at hrest ⊢
    simpa [hplain] using Legal.plain hrest

theorem turn_of_not_useful (h : messageIsUseful message = false)
    (hid : message.role = "tool" → message.toolCallId.isSome) : message.turn = .plain := by
  have hcalls : message.issuedCalls = [] := by
    unfold messageIsUseful at h
    unfold ChatMessage.issuedCalls
    split_ifs at h ⊢ <;> simp_all
  have hrole : message.role ≠ "tool" := by
    intro hrole
    have hsome := hid hrole
    simp [messageIsUseful, hrole, hsome] at h
  simp [ChatMessage.turn, hrole, hcalls]

theorem toolCallId_isSome_of_legal (h : LegalChat valid messages) (hm : message ∈ messages)
    (hrole : message.role = "tool") : message.toolCallId.isSome := by
  refine Legal.of_answer_mem (P := fun id => isSome id) ?_ ?_ h
    (turn_of_tool hrole ▸ mem_map_of_mem hm)
  · rintro ids given ⟨⟨rfl, _⟩, hsome⟩ id hid
    exact hsome id hid
  · rintro id ⟨t, _, rfl⟩
    rfl

theorem legal_sanitizeChatToolProtocol (h : ∀ m ∈ messages, CallsIdentified m) :
    LegalChat valid (sanitizeChatToolProtocol messages valid) := by
  have hloop := legal_sanitizeLoop valid h
  refine Legal.filter ?_ hloop
  intro m hm huseful
  exact turn_of_not_useful huseful (toolCallId_isSome_of_legal hloop hm)

/-! ### Compiled messages -/

theorem gatheredMessages_identified {crates : CoreCrates}
    (items : List Value) : ∀ m ∈ gatheredMessages crates items valid, CallsIdentified m := by
  obtain ⟨front, hgathered, hfront⟩ := @gatheredMessages_eq crates valid items
  intro m hm
  rw [hgathered, gatherItems_messages] at hm
  rcases mem_append.mp hm with hm | hm
  · obtain ⟨facts, truncatedItems, rfl⟩ := hfront m hm
    intro call hcall
    simp [ChatMessage.issuedCalls, verifiedFactsMessage, ChatMessage.text] at hcall
  · refine emissions_calls items (by simp) ?_ m hm
    intro item _ call hcall
    obtain ⟨id, _, _, hid⟩ := responseItemToChatToolCall_id hcall
    exact isSome_iff_exists.mpr ⟨id, hid⟩

theorem legalChat_compiled (crates : CoreCrates) (input : Value) (valid : Finset Text) :
    LegalChat valid (compileResponsesInputWithToolOutputs crates input valid).messages := by
  have hsingle : ∀ text, LegalChat valid [userMessage text] := by
    intro text
    exact legal_plain_append [userMessage text] (by simp [userMessage]) Legal.nil
  unfold compileResponsesInputWithToolOutputs
  cases input with
  | array items =>
    dsimp only
    split_ifs
    · exact hsingle _
    · exact legal_sanitizeChatToolProtocol (gatheredMessages_identified items)
  | null => exact Legal.nil
  | bool b => exact hsingle _
  | number n => exact hsingle _
  | string s => exact hsingle _
  | object fields => exact hsingle _

/-- The compiled messages obey the chat tool protocol: every assistant message with calls is
followed at once by one `tool` message for each call, in call order and with distinct ids, and
any other `tool` message carries a valid id; without valid ids there is no other. -/
theorem compiled_obeys_tool_protocol (crates : CoreCrates) (input : Value)
    (valid : Finset Text) :
    LegalChat valid (compileResponsesInputWithToolOutputs crates input valid).messages ∧
      Legal (fun ids given => InCallOrder ids given ∧ ∀ id ∈ ids, id.isSome) (fun _ => False)
        ((compileResponsesInput crates input).messages.map ChatMessage.turn) := by
  refine ⟨legalChat_compiled crates input valid, ?_⟩
  refine Legal.mono (fun _ _ h => h) ?_ (legalChat_compiled crates input ∅)
  rintro id ⟨t, ht, _⟩
  simp at ht

end CodeSeeX.Context
