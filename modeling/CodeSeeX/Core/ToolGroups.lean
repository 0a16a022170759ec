import CodeSeeX.Core.ResultsClose

/-!
# When a complete group of calls is replayed

A maximal run of tool calls, followed at once by one output item for each call, is
replayed as one assistant message with its results exactly if its results close. A
fact between two results, or calls still pending in front of the run, may prevent it.
-/
namespace CodeSeeX.Context
open List

/-! ### Groups of items -/

section Group

variable {crates : CoreCrates} {resolved valid : Finset Text} {st : CompileState}

/-- A tool-call item with an id and a usable name. -/
def IsToolCallItem (item : Value) : Prop :=
  isToolCallType (item.getStr "type") = true ∧ (responseItemCallId item).isSome ∧
    (responseItemToolName item).isSome

instance (item : Value) : Decidable (IsToolCallItem item) :=
  inferInstanceAs (Decidable (_ ∧ _ ∧ _))

/-- A maximal run of tool calls with pairwise distinct ids that occur nowhere else, followed at
once by one output item for each call, in any order. -/
structure ToolGroup (before run outputs after : List Value) : Prop where
  nonempty : run ≠ []
  calls : ∀ item ∈ run, IsToolCallItem item
  maximal : ∀ item ∈ before.getLast?, ¬ IsToolCallItem item
  distinct : (run.map responseItemCallId).Nodup
  results : ∀ item ∈ outputs, responseItemIsToolOutput item = true
  answered : (outputs.map responseItemCallId).Perm (run.map responseItemCallId)
  foreign : ∀ item ∈ before ++ after, responseItemCallId item ∉ run.map responseItemCallId

/-- The chat tool calls that the items of a run become. -/
def runCalls (items run : List Value) : List Value :=
  run.filterMap fun item => responseItemToChatToolCall item (collectResolvedToolCallIds items)

/-- One assistant message carries the calls, and one result for each call that it carries follows
at once. -/
def KeepsGroup (messages : List ChatMessage) (calls : List Value) : Prop :=
  ∃ (front : List ChatMessage) (message : ChatMessage) (tools back : List ChatMessage)
    (carried : List Value),
    messages = front ++ message :: (tools ++ back) ∧ message.role = "assistant" ∧
      message.toolCalls = some carried ∧ calls <:+: carried ∧ (∀ m ∈ tools, m.role = "tool") ∧
      tools.map ChatMessage.toolCallId = carried.map fun call => call.getStr "id"

/-- The loop state in front of an item of the array `items`. -/
def stateBehind (crates : CoreCrates) (items before : List Value) : CompileState :=
  compileItems crates (collectResolvedToolCallIds items) ∅
    { diagnostic := { inputItems := items.length } } before

/-- The calls that are still pending in front of the run and those of the run have distinct ids,
and the results of all of them come before the loop adds another message. -/
def GroupCloses (crates : CoreCrates) (before run outputs after : List Value) : Prop :=
  let items := before ++ run ++ outputs ++ after
  let ids := ((stateBehind crates items before).pendingAssistant.toolCalls ++
    runCalls items run).filterMap toolCallId
  ids.Nodup ∧ ResultsClose crates (collectResolvedToolCallIds items) ∅ ids.toFinset ∅
    (stateBehind crates items (before ++ run)) (outputs ++ after)

theorem isToolCallType_type {item : Value} (h : isToolCallType (item.getStr "type") = true) :
    item.getStr "type" = some ("function_call" : Text) ∨
      item.getStr "type" = some ("custom_tool_call" : Text) ∨
      item.getStr "type" = some ("web_search_call" : Text) ∨
      item.getStr "type" = some ("tool_search_call" : Text) := by
  simpa [isToolCallType] using h

/-- A tool-call item whose result occurs in the array is a tool call for the loop. -/
theorem itemKind_toolCall {item : Value} (h : IsToolCallItem item)
    (hresolved : ∀ id, responseItemCallId item = some id → id ∈ resolved) :
    ∃ call, responseItemToChatToolCall item resolved = some call ∧
      itemKind crates resolved valid st item = .toolCall call := by
  obtain ⟨htype, hid, hname⟩ := h
  obtain ⟨id, hid⟩ := Option.isSome_iff_exists.mp hid
  obtain ⟨name, hname⟩ := Option.isSome_iff_exists.mp hname
  have hcall : ∃ call, responseItemToChatToolCall item resolved = some call := by
    unfold responseItemToChatToolCall
    simp [htype, hid, hresolved id hid, hname]
  obtain ⟨call, hcall⟩ := hcall
  have hreasoning : responseItemToReasoningText crates item = none := by
    unfold responseItemToReasoningText
    rcases isToolCallType_type htype with h | h | h | h <;> simp [h]
  refine ⟨call, hcall, ?_⟩
  unfold itemKind
  rw [hreasoning, hcall]

section
variable {item : Value} (h : responseItemIsToolOutput item = true)
include h

theorem isToolOutput_type :
    item.getStr "type" = some ("function_call_output" : Text) ∨
      item.getStr "type" = some ("custom_tool_call_output" : Text) ∨
      item.getStr "type" = some ("web_search_call_output" : Text) ∨
      item.getStr "type" = some ("tool_search_output" : Text) := by
  simpa [responseItemIsToolOutput] using h

theorem toolCall_eq_none_of_output :
    responseItemToChatToolCall item resolved = none := by
  unfold responseItemToChatToolCall
  rcases isToolOutput_type h with h | h | h | h <;> simp [h, isToolCallType]

/-- An output item flushes the pending assistant message. -/
theorem flushes_of_output :
    (itemKind crates resolved valid st item).flushes = true := by
  have hspec := itemKind_spec crates resolved valid st item
  cases hkind : itemKind crates resolved valid st item with
  | reasoning text =>
    rw [hkind] at hspec
    have hnone : responseItemToReasoningText crates item = none := by
      unfold responseItemToReasoningText
      rcases isToolOutput_type h with h | h | h | h <;> simp [h]
    simp [hnone] at hspec
  | toolCall call =>
    rw [hkind] at hspec
    simp [toolCall_eq_none_of_output h] at hspec
  | _ => rfl

end

section
variable {run : List Value} (hcalls : ∀ item ∈ run, IsToolCallItem item)
  (hresolved : ∀ item ∈ run, ∀ id, responseItemCallId item = some id → id ∈ resolved)
include hcalls hresolved

/-- A run of tool calls adds its calls to the pending ones and no message. -/
theorem compileItems_run :
    (compileItems crates resolved valid st run).messages = st.messages ∧
      (compileItems crates resolved valid st run).pendingAssistant.toolCalls =
        st.pendingAssistant.toolCalls ++
          run.filterMap fun item => responseItemToChatToolCall item resolved := by
  induction run generalizing st with
  | nil => simp [compileItems]
  | cons item run ih =>
    obtain ⟨call, hcall, hkind⟩ :=
      @itemKind_toolCall crates resolved valid st item (hcalls item (by simp))
        (hresolved item (by simp))
    have hstep : compileStep crates resolved valid st item = toolCallStep st call := by
      simp only [compileStep, hkind]
    obtain ⟨hmessages, hpending⟩ := @ih (toolCallStep st call)
      (fun i hi => hcalls i (by simp [hi])) (fun i hi => hresolved i (by simp [hi]))
    unfold compileItems at hmessages hpending ⊢
    rw [foldl_cons, hstep, hmessages, hpending]
    simp [toolCallStep, hcall]

/-- The calls of a run carry the ids of its items. -/
theorem runCalls_ids :
    ((run.filterMap fun item => responseItemToChatToolCall item resolved).filterMap
      toolCallId).map some = run.map responseItemCallId := by
  induction run with
  | nil => rfl
  | cons item run ih =>
    obtain ⟨call, hcall, _⟩ := @itemKind_toolCall ⟨fun _ => none, fun _ => none⟩ resolved ∅ {} item
      (hcalls item (by simp)) (hresolved item (by simp))
    obtain ⟨id, hid, _, hcallId⟩ := responseItemToChatToolCall_id hcall
    have hrest := ih (fun i hi => hcalls i (by simp [hi])) fun i hi => hresolved i (by simp [hi])
    simp [hcall, hcallId, hid, hrest]

end

theorem flush_seen (st : CompileState) : st.flush.seenToolCallIds = st.seenToolCallIds ∧
    st.flush.seenToolCallNames = st.seenToolCallNames := by
  unfold CompileState.flush
  cases st.pendingAssistant.message <;> exact ⟨rfl, rfl⟩

/-- A run of tool calls makes its ids known. -/
theorem seen_run {run : List Value} (hcalls : ∀ item ∈ run, IsToolCallItem item)
    (hresolved : ∀ item ∈ run, ∀ id, responseItemCallId item = some id → id ∈ resolved) {id : Text}
    (hid : id ∈ st.seenToolCallIds ∨ some id ∈ run.map responseItemCallId) :
    id ∈ (compileItems crates resolved valid st run).seenToolCallIds := by
  induction run generalizing st with
  | nil => simpa [compileItems] using hid
  | cons item run ih =>
    obtain ⟨call, hcall, hkind⟩ :=
      @itemKind_toolCall crates resolved valid st item (hcalls item (by simp))
        (hresolved item (by simp))
    obtain ⟨callId, hcallId, _, hcallId'⟩ := responseItemToChatToolCall_id hcall
    have hstep : compileStep crates resolved valid st item = toolCallStep st call := by
      simp only [compileStep, hkind]
    have hseen : (toolCallStep st call).seenToolCallIds = insert callId st.seenToolCallIds := by
      simp [toolCallStep, getStr_of_toolCallId hcallId']
    have hrest := @ih (toolCallStep st call) (fun i hi => hcalls i (by simp [hi]))
      (fun i hi => hresolved i (by simp [hi]))
    unfold compileItems at hrest ⊢
    rw [foldl_cons, hstep]
    apply hrest
    rw [hseen, Finset.mem_insert]
    rw [map_cons, hcallId, mem_cons, Option.some.injEq] at hid
    rcases hid with hid | hid | hid
    · exact .inl (.inr hid)
    · exact .inl (.inl hid)
    · exact .inr hid

/-- The fact that the loop adds behind the result of an output item. -/
def outputFact (crates : CoreCrates) (st : CompileState) (output : Value) : Option Text :=
  mcpResourceListingSemanticFact crates
    ((responseItemCallId output).bind fun id => st.seenToolCallNames.lookup id)
    (toolOutputText output)

theorem itemKind_output {output : Value} {id : Text}
    (houtput : responseItemIsToolOutput output = true) (hid : responseItemCallId output = some id)
    (hresolved : id ∈ resolved) (hseen : id ∈ st.seenToolCallIds) :
    itemKind crates resolved valid st output = .toolResult (ChatMessage.toolResult id
      (Redaction.truncateText (Redaction.redactInlineDataUrls (toolOutputText output))
        maxToolOutputChars)) (outputFact crates st output) := by
  have hreasoning : responseItemToReasoningText crates output = none := by
    unfold responseItemToReasoningText
    rcases isToolOutput_type houtput with h | h | h | h <;> simp [h]
  have hresult : responseItemToToolResultMessage crates output resolved st.seenToolCallIds
      st.seenToolCallNames valid = some (ChatMessage.toolResult id
        (Redaction.truncateText (Redaction.redactInlineDataUrls (toolOutputText output))
          maxToolOutputChars), outputFact crates st output) := by
    simp [responseItemToToolResultMessage, houtput, hid, hresolved, hseen, outputFact]
  unfold itemKind
  rw [hreasoning, toolCall_eq_none_of_output houtput, hresult]

/-- When exactly the ids of these output items are missing, the results close if no item but the
last brings a fact with it. -/
theorem resultsClose_outputs {expected seen : Finset Text} {outputs : List Value}
    (after : List Value) (hresults : ∀ item ∈ outputs, responseItemIsToolOutput item = true)
    (hids : ∀ id, some id ∈ outputs.map responseItemCallId ↔ id ∈ expected ∧ id ∉ seen)
    (hsome : ∀ item ∈ outputs, (responseItemCallId item).isSome)
    (hnodup : (outputs.map responseItemCallId).Nodup)
    (hknown : ∀ id ∈ expected, id ∈ resolved ∧ id ∈ st.seenToolCallIds) :
    ResultsClose crates resolved valid expected seen st (outputs ++ after) ↔
      ∀ output ∈ outputs.dropLast, outputFact crates st output = none := by
  have hdone : ∀ (seen : Finset Text) (st : CompileState) (items : List Value), expected ⊆ seen →
      ResultsClose crates resolved valid expected seen st items := by
    intro seen st items hsub
    cases items with
    | nil => exact hsub
    | cons item items => exact .inl hsub
  induction outputs generalizing seen st with
  | nil =>
    have hsub : expected ⊆ seen := by
      intro id hid
      by_contra hmissing
      simpa using (hids id).mpr ⟨hid, hmissing⟩
    simpa using hdone seen st after hsub
  | cons output outputs ih =>
    obtain ⟨id, hid⟩ := Option.isSome_iff_exists.mp (hsome output (by simp))
    have hmissing : id ∈ expected ∧ id ∉ seen := (hids id).mp (by simp [hid])
    have hkind := @itemKind_output crates resolved valid st output id (hresults output (by simp)) hid
      (hknown id hmissing.1).1 (hknown id hmissing.1).2
    have hopen : ¬ expected ⊆ seen := fun hsub => hmissing.2 (hsub hmissing.1)
    rw [map_cons, nodup_cons, hid] at hnodup
    have hids' : ∀ id', some id' ∈ outputs.map responseItemCallId ↔
        id' ∈ expected ∧ id' ∉ insert id seen := by
      intro id'
      have hcons := hids id'
      rw [map_cons, mem_cons, hid, Option.some.injEq] at hcons
      rw [Finset.mem_insert, not_or]
      constructor
      · intro hmem
        have hne : id' ≠ id := fun heq => hnodup.1 (heq ▸ hmem)
        exact ⟨(hcons.mp (.inr hmem)).1, hne, (hcons.mp (.inr hmem)).2⟩
      · rintro ⟨hexp, hne, hns⟩
        exact (hcons.mpr ⟨hexp, hns⟩).resolve_left hne
    rw [cons_append, ResultsClose]
    simp only [hkind, hopen, false_or]
    cases outputs with
    | nil =>
      have hsub : expected ⊆ insert id seen := by
        intro id' hexp
        by_contra hns
        simpa using (hids' id').mpr ⟨hexp, hns⟩
      simp only [dropLast_singleton, not_mem_nil, false_implies, implies_true, iff_true]
      cases outputFact crates st output with
      | none => exact ⟨id, hmissing.1, rfl, hdone _ _ _ hsub⟩
      | some fact => exact ⟨id, hmissing.1, rfl, hsub⟩
    | cons next outputs =>
      have hopen' : ¬ expected ⊆ insert id seen := by
        obtain ⟨id', hid'⟩ := Option.isSome_iff_exists.mp (hsome next (by simp))
        obtain ⟨hexp, hns⟩ := (hids' id').mp (by simp [hid'])
        exact fun hsub => hns (hsub hexp)
      rw [dropLast_cons_of_ne_nil (by simp), forall_mem_cons]
      cases hfact : outputFact crates st output with
      | some fact => simp [hopen', ChatMessage.toolResult]
      | none =>
        have hstep : compileStep crates resolved valid st output = toolResultStep st
            (ChatMessage.toolResult id (Redaction.truncateText (Redaction.redactInlineDataUrls
              (toolOutputText output)) maxToolOutputChars)) none := by
          simp only [compileStep, hkind, hfact]
        have hseen := flush_seen st
        have hrest := @ih (compileStep crates resolved valid st output) (insert id seen)
          (fun i hi => hresults i (mem_cons_of_mem _ hi)) hids'
          (fun i hi => hsome i (mem_cons_of_mem _ hi)) hnodup.2
          (fun i hi => by rw [hstep]; exact ⟨(hknown i hi).1, hseen.1 ▸ (hknown i hi).2⟩)
        have hfacts : ∀ o, outputFact crates (compileStep crates resolved valid st output) o =
            outputFact crates st o := by
          intro o
          rw [hstep]
          show mcpResourceListingSemanticFact crates (_ >>= fun id =>
            st.flush.seenToolCallNames.lookup id) _ = _
          rw [hseen.2]
          rfl
        simp only [hfacts] at hrest
        simp only [true_and, ← hrest, ChatMessage.toolResult, Option.some.injEq]
        constructor
        · rintro ⟨id', _, rfl, hclose⟩
          exact hclose
        · intro hclose
          exact ⟨id, hmissing.1, rfl, hclose⟩

/-- The message that carries the calls keeps its results exactly if the scan behind it is
complete, when no other message carries any of them. -/
theorem keepsGroup_sanitize_iff {front tail : List ChatMessage} {message : ChatMessage}
    {carried calls : List Value} (hrole : message.role = "assistant")
    (hcarried : message.toolCalls = some carried) (hids : CallsIdentified message)
    (hcalls : calls <:+: carried) (hne : calls ≠ [])
    (hforeign : ∀ m ∈ front ++ tail, ∀ call ∈ m.issuedCalls, call ∉ calls) :
    KeepsGroup (sanitizeChatToolProtocol (front ++ message :: tail) valid) calls ↔
      (expectedIds message).Nodup ∧ MeetsAll (expectedIds message).toFinset ∅ tail := by
  have hissued : message.issuedCalls = carried := by
    simp [ChatMessage.issuedCalls, hrole, hcarried]
  have hmap := callsIdentified_map hids
  rw [hissued] at hmap
  obtain ⟨call, hcall⟩ := exists_mem_of_ne_nil calls hne
  have hexp : expectedIds message ≠ [] := by
    intro hnil
    rw [hnil, map_nil, map_eq_nil_iff] at hmap
    rw [hmap] at hcalls
    exact hne (infix_nil.mp hcalls)
  have hcut : sanitizeChatToolProtocol (front ++ message :: tail) valid =
      (sanitizeLoop valid front).filter messageIsUseful ++
        (sanitizeLoop valid (message :: tail)).filter messageIsUseful := by
    unfold sanitizeChatToolProtocol
    rw [sanitizeLoop_append valid front tail (by simp [hrole]), filter_append]
  rw [hcut]
  unfold MeetsAll
  rw [← scan_card_iff]
  constructor
  · rintro ⟨front', m, tools, back, carried', heq, hrole', hcarried', hcalls', _⟩
    by_contra hcard
    have hissued' : m.issuedCalls = carried' := by
      simp [ChatMessage.issuedCalls, hrole', hcarried']
    have hmem : call ∈ m.issuedCalls := hissued' ▸ hcalls'.subset hcall
    have hissuing : m.issuedCalls ≠ [] := ne_nil_of_mem hmem
    have hfound : m ∈ (sanitizeLoop valid front).filter messageIsUseful ++
        (sanitizeLoop valid (message :: tail)).filter messageIsUseful := by
      rw [heq]
      simp
    rw [sanitizeLoop, if_pos hexp] at hfound
    rw [if_neg hcard] at hfound
    simp only [mem_append, mem_filter] at hfound
    rcases hfound with ⟨hm, _⟩ | ⟨(hm | hm) | hm, _⟩
    · exact hforeign m (by simp [mem_of_issuing hm hissuing]) call hmem hcall
    · have hdown := turn_downgraded (Option.mem_toList.mp hm) hrole
      unfold ChatMessage.turn at hdown
      split_ifs at hdown
    · obtain ⟨t, _, rfl⟩ := mem_map.mp hm
      exact hissuing rfl
    · have htail := scanToolMessages_rest_suffix.subset (mem_of_issuing hm hissuing)
      exact hforeign m (by simp [htail]) call hmem hcall
  · intro hcard
    obtain ⟨hnodup, hall⟩ := scan_complete hcard
    have hmessage : messageIsUseful message = true := by
      have hcarriedNe : carried ≠ [] := fun hnil => by simp [hnil] at hcalls; exact hne hcalls
      simp [messageIsUseful, hrole, hcarried, hcarriedNe]
    have htools : ∀ m ∈ orderedToolMessages
        (scanToolMessages (expectedIds message).toFinset ∅ tail).1 (expectedIds message),
        m.role = "tool" ∧ messageIsUseful m = true := by
      intro m hm
      obtain ⟨htool, id, _, hid, _⟩ := scanToolMessages_spec (orderedToolMessages_subset hm)
      exact ⟨htool, by simp [messageIsUseful, htool, hid]⟩
    refine ⟨(sanitizeLoop valid front).filter messageIsUseful, message, _,
      (sanitizeLoop valid (scanToolMessages (expectedIds message).toFinset ∅ tail).2.2).filter
        messageIsUseful, carried, ?_, hrole, hcarried, hcalls, fun m hm => (htools m hm).1, ?_⟩
    · rw [sanitizeLoop, if_pos hexp]
      rw [if_pos hcard, filter_cons_of_pos hmessage, filter_append,
        filter_eq_self.mpr fun m hm => (htools m hm).2]
    · rw [orderedToolMessages_ids hnodup hall, hmap]

/-- The fallback of an array without messages carries no calls. -/
theorem keepsGroup_compiled_iff (items : List Value) (calls : List Value) :
    KeepsGroup (compileResponsesInputWithToolOutputs crates (.array items) valid).messages calls ↔
      KeepsGroup (sanitizeChatToolProtocol (gatheredMessages crates items valid) valid) calls := by
  unfold compileResponsesInputWithToolOutputs
  dsimp only
  split_ifs with hnil
  · rw [hnil]
    constructor
    · rintro ⟨front, m, tools, back, carried, heq, hrole, _⟩
      have heq' : [userMessage (Value.print (.array items))] = front ++ m :: (tools ++ back) := heq
      have hmem : m ∈ [userMessage (Value.print (.array items))] := by
        rw [heq']
        simp
      rw [mem_singleton.mp hmem] at hrole
      simp [userMessage, ChatMessage.text] at hrole
    · rintro ⟨front, m, tools, back, carried, heq, _⟩
      simp at heq
  · rfl

section Compiled

variable {before run outputs after : List Value}

theorem ToolGroup.outputs_ne_nil (group : ToolGroup before run outputs after) : outputs ≠ [] := by
  rintro rfl
  have hlength := group.answered.length_eq
  have hpos := length_pos_iff.mpr group.nonempty
  simp only [length_map, length_nil] at hlength
  omega

/-- The ids of the run are resolved, as each has an output item. -/
theorem ToolGroup.mem_resolved (group : ToolGroup before run outputs after) {item : Value}
    (hitem : item ∈ run) {id : Text} (hid : responseItemCallId item = some id) :
    id ∈ collectResolvedToolCallIds (before ++ run ++ outputs ++ after) := by
  have hmem : some id ∈ outputs.map responseItemCallId :=
    group.answered.mem_iff.mpr (hid ▸ mem_map_of_mem hitem)
  obtain ⟨output, houtput, houtputId⟩ := mem_map.mp hmem
  simp only [collectResolvedToolCallIds, mem_toFinset, mem_filterMap, mem_filter]
  exact ⟨output, ⟨by simp [houtput], group.results output houtput⟩, houtputId⟩

theorem mem_runCalls_id {items : List Value} {call : Value} (h : call ∈ runCalls items run) :
    ∃ id, toolCallId call = some id ∧ some id ∈ run.map responseItemCallId := by
  obtain ⟨item, hitem, hcall⟩ := mem_filterMap.mp h
  obtain ⟨id, hid, _, hcallId⟩ := responseItemToChatToolCall_id hcall
  exact ⟨id, hcallId, hid ▸ mem_map_of_mem hitem⟩

/-- A call is foreign to the run if its id is. -/
def ForeignCall (run : List Value) (call : Value) : Prop :=
  ∃ id, toolCallId call = some id ∧ some id ∉ run.map responseItemCallId

theorem ForeignCall.not_mem {items : List Value} {call : Value} (h : ForeignCall run call) :
    call ∉ runCalls items run := by
  intro hmem
  obtain ⟨id, hid, hforeign⟩ := h
  obtain ⟨id', hid', hrun⟩ := mem_runCalls_id hmem
  rw [hid, Option.some.injEq] at hid'
  exact hforeign (hid' ▸ hrun)

theorem ToolGroup.foreignCall (group : ToolGroup before run outputs after) {item call : Value}
    (hitem : item ∈ before ++ after) (hcall : responseItemToChatToolCall item resolved = some call) :
    ForeignCall run call := by
  obtain ⟨id, hid, _, hcallId⟩ := responseItemToChatToolCall_id hcall
  exact ⟨id, hcallId, hid ▸ group.foreign item hitem⟩

theorem ToolGroup.runCalls_ne_nil (group : ToolGroup before run outputs after) :
    runCalls (before ++ run ++ outputs ++ after) run ≠ [] := by
  obtain ⟨item, run', hrun⟩ := exists_cons_of_ne_nil group.nonempty
  have hitem : item ∈ run := by simp [hrun]
  obtain ⟨call, hcall, _⟩ := @itemKind_toolCall ⟨fun _ => none, fun _ => none⟩
    (collectResolvedToolCallIds (before ++ run ++ outputs ++ after)) ∅ {} item
    (group.calls item hitem) fun id hid => group.mem_resolved hitem hid
  exact ne_nil_of_mem (mem_filterMap.mpr ⟨item, hitem, hcall⟩)

/-- The gathered messages with the message that carries the run: no other one carries any of its
calls, and the results close behind it exactly if the items say so. -/
theorem ToolGroup.gathered (crates : CoreCrates) (group : ToolGroup before run outputs after) :
    ∃ (front : List ChatMessage) (message : ChatMessage) (tail : List ChatMessage),
      gatheredMessages crates (before ++ run ++ outputs ++ after) ∅ = front ++ message :: tail ∧
      message.role = "assistant" ∧
      message.toolCalls = some ((stateBehind crates (before ++ run ++ outputs ++ after)
        before).pendingAssistant.toolCalls ++ runCalls (before ++ run ++ outputs ++ after) run) ∧
      (∀ m ∈ front ++ tail, ∀ call ∈ m.issuedCalls, ForeignCall run call) ∧
      ∀ expected, MeetsAll expected ∅ tail ↔ ResultsClose crates
        (collectResolvedToolCallIds (before ++ run ++ outputs ++ after)) ∅ expected ∅
        (stateBehind crates (before ++ run ++ outputs ++ after) (before ++ run))
        (outputs ++ after) := by
  have hresolved := fun item hitem id hid => @ToolGroup.mem_resolved before run outputs after group item hitem id hid
  have hne := group.runCalls_ne_nil
  generalize hitems : before ++ run ++ outputs ++ after = items at hresolved hne ⊢
  obtain ⟨front, hgathered, hfront⟩ := @gatheredMessages_eq crates ∅ items
  obtain ⟨output, outputs', houtputs⟩ := exists_cons_of_ne_nil group.outputs_ne_nil
  have houtput : responseItemIsToolOutput output = true := group.results output (by simp [houtputs])
  -- the state in front of the run and the one behind it
  have hstate : stateBehind crates items (before ++ run) = compileItems crates
      (collectResolvedToolCallIds items) ∅ (stateBehind crates items before) run := by
    unfold stateBehind compileItems
    rw [foldl_append]
  obtain ⟨hmessages, hpending⟩ := @compileItems_run crates (collectResolvedToolCallIds items) ∅
    (stateBehind crates items before) run group.calls hresolved
  rw [← hstate] at hmessages hpending
  have hcalls : (stateBehind crates items (before ++ run)).pendingAssistant.toolCalls ≠ [] := by
    rw [hpending]
    intro hnil
    exact hne (append_eq_nil_iff.mp hnil).2
  obtain ⟨message, hmessage⟩ := pendingMessage_isSome (.inr hcalls)
  obtain ⟨hrole, _, hcarried⟩ := pendingMessage_eq hmessage
  have hflushes := @flushes_of_output crates (collectResolvedToolCallIds items) ∅
    (stateBehind crates items (before ++ run)) output houtput
  have hall : (gatherItems crates items ∅).messages =
      (stateBehind crates items before).messages ++ emissions crates
        (collectResolvedToolCallIds items) ∅ (stateBehind crates items (before ++ run))
        (outputs ++ after) := by
    rw [← hmessages, ← messages_compileItems]
    unfold gatherItems stateBehind compileItems
    rw [← foldl_append, ← append_assoc, hitems]
  refine ⟨front ++ (stateBehind crates items before).messages, message,
    (itemKind crates (collectResolvedToolCallIds items) ∅
      (stateBehind crates items (before ++ run)) output).emitted ++
      emissions crates (collectResolvedToolCallIds items) ∅
        (compileStep crates (collectResolvedToolCallIds items) ∅
          (stateBehind crates items (before ++ run)) output) (outputs' ++ after),
    ?_, hrole, ?_, ?_, ?_⟩
  · rw [hgathered, hall, houtputs, cons_append, emissions]
    simp [hflushes, hmessage]
  · rw [hcarried, if_neg hcalls, hpending, runCalls]
  · intro m hm
    rw [mem_append, mem_append, mem_append] at hm
    rcases hm with (hm | hm) | hm | hm
    · obtain ⟨facts, truncatedItems, rfl⟩ := hfront m hm
      intro call hcall
      simp [ChatMessage.issuedCalls, verifiedFactsMessage, ChatMessage.text] at hcall
    · have hadded : m ∈ (stateBehind crates items before).flush.messages := by
        rw [flush_messages]
        exact mem_append_left _ hm
      unfold stateBehind at hadded
      rw [messages_compileItems, nil_append] at hadded
      refine emissions_calls before (by simp) ?_ m hadded
      intro item hitem call hcall
      exact group.foreignCall (mem_append_left _ hitem) hcall
    · intro call hcall
      simp [ChatMessage.issuedCalls, (emitted_spec hm).1] at hcall
    · refine emissions_calls (outputs' ++ after) ?_ ?_ m hm
      · rw [compileStep_toolCalls]
        revert hflushes
        cases itemKind crates (collectResolvedToolCallIds items) ∅
          (stateBehind crates items (before ++ run)) output <;> simp [ItemKind.flushes]
      · intro item hitem call hcall
        rcases mem_append.mp hitem with hitem | hitem
        · have hresult := group.results item (by simp [houtputs, hitem])
          simp [toolCall_eq_none_of_output hresult] at hcall
        · exact group.foreignCall (mem_append_right _ hitem) hcall
  · intro expected
    rw [houtputs, cons_append]
    exact meetsAll_step (.inr hflushes) fun seen h => meetsAll_emissions _ h

theorem keepsGroup_iff (crates : CoreCrates) (group : ToolGroup before run outputs after) :
    KeepsGroup (compileResponsesInput crates
        (.array (before ++ run ++ outputs ++ after))).messages
        (runCalls (before ++ run ++ outputs ++ after) run) ↔
      GroupCloses crates before run outputs after := by
  obtain ⟨front, message, tail, hgathered, hrole, hcarried, hforeign, hclose⟩ :=
    group.gathered crates
  have hids : CallsIdentified message := by
    apply gatheredMessages_identified (before ++ run ++ outputs ++ after)
    rw [hgathered]
    simp
  have hexpected : expectedIds message = ((stateBehind crates (before ++ run ++ outputs ++ after)
      before).pendingAssistant.toolCalls ++
        runCalls (before ++ run ++ outputs ++ after) run).filterMap toolCallId := by
    simp [expectedIds, ChatMessage.issuedCalls, hrole, hcarried]
  unfold compileResponsesInput
  rw [keepsGroup_compiled_iff, hgathered,
    keepsGroup_sanitize_iff hrole hcarried hids (suffix_append _ _).isInfix
      group.runCalls_ne_nil fun m hm call hcall => (hforeign m hm call hcall).not_mem,
    hclose, hexpected]
  rfl

/-- When nothing is pending in front of the run, only the facts decide. -/
theorem groupCloses_iff_of_not_pending (crates : CoreCrates)
    (group : ToolGroup before run outputs after)
    (hpending : (stateBehind crates (before ++ run ++ outputs ++ after)
      before).pendingAssistant.toolCalls = []) :
    GroupCloses crates before run outputs after ↔ ∀ output ∈ outputs.dropLast,
      outputFact crates (stateBehind crates (before ++ run ++ outputs ++ after) (before ++ run))
        output = none := by
  have hresolved := fun item hitem id hid => @ToolGroup.mem_resolved before run outputs after group
    item hitem id hid
  unfold GroupCloses
  generalize before ++ run ++ outputs ++ after = items at hpending hresolved ⊢
  dsimp only
  rw [hpending, nil_append]
  have hmap := runCalls_ids group.calls hresolved
  change ((runCalls items run).filterMap toolCallId).map some = _ at hmap
  generalize hids : (runCalls items run).filterMap toolCallId = ids at hmap
  have hnodup : ids.Nodup := by
    have hdistinct := group.distinct
    rw [← hmap] at hdistinct
    exact Nodup.of_map some hdistinct
  have hmem : ∀ id, id ∈ ids ↔ some id ∈ run.map responseItemCallId := by
    intro id
    rw [← hmap]
    simp
  have hstate : stateBehind crates items (before ++ run) = compileItems crates
      (collectResolvedToolCallIds items) ∅ (stateBehind crates items before) run := by
    unfold stateBehind compileItems
    rw [foldl_append]
  rw [and_iff_right hnodup, resultsClose_outputs after group.results]
  · intro id
    rw [group.answered.mem_iff, ← hmem, mem_toFinset]
    simp
  · intro item hitem
    have hrun : responseItemCallId item ∈ run.map responseItemCallId :=
      group.answered.mem_iff.mp (mem_map_of_mem hitem)
    rw [← hmap] at hrun
    obtain ⟨id, _, hid⟩ := mem_map.mp hrun
    rw [← hid]
    rfl
  · exact group.answered.nodup_iff.mpr group.distinct
  · intro id hid
    have hrun := (hmem id).mp (mem_toFinset.mp hid)
    refine ⟨?_, ?_⟩
    · obtain ⟨item, hitem, hitemId⟩ := mem_map.mp hrun
      exact hresolved item hitem id hitemId
    · rw [hstate]
      exact seen_run group.calls hresolved (.inr hrun)

/-- A complete contiguous group is replayed as one assistant message with its results exactly if
its results close; with no earlier call pending, exactly if no output but the last brings a
fact. -/
theorem compiled_keeps_tool_group_iff (crates : CoreCrates)
    (group : ToolGroup before run outputs after) :
    (KeepsGroup (compileResponsesInput crates
        (.array (before ++ run ++ outputs ++ after))).messages
        (runCalls (before ++ run ++ outputs ++ after) run) ↔
      GroupCloses crates before run outputs after) ∧
    ((stateBehind crates (before ++ run ++ outputs ++ after) before).pendingAssistant.toolCalls = [] →
      (GroupCloses crates before run outputs after ↔ ∀ output ∈ outputs.dropLast,
        outputFact crates (stateBehind crates (before ++ run ++ outputs ++ after) (before ++ run))
          output = none)) :=
  ⟨keepsGroup_iff crates group, groupCloses_iff_of_not_pending crates group⟩

end Compiled

end Group

def functionCall (id name : Text) : Value :=
  .object [("arguments", .string "{}"), ("call_id", .string id), ("name", .string name),
    ("type", .string "function_call")]

def functionCallOutput (id output : Text) : Value :=
  .object [("call_id", .string id), ("output", .string output),
    ("type", .string "function_call_output")]

def readRun : List Value := [functionCall "call_1" "read_file", functionCall "call_2" "read_file"]

def readOutputs : List Value :=
  [functionCallOutput "call_1" "ok", functionCallOutput "call_2" "ok"]

theorem readRun_group : ToolGroup [] readRun readOutputs [] where
  nonempty := by simp [readRun]
  calls := by decide
  maximal := by simp
  distinct := by decide
  results := by decide
  answered := by decide
  foreign := by simp

/-- Two parallel calls with their results are replayed. -/
theorem readRun_kept : KeepsGroup
    (compileResponsesInput ⟨fun _ => none, fun _ => none⟩
      (.array ([] ++ readRun ++ readOutputs ++ []))).messages
    (runCalls ([] ++ readRun ++ readOutputs ++ []) readRun) := by
  have h := compiled_keeps_tool_group_iff ⟨fun _ => none, fun _ => none⟩ readRun_group
  exact h.1.mpr ((h.2 rfl).mpr (by decide))

/-- Two parallel calls, the first of them listing MCP resources. -/
def mcpRun : List Value :=
  [functionCall "call_1" "list_mcp_resources", functionCall "call_2" "read_file"]

/-- The output of a server without resources. -/
def emptyListing : Value := .object [("resources", .array [])]

def mcpOutputs : List Value :=
  [functionCallOutput "call_1" emptyListing.print, functionCallOutput "call_2" "ok"]

/-- A parser that reads the first output as `serde_json` does. -/
def mcpCrates : CoreCrates where
  fromStr text := if text = emptyListing.print then some emptyListing else none
  decodeBase64Utf8 _ := none

/-- The fact about the empty resources separates the two results, and the group is lost. -/
theorem mcp_group_downgraded : ToolGroup [] mcpRun mcpOutputs [] ∧
    ¬ KeepsGroup (compileResponsesInput mcpCrates
      (.array ([] ++ mcpRun ++ mcpOutputs ++ []))).messages
      (runCalls ([] ++ mcpRun ++ mcpOutputs ++ []) mcpRun) := by
  have group : ToolGroup [] mcpRun mcpOutputs [] :=
    { nonempty := by simp [mcpRun]
      calls := by decide
      maximal := by simp
      distinct := by decide
      results := by decide
      answered := by decide
      foreign := by simp }
  refine ⟨group, ?_⟩
  rintro ⟨front, m, tools, back, carried, heq, hrole, hcarried, hcalls, _⟩
  have hnone : ∀ m ∈ (compileResponsesInput mcpCrates
      (.array ([] ++ mcpRun ++ mcpOutputs ++ []))).messages, m.issuedCalls.isEmpty = true := by
    decide +kernel
  have hm := hnone m (by rw [heq]; simp)
  have hempty : carried = [] := by
    simpa [ChatMessage.issuedCalls, hrole, hcarried] using hm
  rw [hempty] at hcalls
  exact group.runCalls_ne_nil (infix_nil.mp hcalls)

end CodeSeeX.Context
