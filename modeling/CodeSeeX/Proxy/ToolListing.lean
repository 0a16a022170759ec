import CodeSeeX.Proxy.ToolLoop

/-!
# What a response without streaming lists

The output of the response that a run of the tool loop ends with: the items that were
collected in the turns, and behind them those of the last completion.
-/
namespace CodeSeeX.ToolLoop
open Checks Tools List

variable {items : List Value} {calls : List ChatToolCall} {chats : List Value}
  {segments : List (List Value)} {segment : List Value}

/-! ## The response -/

def chatCompletionOutput (texts : ItemTexts) (uuid : ℕ → Text) (chat : Value) : List Value :=
  let message := (choiceMessage chat).getD .null
  let reasoning := textField message "reasoning_content"
  (if reasoning.isBlank then [] else [reasoningResponseItem texts (uuid 0) reasoning]) ++
    [messageItem (uuid 1) "final_answer" (outputTextPart (textField message "content"))]

def chatCompletionToolCallsOutput (context : LoopContext) (uuid : ℕ → Text) (chat : Value) :
    List Value :=
  let message := (choiceMessage chat).getD .null
  let reasoning := textField message "reasoning_content"
  let text := textField message "content"
  let partition := turnPartition context chat
  let executed := turnExecutes context chat
  let fresh := 2 + executed.length
  (if reasoning.isBlank then [] else [reasoningResponseItem context.texts (uuid 0) reasoning]) ++
    (if text = [] then [] else [messageItem (uuid 1) "commentary" (outputTextPart text)]) ++
    proxyVisibleResponseItems context.texts uuid 2 executed ++
    (withIds uuid fresh partition.native).map (fun (itemId, call) =>
      nativeApplyPatchResponseItemFromChatCall context.texts itemId call) ++
    (withIds uuid (fresh + partition.native.length) partition.external).map fun (itemId, call) =>
      context.toolContext.responseItemFromChatCall context.texts itemId call

/-- The texts of an automatic compaction. -/
structure Compaction where
  id : Text
  encryptedContent : Text
  summary : Text

def compactionItem (compaction : Compaction) : Value :=
  .object [
    ("content", .array [.object [("text", .string compaction.summary), ("type", .string "output_text")]]),
    ("encrypted_content", .string compaction.encryptedContent), ("id", .string compaction.id),
    ("status", .string "completed"),
    ("summary",
      .array [.object [("text", .string compaction.summary), ("type", .string "summary_text")]]),
    ("type", .string "compaction")]

def responseItemRequiresClientToolExecution (item : Value) : Bool :=
  (item.getStr "type").any (· ∈ (["function_call", "custom_tool_call"] : List Text))

def appendAutoCompactionIfSafe (output : List Value) (compaction : Option Compaction) : List Value :=
  match compaction with
  | none => output
  | some compaction =>
      if output.any responseItemRequiresClientToolExecution then output
      else output ++ [compactionItem compaction]

namespace ToolLoopResult

def chat : ToolLoopResult → Value
  | finalChat chat _ => chat
  | clientToolCalls chat _ => chat

def responseItems : ToolLoopResult → List Value
  | finalChat _ responseItems => responseItems
  | clientToolCalls _ responseItems => responseItems

def isHandoff : ToolLoopResult → Bool
  | finalChat .. => false
  | clientToolCalls .. => true

end ToolLoopResult

section
variable (context : LoopContext) (uuid : ℕ → Text) (compaction : Option Compaction)

/-- The items of the last completion. -/
def finalOutput : ToolLoopResult → List Value
  | .finalChat chat _ => chatCompletionOutput context.texts uuid chat
  | .clientToolCalls chat _ => chatCompletionToolCallsOutput context uuid chat

/-- `response["output"]` of a run. -/
def responseOutput (result : ToolLoopResult) : List Value :=
  appendAutoCompactionIfSafe (result.responseItems ++ finalOutput context uuid result) compaction

end

/-! ## Listing each call once -/

/-- The item names a call; what is no call is not named. -/
def Names (item : Value) (call : Option ChatToolCall) : Prop :=
  ∃ named, call = some named ∧ item.getStr "call_id" = some named.id

/-- The item belongs to a call, by its id. -/
def BelongsTo (item : Value) (call : ChatToolCall) : Prop := item.getStr "call_id" = some call.id

/-- The calls of a completion, as the proxy reads them. -/
def readCalls (chat : Value) : List (Option ChatToolCall) := (chatToolCalls chat).map some

/-- The entries under `tool_calls`, those without an id or a name with them. -/
def entryCalls (chat : Value) : List (Option ChatToolCall) :=
  (toolCallEntries chat).map toolCallFromEntry

/-- A stretch of the output for one completion: each call of it has one call item, and each search
that was executed for it has one output item. -/
structure TurnListed (context : LoopContext) (made : Value → List (Option ChatToolCall))
    (chat : Value) (segment : List Value) : Prop where
  everyCall : ∃ order, order.Perm (made chat) ∧
    List.Forall₂ Names (segment.filter isCallItem) order
  everySearch : List.Forall₂ BelongsTo (segment.filter isSearchOutput)
    ((turnExecutes context chat).filter fun call => isWebSearchTool call.name)

/-- The completions of a run are listed one after the other. -/
def ListsEachCallOnce (context : LoopContext) (made : Value → List (Option ChatToolCall))
    (chats output : List Value) : Prop :=
  ∃ segments, output = segments.flatten ∧ List.Forall₂ (TurnListed context made) chats segments

/-- Every entry under `tool_calls` is a call. -/
def EntriesParse (chat : Value) : Prop :=
  ∀ entry ∈ toolCallEntries chat, (toolCallFromEntry entry).isSome = true

/-- No completion mixes calls that CodeSeeX runs with calls of the client: those before the last
have only calls that are run, and the last has none. -/
def NeverMixed (context : LoopContext) (chats : List Value) : Prop :=
  (∀ chat ∈ chats.dropLast, turnExecutes context chat = chatToolCalls chat) ∧
    ∀ chat ∈ chats.getLast?, turnExecutes context chat = []

/-! ## The items of one turn -/

section
variable {context : LoopContext} {iteration : ℕ} {vars turned : LoopVars} {chat : Value}

/-- The items that a turn collects: one for each call that is run, and one for each search. -/
structure Collected (context : LoopContext) (chat : Value) (segment : List Value) : Prop where
  calls : List.Forall₂ StandsFor (segment.filter isCallItem) (turnExecutes context chat)
  searches : List.Forall₂ BelongsTo (segment.filter isSearchOutput)
    ((turnExecutes context chat).filter fun call => isWebSearchTool call.name)

theorem filter_of_standsFor (h : List.Forall₂ StandsFor items calls) :
    items.filter isCallItem = items ∧ items.filter isSearchOutput = [] := by
  induction h with
  | nil => exact ⟨rfl, rfl⟩
  | cons hhere _ ih => simp [hhere.isCall, hhere.isOutput, ih]

theorem filter_of_silent (h : ∀ item ∈ items, Silent item) :
    items.filter isCallItem = [] ∧ items.filter isSearchOutput = [] := by
  constructor
  · exact filter_eq_nil_iff.mpr fun item hitem => by simp [(h item hitem).isCall]
  · exact filter_eq_nil_iff.mpr fun item hitem => by simp [(h item hitem).isOutput]

theorem filter_searchOutputs (fresh : ℕ) (results : List (ChatToolCall × Value)) :
    (searchOutputs context iteration fresh results).filter isCallItem = [] ∧
      List.Forall₂ BelongsTo ((searchOutputs context iteration fresh results).filter isSearchOutput)
        ((results.map Prod.fst).filter fun call => isWebSearchTool call.name) := by
  induction results generalizing fresh with
  | nil => exact ⟨rfl, .nil⟩
  | cons first results ih =>
    obtain ⟨call, result⟩ := first
    obtain ⟨hcalls, hsearches⟩ := ih (fresh + 1)
    rw [searchOutputs]
    by_cases hsearch : isWebSearchTool call.name = true
    · obtain ⟨houtput, hnone, hid⟩ := searchOutput_item (context.uuid iteration fresh) call
        (context.summarizeToolResult result)
      simp only [filter_cons, hnone, houtput, map_cons, hsearch, if_true,
        Bool.false_eq_true, if_false]
      exact ⟨hcalls, .cons hid hsearches⟩
    · simp only [if_neg hsearch, map_cons, filter_cons]
      exact ⟨hcalls, hsearches⟩

/-- A turn that was executed collects its items. -/
theorem collected_of_executed (h : Executed context vars turned chat) :
    ∃ segment, turned.responseItems = vars.responseItems ++ segment ∧
      Collected context chat segment := by
  obtain ⟨iteration, messages, assistantMessage, results, -, -, hcalls, -, hitems⟩ := h
  have hvisible := standsFor_proxyVisible context.texts (context.uuid iteration) 0
    (turnExecutes context chat)
  have houtputs := @filter_searchOutputs context iteration (turnExecutes context chat).length results
  refine ⟨_, hitems.trans (append_assoc _ _ _), ?_, ?_⟩
  · rw [filter_append, (filter_of_standsFor hvisible).1, houtputs.1, append_nil]
    exact hvisible
  · rw [filter_append, (filter_of_standsFor hvisible).2, nil_append]
    rw [hcalls] at houtputs
    exact houtputs.2

theorem names_of_standsFor {calls order : List ChatToolCall}
    (h : List.Forall₂ StandsFor items calls)
    (hids : calls.map ChatToolCall.id = order.map ChatToolCall.id) :
    List.Forall₂ Names items (order.map some) := by
  induction h generalizing order with
  | nil =>
    rw [map_nil, eq_comm, map_eq_nil_iff] at hids
    rw [hids]
    exact .nil
  | cons hhere _ ih =>
    cases order with
    | nil => cases hids
    | cons first order =>
      rw [map_cons, map_cons, cons.injEq] at hids
      exact .cons ⟨first, rfl, hids.1 ▸ hhere.callId⟩ (ih hids.2)

/-- A completion whose calls were all run is listed by what its turn collects. -/
theorem turnListed_of_collected {segment tail : List Value} (h : Collected context chat segment)
    (hall : turnExecutes context chat = chatToolCalls chat) (hcalls : tail.filter isCallItem = [])
    (houtputs : tail.filter isSearchOutput = []) :
    TurnListed context readCalls chat (segment ++ tail) := by
  refine ⟨⟨readCalls chat, Perm.refl _, ?_⟩, ?_⟩
  · rw [filter_append, hcalls, append_nil]
    exact names_of_standsFor h.calls (congrArg _ hall)
  · rw [filter_append, houtputs, append_nil]
    exact h.searches

end

/-! ## The items of a run -/

/-- What a run that came to an end has collected: in its earlier turns, and in the last. -/
def RunListed (context : LoopContext) (before chats : List Value) (result : ToolLoopResult) : Prop :=
  ∃ (earlier : List Value) (segments : List (List Value)) (segment : List Value),
    chats = earlier ++ [result.chat] ∧
    result.responseItems = before ++ segments.flatten ++ segment ∧
    List.Forall₂ (Collected context) earlier segments ∧
    Collected context result.chat segment ∧
    (result.isHandoff = true → ∀ chat ∈ earlier, turnExecutes context chat = chatToolCalls chat) ∧
    if result.isHandoff then (turnPartition context result.chat).unknown = []
    else chatToolCalls result.chat = []

section
variable {context : LoopContext} {iteration : ℕ} {vars turned : LoopVars} {chat : Value}

theorem collected_nil (hnone : turnExecutes context chat = []) : Collected context chat [] := by
  constructor
  · rw [hnone]
    exact .nil
  · rw [hnone]
    exact .nil

theorem turnExecutes_nil (h : chatToolCalls chat = []) : turnExecutes context chat = [] := by
  rw [turnExecutes, h]
  rfl

/-- A run that ends with its first turn. -/
theorem runListed_single {before segment : List Value} {result : ToolLoopResult}
    (hcollected : Collected context result.chat segment)
    (hitems : result.responseItems = before ++ segment)
    (hending : if result.isHandoff then (turnPartition context result.chat).unknown = []
      else chatToolCalls result.chat = []) :
    RunListed context before [result.chat] result :=
  ⟨[], [], segment, rfl, by simpa using hitems, .nil, hcollected, (fun _ _ hmem => nomatch hmem),
    hending⟩

/-- A turn in front of a run. -/
theorem RunListed.cons {before here chats : List Value} {result : ToolLoopResult}
    (h : RunListed context (before ++ here) chats result) (hcollected : Collected context chat here)
    (hall : result.isHandoff = true → turnExecutes context chat = chatToolCalls chat) :
    RunListed context before (chat :: chats) result := by
  obtain ⟨earlier, segments, segment, hchats, hitems, hsegments, hlast, hearlier, hending⟩ := h
  refine ⟨chat :: earlier, here :: segments, segment, ?_, ?_, .cons hcollected hsegments, hlast, ?_,
    hending⟩
  · rw [hchats, cons_append]
  · rw [hitems, flatten_cons, append_assoc before]
  · intro hhandoff
    exact forall_mem_cons.mpr ⟨hall hhandoff, hearlier hhandoff⟩

theorem runListed_loop {left : ℕ} {result : ToolLoopResult}
    (h : (completeChatWithTools.loop context left iteration vars chat).result = .ok result) :
    RunListed context vars.responseItems
      (completeChatWithTools.loop context left iteration vars chat).chats result := by
  induction left generalizing iteration vars chat with
  | zero => cases h
  | succ left ih =>
    have hcase := turnCase_toolTurn context iteration vars chat
    rw [completeChatWithTools.loop] at h ⊢
    revert h hcase
    obtain ⟨turned, ended⟩ := toolTurn context iteration vars chat
    intro h hcase
    dsimp only at hcase
    cases hcase with
    | failed error => cases h
    | finished hcalls =>
      cases h
      exact @runListed_single context vars.responseItems [] (.finalChat chat vars.responseItems)
        (collected_nil (turnExecutes_nil hcalls)) (append_nil _).symm hcalls
    | handed hunknown hproxy =>
      cases h
      exact @runListed_single context vars.responseItems [] (.clientToolCalls chat vars.responseItems)
        (collected_nil (proxyExecuted_eq_nil_iff.mpr hproxy)) (append_nil _).symm hunknown
    | mixed hunknown hexecuted =>
      cases h
      obtain ⟨segment, hitems, hcollected⟩ := collected_of_executed hexecuted
      exact @runListed_single context vars.responseItems segment
        (.clientToolCalls chat turned.responseItems) hcollected hitems hunknown
    | stopped stop hunknown hruns hexecuted =>
      obtain ⟨segment, hitems, hcollected⟩ := collected_of_executed hexecuted
      unfold recoverFinalResponse at h ⊢
      cases hpayload : prepareToolLoopRecoveryPayload turned.payload stop.message with
      | error message => simp [hpayload] at h
      | ok payload =>
        cases hpost : context.postChatCompletions (iteration + 1) payload with
        | error message => simp [hpayload, hpost] at h
        | ok final =>
          simp only [hpayload, hpost] at h ⊢
          split_ifs at h with hfinal
          cases h
          rw [not_not] at hfinal
          refine RunListed.cons ?_ hcollected (fun hhandoff => nomatch hhandoff)
          rw [← hitems]
          exact @runListed_single context turned.responseItems []
            (.finalChat final turned.responseItems) (collected_nil (turnExecutes_nil hfinal))
            (append_nil _).symm hfinal
    | next hall hruns hexecuted =>
      obtain ⟨segment, hitems, hcollected⟩ := collected_of_executed hexecuted
      cases hpost : context.postChatCompletions (iteration + 1) turned.payload with
      | error message => simp [hpost] at h
      | ok later =>
        simp only [hpost] at h ⊢
        have hlater := ih h
        rw [hitems] at hlater
        exact hlater.cons hcollected fun _ => hall

end

/-! ## The items of the last completion -/

section
variable (context : LoopContext) (uuid : ℕ → Text) (compaction : Option Compaction)

/-- The calls that the items of the last completion stand for. -/
def finalCalls : ToolLoopResult → List ChatToolCall
  | .finalChat .. => []
  | .clientToolCalls chat _ => turnExecutes context chat ++
      ((turnPartition context chat).native ++ (turnPartition context chat).external)

theorem silent_compaction (compaction : Compaction) : Silent (compactionItem compaction) :=
  @silent_of_type _ "compaction" rfl (by decide) (by decide)

/-- Reasoning and text stand for no call. -/
theorem silent_texts {condition : Prop} [Decidable condition] {item : Value} (h : Silent item) :
    ∀ silent ∈ (if condition then [] else [item]), Silent silent := by
  split_ifs
  · exact fun _ hmem => nomatch hmem
  · exact forall_mem_singleton.mpr h

/-- Behind silent items, the calls that items stand for are those of the others. -/
theorem filter_behind_silent {items silent : List Value} (hsilent : ∀ item ∈ silent, Silent item)
    (hitems : List.Forall₂ StandsFor items calls) :
    List.Forall₂ StandsFor ((silent ++ items).filter isCallItem) calls ∧
      (silent ++ items).filter isSearchOutput = [] := by
  have hfiltered := filter_of_standsFor hitems
  rw [filter_append, filter_append, (filter_of_silent hsilent).1,
    (filter_of_silent hsilent).2, hfiltered.1, hfiltered.2]
  exact ⟨hitems, rfl⟩

theorem finalOutput_standsFor (result : ToolLoopResult) :
    List.Forall₂ StandsFor ((finalOutput context uuid result).filter isCallItem)
        (finalCalls context result) ∧
      (finalOutput context uuid result).filter isSearchOutput = [] := by
  cases result with
  | finalChat chat responseItems =>
    have hsilent : ∀ item ∈ chatCompletionOutput context.texts uuid chat, Silent item := by
      intro item hitem
      rcases mem_append.mp hitem with hreasoning | hmessage
      · exact silent_texts (silent_reasoning _ _ _) item hreasoning
      · rw [mem_singleton.mp hmessage]
        exact silent_message _ _ _
    have hnone := filter_of_silent hsilent
    rw [finalOutput, hnone.1, hnone.2]
    exact ⟨.nil, rfl⟩
  | clientToolCalls chat responseItems =>
    rw [finalOutput, chatCompletionToolCallsOutput, append_assoc, append_assoc]
    refine filter_behind_silent ?_ ?_
    · intro item hitem
      rcases mem_append.mp hitem with hreasoning | hmessage
      · exact silent_texts (silent_reasoning _ _ _) item hreasoning
      · exact silent_texts (silent_message _ _ _) item hmessage
    · refine rel_append (standsFor_proxyVisible _ _ _ _) (rel_append ?_ ?_)
      · exact standsFor_items (standsFor_native context.texts) _ _ _
      · exact standsFor_items (standsFor_external context.toolContext context.texts) _ _ _

/-- The output of a run: what was collected, and a rest with the calls of the last completion. -/
theorem responseOutput_eq (result : ToolLoopResult) :
    ∃ rest, responseOutput context uuid compaction result = result.responseItems ++ rest ∧
      List.Forall₂ StandsFor (rest.filter isCallItem) (finalCalls context result) ∧
      rest.filter isSearchOutput = [] := by
  obtain ⟨hcalls, houtputs⟩ := finalOutput_standsFor context uuid result
  unfold responseOutput appendAutoCompactionIfSafe
  cases compaction with
  | none => exact ⟨_, rfl, hcalls, houtputs⟩
  | some compaction =>
    split_ifs
    · exact ⟨_, rfl, hcalls, houtputs⟩
    · have hsilent := filter_of_silent (forall_mem_singleton.mpr (silent_compaction compaction))
      refine ⟨_, append_assoc _ _ _, ?_, ?_⟩
      · rw [filter_append, hsilent.1, append_nil]
        exact hcalls
      · rw [filter_append, hsilent.2, append_nil]
        exact houtputs

end

/-! ## The number of items -/

section
variable {context : LoopContext}

theorem length_flatten_collected (h : List.Forall₂ (Collected context) chats segments) :
    (segments.flatten.filter isCallItem).length =
      (chats.map fun chat => (turnExecutes context chat).length).sum := by
  induction h with
  | nil => rfl
  | cons hhere _ ih =>
    rw [flatten_cons, filter_append, length_append, ih, map_cons, sum_cons,
      hhere.calls.length_eq]

theorem length_flatten_listed {made : Value → List (Option ChatToolCall)}
    (h : List.Forall₂ (TurnListed context made) chats segments) :
    (segments.flatten.filter isCallItem).length =
      (chats.map fun chat => (made chat).length).sum := by
  induction h with
  | nil => rfl
  | cons hhere _ ih =>
    obtain ⟨order, hperm, hnames⟩ := hhere.everyCall
    rw [flatten_cons, filter_append, length_append, ih, map_cons, sum_cons,
      hnames.length_eq, hperm.length_eq]

theorem turnExecutes_sublist (chat : Value) :
    (turnExecutes context chat).Sublist (chatToolCalls chat) := filter_sublist

theorem sum_executes_le (chats : List Value) :
    (chats.map fun chat => (turnExecutes context chat).length).sum ≤
      (chats.map fun chat => (chatToolCalls chat).length).sum :=
  sum_le_sum fun chat _ => (turnExecutes_sublist chat).length_le

/-- Where no call is missing in the sum, none is missing in a turn. -/
theorem executes_all_of_sum (h : (chats.map fun chat => (turnExecutes context chat).length).sum =
      (chats.map fun chat => (chatToolCalls chat).length).sum) :
    ∀ chat ∈ chats, turnExecutes context chat = chatToolCalls chat := by
  induction chats with
  | nil => exact fun _ hmem => nomatch hmem
  | cons first chats ih =>
    rw [map_cons, map_cons, sum_cons, sum_cons] at h
    have hhere := (@turnExecutes_sublist context first).length_le
    have hlater := @sum_executes_le context chats
    have hfirst : (turnExecutes context first).length = (chatToolCalls first).length := by omega
    refine forall_mem_cons.mpr ⟨(turnExecutes_sublist first).eq_of_length hfirst, ih ?_⟩
    omega

end

/-! ## Which runs list each call once -/

section
variable {context : LoopContext} {uuid : ℕ → Text} {compaction : Option Compaction}
  {chats : List Value} {result : ToolLoopResult}

theorem listed_segments (h : List.Forall₂ (Collected context) chats segments)
    (hall : ∀ chat ∈ chats, turnExecutes context chat = chatToolCalls chat) :
    List.Forall₂ (TurnListed context readCalls) chats segments := by
  induction h with
  | nil => exact .nil
  | @cons chat segment _ _ hhere _ ih =>
    obtain ⟨hfirst, hlater⟩ := forall_mem_cons.mp hall
    refine .cons ?_ (ih hlater)
    have hlisted := @turnListed_of_collected context chat segment [] hhere hfirst rfl rfl
    rwa [append_nil] at hlisted

/-- The last completion of a pure handoff is listed by its calls for the client. -/
theorem turnListed_handoff {chat : Value} {segment rest : List Value}
    (hunknown : (turnPartition context chat).unknown = [])
    (hnone : turnExecutes context chat = []) (hcollected : Collected context chat segment)
    (hcalls : List.Forall₂ StandsFor (rest.filter isCallItem) (turnExecutes context chat ++
      ((turnPartition context chat).native ++ (turnPartition context chat).external)))
    (houtputs : rest.filter isSearchOutput = []) :
    TurnListed context readCalls chat (segment ++ rest) := by
  have hproxy := proxyExecuted_eq_nil_iff.mp hnone
  have hnothing := hcollected.calls
  rw [hnone, forall₂_nil_right_iff] at hnothing
  rw [hnone, nil_append, turnPartition, ← handedCalls_map] at hcalls
  refine ⟨⟨_, (handedCalls_perm hunknown hproxy).map some, ?_⟩, ?_⟩
  · rw [filter_append, hnothing, nil_append]
    exact names_of_standsFor hcalls (by rw [map_map]; rfl)
  · rw [filter_append, houtputs, append_nil]
    exact hcollected.searches

theorem neverMixed_append {earlier : List Value} {last : Value} :
    NeverMixed context (earlier ++ [last]) ↔
      (∀ chat ∈ earlier, turnExecutes context chat = chatToolCalls chat) ∧
        turnExecutes context last = [] := by
  simp [NeverMixed]

/-- A run without mixed turns lists its calls turn by turn. -/
theorem listsEachCallOnce_of_neverMixed (h : RunListed context [] chats result)
    (hpure : NeverMixed context chats) :
    ListsEachCallOnce context readCalls chats (responseOutput context uuid compaction result) := by
  obtain ⟨rest, houtput, hcalls, houtputs⟩ := responseOutput_eq context uuid compaction result
  obtain ⟨earlier, segments, segment, hchats, hitems, hsegments, hlast, -, hending⟩ := h
  rw [hchats, neverMixed_append] at hpure
  refine ⟨segments ++ [segment ++ rest], ?_, ?_⟩
  · rw [houtput, hitems, nil_append, flatten_append, flatten_singleton,
      append_assoc]
  rw [hchats]
  refine rel_append (listed_segments hsegments hpure.1) (.cons ?_ .nil)
  cases result with
  | finalChat chat responseItems =>
    have hnothing : rest.filter isCallItem = [] := forall₂_nil_right_iff.mp hcalls
    have hnone : chatToolCalls chat = [] := hending
    exact turnListed_of_collected hlast (hpure.2.trans hnone.symm) hnothing houtputs
  | clientToolCalls chat responseItems =>
    exact turnListed_handoff hending hpure.2 hlast hcalls houtputs

/-- A run that lists each call once has no mixed turn. -/
theorem neverMixed_of_listsEachCallOnce (h : RunListed context [] chats result)
    (hlists : ListsEachCallOnce context readCalls chats
      (responseOutput context uuid compaction result)) :
    NeverMixed context chats := by
  obtain ⟨rest, houtput, hcalls, houtputs⟩ := responseOutput_eq context uuid compaction result
  obtain ⟨earlier, segments, segment, hchats, hitems, hsegments, hlast, hearlier, hending⟩ := h
  obtain ⟨listed, hflatten, hlisted⟩ := hlists
  -- The call items are counted twice: as they were made, and as the calls ask for.
  have hcount := length_flatten_listed hlisted
  rw [← hflatten, houtput, hitems, nil_append, filter_append, filter_append,
    length_append, length_append, length_flatten_collected hsegments,
    hlast.calls.length_eq, hcalls.length_eq, hchats] at hcount
  simp only [readCalls, length_map, map_append, map_cons, map_nil,
    sum_append, sum_cons, sum_nil, add_zero] at hcount
  rw [hchats, neverMixed_append]
  cases result with
  | finalChat chat responseItems =>
    have hnone : chatToolCalls chat = [] := hending
    have hnothing := @turnExecutes_nil context chat hnone
    rw [ToolLoopResult.chat, hnone, hnothing, finalCalls] at hcount
    exact ⟨executes_all_of_sum (by simpa using hcount), hnothing⟩
  | clientToolCalls chat responseItems =>
    refine ⟨hearlier rfl, ?_⟩
    have hsame : (earlier.map fun chat => (turnExecutes context chat).length) =
        earlier.map fun chat => (chatToolCalls chat).length :=
      map_congr_left fun chat hchat => by rw [hearlier rfl chat hchat]
    have hparts : (chatToolCalls chat).length ≤ (turnExecutes context chat).length +
        ((turnPartition context chat).native ++ (turnPartition context chat).external).length :=
      length_le_parts hending
    rw [hsame, finalCalls, length_append] at hcount
    simp only [ToolLoopResult.chat] at hcount ⊢
    rw [← length_eq_zero_iff]
    omega

theorem entryCalls_eq {chat : Value} (h : EntriesParse chat) : entryCalls chat = readCalls chat := by
  unfold EntriesParse at h
  rw [entryCalls, readCalls, chatToolCalls]
  revert h
  induction toolCallEntries chat with
  | nil => exact fun _ => rfl
  | cons entry entries ih =>
    intro h
    obtain ⟨hentry, hentries⟩ := forall_mem_cons.mp h
    obtain ⟨call, hcall⟩ := Option.isSome_iff_exists.mp hentry
    rw [map_cons, ih hentries, filterMap_cons_some hcall, map_cons, hcall]

theorem isSome_of_names {order : List (Option ChatToolCall)} (h : List.Forall₂ Names items order) :
    ∀ call ∈ order, call.isSome = true := by
  induction h with
  | nil => exact fun _ hmem => nomatch hmem
  | cons hhere _ ih =>
    obtain ⟨named, hnamed, -⟩ := hhere
    exact forall_mem_cons.mpr ⟨by rw [hnamed]; rfl, ih⟩

/-- Entries that are no call are listed by nothing. -/
theorem entriesParse_of_turnListed {chat : Value} (h : TurnListed context entryCalls chat segment) :
    EntriesParse chat := by
  obtain ⟨order, hperm, hnames⟩ := h.everyCall
  intro entry hentry
  exact isSome_of_names hnames _ (hperm.mem_iff.mpr (mem_map_of_mem hentry))

theorem turnListed_entryCalls_iff {chat : Value} :
    TurnListed context entryCalls chat segment ↔
      EntriesParse chat ∧ TurnListed context readCalls chat segment := by
  constructor
  · intro h
    have hparse := entriesParse_of_turnListed h
    exact ⟨hparse, entryCalls_eq hparse ▸ h.everyCall, h.everySearch⟩
  · intro h
    exact ⟨entryCalls_eq h.1 ▸ h.2.everyCall, h.2.everySearch⟩

theorem listsEachCallOnce_entryCalls_iff {output : List Value} :
    ListsEachCallOnce context entryCalls chats output ↔
      (∀ chat ∈ chats, EntriesParse chat) ∧ ListsEachCallOnce context readCalls chats output := by
  have hboth : TurnListed context entryCalls = fun chat segment =>
      EntriesParse chat ∧ TurnListed context readCalls chat segment :=
    funext₂ fun _ _ => propext turnListed_entryCalls_iff
  simp only [ListsEachCallOnce, hboth, forall₂_and_left]
  constructor
  · intro h
    obtain ⟨segments, houtput, hparse, hlisted⟩ := h
    exact ⟨hparse, segments, houtput, hlisted⟩
  · intro h
    obtain ⟨hparse, segments, houtput, hlisted⟩ := h
    exact ⟨segments, houtput, hparse, hlisted⟩

end

/-- The output of a run lists each call that the proxy reads exactly once, completion by
completion, where no completion mixes calls that CodeSeeX runs with calls of the client; it lists
each entry of the model once where all entries can be read besides. -/
theorem lists_each_call_once_iff (context : LoopContext) (uuid : ℕ → Text)
    (compaction : Option Compaction) (payload chat : Value) (result : ToolLoopResult)
    (h : (completeChatWithTools context payload chat).result = .ok result) :
    let chats := (completeChatWithTools context payload chat).chats
    let output := responseOutput context uuid compaction result
    (ListsEachCallOnce context readCalls chats output ↔ NeverMixed context chats) ∧
      (ListsEachCallOnce context entryCalls chats output ↔
        (∀ chat ∈ chats, EntriesParse chat) ∧ NeverMixed context chats) := by
  intro chats output
  have hrun : RunListed context [] chats result := runListed_loop h
  have hread : ListsEachCallOnce context readCalls chats output ↔ NeverMixed context chats :=
    ⟨neverMixed_of_listsEachCallOnce hrun, listsEachCallOnce_of_neverMixed hrun⟩
  exact ⟨hread, listsEachCallOnce_entryCalls_iff.trans (and_congr_right fun _ => hread)⟩

/-! ### A turn for both sides -/

def callCompletion (toolCalls : List ChatToolCall) : Value :=
  completion [("content", .null), ("role", .string "assistant"),
    ("tool_calls", .array (toolCalls.map chatToolCallEntry))]

def quietRun (toolCalls : List ChatToolCall) : LoopRun :=
  completeChatWithTools quietLoop (.object [("messages", .array [])]) (callCompletion toolCalls)

def searchCall : ChatToolCall := ⟨"call_1", "web_search", "\x7b\x7d"⟩
def patchCall : ChatToolCall := ⟨"call_2", "apply_patch", "\x7b\x7d"⟩

instance (chats : List Value) : Decidable (NeverMixed quietLoop chats) :=
  inferInstanceAs (Decidable (_ ∧ ∀ chat, chat ∈ chats.getLast? → _))

theorem ok_of_isOk {ε α : Type} {result : Except ε α} (h : result.toOption.isSome = true) :
    ∃ value, result = .ok value := by
  cases result with
  | error _ => cases h
  | ok value => exact ⟨value, rfl⟩

theorem searchRun_lists_each_call_once :
    ∃ result, (quietRun [searchCall, searchCall]).result = .ok result ∧
      ListsEachCallOnce quietLoop readCalls (quietRun [searchCall, searchCall]).chats
        (responseOutput quietLoop Text.ofNat none result) := by
  obtain ⟨result, hresult⟩ := @ok_of_isOk _ _ (quietRun [searchCall, searchCall]).result
    (by decide +kernel)
  exact ⟨result, hresult, (lists_each_call_once_iff quietLoop Text.ofNat none _ _ result hresult).1.mpr
    (by decide +kernel)⟩

/-- A search beside a patch: the search is listed in its turn and again with the handoff. -/
theorem mixedRun_lists_search_twice :
    ∃ result, (quietRun [searchCall, patchCall]).result = .ok result ∧
      ¬ ListsEachCallOnce quietLoop readCalls (quietRun [searchCall, patchCall]).chats
        (responseOutput quietLoop Text.ofNat none result) := by
  obtain ⟨result, hresult⟩ := @ok_of_isOk _ _ (quietRun [searchCall, patchCall]).result
    (by decide +kernel)
  refine ⟨result, hresult, fun hlists => ?_⟩
  have hmixed : ¬ NeverMixed quietLoop (quietRun [searchCall, patchCall]).chats := by decide +kernel
  exact hmixed (neverMixed_of_listsEachCallOnce (runListed_loop hresult) hlists)

end CodeSeeX.ToolLoop
