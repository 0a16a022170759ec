import CodeSeeX.Core.ContextProtocol

/-!
# Data URLs in compiled messages

Texts, parts and tool outputs go through the redaction scanner; four paths do not: an
object without text that is printed as a message or a compaction summary, the type
and the role of a verified fact, and the call id of an orphaned tool result. A
compiled message holds a data URL exactly if one of these paths carries it.
-/
namespace CodeSeeX.Context

open Redaction List

variable {item : Value} {message : ChatMessage} (items : List Value) {rest : List ChatMessage}
  {valid : Finset Text}

/-! ### Redacted and printed contents -/

theorem marker_not_in_part {value : Value} {text : Text} (h : contentPartToText value = some text) :
    ¬ dataMarker <:+: text := by
  unfold contentPartToText at h
  cases h1 : value.getStr "text" with
  | some t =>
    simp only [h1, Option.some.injEq] at h
    exact h ▸ marker_not_in_redacted t
  | none =>
    cases h2 : value.getStr "input_text" with
    | some t =>
      simp only [h1, h2, Option.some.injEq] at h
      exact h ▸ marker_not_in_redacted t
    | none =>
      cases h3 : value.getStr "output_text" with
      | some t =>
        simp only [h1, h2, h3, Option.some.injEq] at h
        exact h ▸ marker_not_in_redacted t
      | none => simp [h1, h2, h3] at h

theorem colon_notMem_numberText (n : Number) : ':' ∉ Value.numberText n := by
  cases n with
  | posInt n => exact Text.notMem_ofNat (by decide) n.toNat
  | negInt n =>
    have hrepr : ∀ k : ℕ, ':' ∉ (Nat.repr k).toList := by
      intro k
      have hchars : (Nat.repr k).toList = Text.ofNat k := by simp [Nat.repr, Text.ofNat]
      exact hchars ▸ Text.notMem_ofNat (by decide) k
    show ':' ∉ (Int.repr n.toInt).toList
    cases n.toInt with
    | ofNat k => exact hrepr k
    | negSucc k =>
      have hminus : ':' ∉ "-".toList := by decide
      simp only [Int.repr, String.toList_append, mem_append, not_or]
      exact ⟨hminus, hrepr _⟩
  | float d =>
    intro hc
    have hshape := d.shortest_chars ':' hc
    simp [Char.isDigit] at hshape

/-- The value is an object without text whose print, cut at `maxChars`, holds a data URL. -/
def PrintsDataUrl (value : Value) (maxChars : ℕ) : Prop :=
  match value with
  | .object fields => contentPartToText (.object fields) = none ∧
      HasDataUrl (truncateText (Value.print (.object fields)) maxChars)
  | _ => False

/-- An object without text is the only content that is not redacted. -/
theorem hasDataUrl_content {value : Value} {maxChars : ℕ} :
    HasDataUrl (truncateText (contentToText value) maxChars) ↔ PrintsDataUrl value maxChars := by
  have clean : ∀ text, ¬ dataMarker <:+: text → ¬ HasDataUrl (truncateText text maxChars) :=
    fun text h => not_hasDataUrl_of_not_infix (marker_not_in_truncated h maxChars)
  have cleanPrint : ∀ text : Text, ':' ∉ text → ¬ HasDataUrl (truncateText text maxChars) :=
    fun text h => clean text (Infix.not_infix_of_notMem (by decide) h)
  cases value with
  | null => simpa [PrintsDataUrl, contentToText] using clean [] (by decide)
  | bool b =>
    simp only [PrintsDataUrl, iff_false]
    apply cleanPrint
    cases b <;> decide
  | number n =>
    simp only [PrintsDataUrl, iff_false]
    exact cleanPrint _ (colon_notMem_numberText n)
  | string s => simpa [PrintsDataUrl, contentToText] using clean _ (marker_not_in_redacted s)
  | array parts =>
    simp only [PrintsDataUrl, iff_false]
    apply clean
    have hline : ("\n" : Text) = ['\n'] := by decide
    show ¬ dataMarker <:+: Text.join "\n" (parts.filterMap contentPartToText)
    rw [hline, Text.join, Infix.infix_intercalate_iff (by decide) (by decide)]
    rintro ⟨text, hmem, hin⟩
    obtain ⟨part, _, hpart⟩ := mem_filterMap.mp hmem
    exact marker_not_in_part hpart hin
  | object fields =>
    cases hpart : contentPartToText (.object fields) with
    | none => simp [PrintsDataUrl, contentToText, hpart]
    | some text => simpa [PrintsDataUrl, contentToText, hpart] using clean _ (marker_not_in_part hpart)

theorem marker_not_in_summary (value : Value) : ¬ dataMarker <:+: summarizeValue value :=
  marker_not_in_truncated (marker_not_in_redacted _) _

/-- A header without marker that ends its line adds no data URL to what follows. -/
theorem hasDataUrl_after_header {header rest : Text} (hmarker : ¬ dataMarker <:+: header)
    (hline : header = header.dropLast ++ ['\n']) : HasDataUrl (header ++ rest) ↔ HasDataUrl rest := by
  have hinit : ¬ dataMarker <:+: header.dropLast :=
    fun hin => hmarker (hin.trans ( dropLast_prefix header).isInfix)
  rw [hline, append_assoc]
  exact hasDataUrl_label hinit (by decide)

theorem hasDataUrl_verifiedFacts {facts : List Text} {truncatedItems : ℕ} :
    HasDataUrl (verifiedFactsMessage facts truncatedItems).content ↔
      ∃ fact ∈ facts, HasDataUrl fact := by
  have hbullet : ("- " : Text) = ['-', ' '] := by decide
  have htail : ¬ HasDataUrl (if truncatedItems > 0 then ("- " : Text) ++ Text.ofNat truncatedItems ++
      " additional fact item(s) were omitted by the deterministic context budget.\n" else []) := by
    apply not_hasDataUrl_of_colon_notMem
    have hdash : ':' ∉ ("- " : Text) := by decide
    have hnote : ':' ∉
        (" additional fact item(s) were omitted by the deterministic context budget.\n" : Text) := by
      decide +kernel
    split_ifs
    · simp only [mem_append, not_or]
      exact ⟨⟨hdash, Text.notMem_ofNat (by decide) _⟩, hnote⟩
    · simp
  show HasDataUrl (verifiedFactsHeader ++ _ ++ _) ↔ _
  rw [append_assoc, hasDataUrl_after_header (by decide +kernel) (by decide +kernel)]
  generalize (if truncatedItems > 0 then _ else _ : Text) = tail at htail
  induction facts with
  | nil => simpa using htail
  | cons fact facts ih =>
    have hshape : ((fact :: facts).flatMap fun fact => ("- " : Text) ++ fact ++ ['\n']) ++ tail =
        ['-'] ++ ' ' :: (fact ++ '\n' ::
          ((facts.flatMap fun fact => ("- " : Text) ++ fact ++ ['\n']) ++ tail)) := by
      simp [hbullet]
    have hdash : ¬ HasDataUrl ['-'] := by decide
    rw [hshape, hasDataUrl_append_cons (by decide) (by decide),
      hasDataUrl_append_cons (by decide) (by decide), ih]
    simp [hdash]

/-- The type or the role of the item holds a data URL. -/
def LabelsDataUrl (item : Value) : Prop :=
  (∃ type, item.getStr "type" = some type ∧ HasDataUrl type) ∨
    ∃ role, item.getStr "role" = some role ∧ HasDataUrl role

theorem hasDataUrl_verifiedFact {fact : Text} (h : responseItemToVerifiedFact item = some fact) :
    HasDataUrl fact ↔ LabelsDataUrl item := by
  have hlabel : ∀ (label text : Text), ¬ dataMarker <:+: label →
      (HasDataUrl (label ++ '=' :: text) ↔ HasDataUrl text) :=
    fun label text hl => hasDataUrl_label hl (by decide)
  have htype : ("type=" : Text) = ("type" : Text) ++ ['='] := by decide
  have hrole : ("role=" : Text) = ("role" : Text) ++ ['='] := by decide
  have hitem : ("item=" : Text) = ("item" : Text) ++ ['='] := by decide
  have hfields : (∃ field ∈ verifiedFactFields item, HasDataUrl field) ↔ LabelsDataUrl item := by
    have hkeys : ∀ key ∈ factKeys, ∀ value, ¬ HasDataUrl (key ++ ['='] ++ summarizeValue value) := by
      intro key hkey value
      have hclean : ∀ key ∈ factKeys, ¬ dataMarker <:+: key := by decide
      rw [append_assoc, singleton_append, hlabel key _ (hclean key hkey)]
      exact not_hasDataUrl_of_not_infix (marker_not_in_summary value)
    have hrest : ∀ field ∈ factKeys.filterMap fun key =>
        (item.get key).map fun value => key ++ ['='] ++ summarizeValue value, ¬ HasDataUrl field := by
      intro field hfield
      obtain ⟨key, hkey, hsome⟩ := mem_filterMap.mp hfield
      obtain ⟨value, _, rfl⟩ := Option.map_eq_some_iff.mp hsome
      exact hkeys key hkey value
    have hoption : ∀ (label : Text) (text : Option Text), ¬ dataMarker <:+: label →
        ((∃ field ∈ (text.map fun t => label ++ ['='] ++ t).toList, HasDataUrl field) ↔
          ∃ t, text = some t ∧ HasDataUrl t) := by
      intro label text hl
      cases text with
      | none => simp
      | some t => simpa using hlabel label t hl
    have htype' := hoption "type" (item.getStr "type") (by decide)
    have hrole' := hoption "role" (item.getStr "role") (by decide)
    rw [← htype] at htype'
    rw [← hrole] at hrole'
    simp only [verifiedFactFields, mem_append, or_and_right, exists_or, LabelsDataUrl,
      htype', hrole']
    constructor
    · rintro (hlabels | ⟨field, hfield, hurl⟩)
      · exact hlabels
      · exact absurd hurl (hrest field hfield)
    · exact Or.inl
  unfold responseItemToVerifiedFact at h
  dsimp only at h
  have hspace : (" " : Text) = [' '] := by decide
  have hextra : ¬ HasDataUrl (("item=" : Text) ++ summarizeValue item) := by
    rw [hitem, append_assoc, singleton_append, hlabel _ _ (by decide)]
    exact not_hasDataUrl_of_not_infix (marker_not_in_summary item)
  split_ifs at h with hlike hone
  · rw [← Option.some.inj h, hspace, hasDataUrl_join (by decide) (by decide)]
    simp only [mem_append, or_and_right, exists_or, hfields, mem_singleton,
      exists_eq_left, hextra, or_false]
  · rw [← Option.some.inj h, hspace, hasDataUrl_join (by decide) (by decide)]
    exact hfields

/-! ### The loop -/

section Loop

variable {crates : CoreCrates} {resolved valid : Finset Text} {st : CompileState}

/-- The value whose text a compaction item contributes. -/
def compactionValue (item : Value) : Option Value :=
  ((item.get "summary").filter fun v => !(contentToText v).isBlank).or
    ((item.get "content").filter fun v => !(contentToText v).isBlank)

theorem compactionValue_text (item : Value) :
    (nonblankText item "summary").or (nonblankText item "content") =
      (compactionValue item).map contentToText := by
  have hkey : ∀ key, nonblankText item key =
      ((item.get key).filter fun v => !(contentToText v).isBlank).map contentToText := by
    intro key
    unfold nonblankText
    cases item.get key with
    | none => rfl
    | some v => cases hblank : (contentToText v).isBlank <;> simp [Option.filter, hblank]
  rw [hkey, hkey, compactionValue]
  cases (item.get "summary").filter fun v => !(contentToText v).isBlank <;> simp

/-- The item brings a data URL into the messages past the scanner: printed as a message or as a
compaction summary, or in the labels of a verified fact that still fits. -/
def ItemLeaks (crates : CoreCrates) (resolved valid : Finset Text) (st : CompileState)
    (item : Value) : Prop :=
  match itemKind crates resolved valid st item with
  | .message _ => ∃ value, item.get "content" = some value ∧
      PrintsDataUrl value maxMessageContentChars
  | .compaction _ => ∃ value, compactionValue item = some value ∧
      PrintsDataUrl value (maxFactTextChars * 2)
  | .verifiedFact _ => st.facts.length < maxFacts ∧ LabelsDataUrl item
  | _ => False

/-- Some item of the rest of the input leaks in the state in which the loop meets it. -/
def LaterItemLeaks (crates : CoreCrates) (resolved valid : Finset Text) :
    CompileState → List Value → Prop
  | _, [] => False
  | st, item :: items => ItemLeaks crates resolved valid st item ∨
      LaterItemLeaks crates resolved valid (compileStep crates resolved valid st item) items

/-- A message, the pending assistant content or a fact of the state holds a data URL. -/
def CarriesDataUrl (st : CompileState) : Prop :=
  (∃ m ∈ st.messages, HasDataUrl m.content) ∨ HasDataUrl st.pendingAssistant.content ∨
    ∃ fact ∈ st.facts, HasDataUrl fact

/-- Behind a flush the pending content is blank. -/
theorem not_hasDataUrl_flush_pending (st : CompileState) :
    ¬ HasDataUrl st.flush.pendingAssistant.content := by
  intro hurl
  have hblank := not_blank_of_hasDataUrl hurl
  unfold CompileState.flush at hblank
  cases hmsg : st.pendingAssistant.message with
  | some message => simp [hmsg] at hblank
  | none =>
    simp only [hmsg] at hblank
    unfold PendingAssistant.message at hmsg
    split_ifs at hmsg with hall
    simp [hall.1] at hblank

theorem flush_messages_leak (st : CompileState) :
    (∃ m ∈ st.flush.messages, HasDataUrl m.content) ↔
      (∃ m ∈ st.messages, HasDataUrl m.content) ∨ HasDataUrl st.pendingAssistant.content := by
  rw [flush_messages]
  cases hmsg : st.pendingAssistant.message with
  | some message =>
    have hcontent := (pendingMessage_eq hmsg).2.1
    simp only [Option.toList_some, mem_append, mem_singleton, or_and_right, exists_or,
      exists_eq_left, hcontent]
  | none =>
    have hclean : ¬ HasDataUrl st.pendingAssistant.content := by
      intro hurl
      have hblank := not_blank_of_hasDataUrl hurl
      unfold PendingAssistant.message at hmsg
      split_ifs at hmsg with hall
      simp [hall.1] at hblank
    simp [hclean]

theorem carriesDataUrl_flush (st : CompileState) : CarriesDataUrl st.flush ↔ CarriesDataUrl st := by
  unfold CarriesDataUrl
  rw [flush_messages_leak, flush_facts, or_iff_right (not_hasDataUrl_flush_pending st), or_assoc]

theorem hasDataUrl_message (h : responseItemToMessage item = some message) :
    HasDataUrl message.content ↔ ∃ value, item.get "content" = some value ∧
      PrintsDataUrl value maxMessageContentChars := by
  obtain ⟨value, hvalue, rfl⟩ := responseItemToMessage_eq h
  simp only [hvalue, Option.some.injEq, exists_eq_left']
  exact hasDataUrl_content

theorem hasDataUrl_compaction (h : responseItemToCompactionMessage item = some message) :
    HasDataUrl message.content ↔ ∃ value, compactionValue item = some value ∧
      PrintsDataUrl value (maxFactTextChars * 2) := by
  obtain ⟨text, htext, rfl⟩ := compactionMessage_eq h
  rw [compactionValue_text] at htext
  obtain ⟨value, hvalue, rfl⟩ := Option.map_eq_some_iff.mp htext
  simp only [hvalue, Option.some.injEq, exists_eq_left']
  show HasDataUrl (compactionHeader ++ _) ↔ _
  rw [hasDataUrl_after_header (by decide +kernel) (by decide +kernel)]
  exact hasDataUrl_content

theorem not_hasDataUrl_toolResult {seen : Finset Text} {names : List (Text × Text)}
    {fact : Option Text}
    (h : responseItemToToolResultMessage crates item resolved seen names valid =
      some (message, fact)) : ¬ HasDataUrl message.content := by
  obtain ⟨id, _, rfl, _⟩ := toolResultMessage_eq h
  exact not_hasDataUrl_of_not_infix (marker_not_in_truncated (marker_not_in_redacted _) _)

/-- One round adds exactly what its item leaks. -/
theorem carriesDataUrl_step (item : Value) :
    CarriesDataUrl (compileStep crates resolved valid st item) ↔
      CarriesDataUrl st ∨ ItemLeaks crates resolved valid st item := by
  have hspec := itemKind_spec crates resolved valid st item
  have hpending := not_hasDataUrl_flush_pending st
  unfold compileStep ItemLeaks
  cases hkind : itemKind crates resolved valid st item with
  | reasoning text => simp [CarriesDataUrl, reasoningStep]
  | toolCall call => simp [CarriesDataUrl, toolCallStep]
  | toolResult message fact =>
    rw [hkind] at hspec
    have hclean := not_hasDataUrl_toolResult hspec.2
    have hfact : ∀ m ∈ (fact.map userMessage).toList, ¬ HasDataUrl m.content := by
      intro m hm
      obtain ⟨text, _, rfl⟩ := Option.map_eq_some_iff.mp (Option.mem_toList.mp hm)
      exact not_hasDataUrl_redacted text
    have hadded : (∃ m ∈ (toolResultStep st message fact).messages, HasDataUrl m.content) ↔
        ∃ m ∈ st.flush.messages, HasDataUrl m.content := by
      simp only [toolResultStep, mem_append, mem_singleton]
      constructor
      · rintro ⟨m, (hm | rfl) | hm, hurl⟩
        · exact ⟨m, hm, hurl⟩
        · exact absurd hurl hclean
        · exact absurd hurl (hfact m hm)
      · rintro ⟨m, hm, hurl⟩
        exact ⟨m, Or.inl (Or.inl hm), hurl⟩
    rw [← carriesDataUrl_flush st, or_false]
    unfold CarriesDataUrl
    rw [hadded]
    rfl
  | compaction message =>
    rw [hkind] at hspec
    rw [← carriesDataUrl_flush st, ← hasDataUrl_compaction hspec]
    simp only [CarriesDataUrl, compactionStep, mem_append, mem_singleton, or_and_right,
      exists_or, exists_eq_left]
    exact or_right_comm
  | verifiedFact fact =>
    rw [hkind] at hspec
    rw [← carriesDataUrl_flush st, ← hasDataUrl_verifiedFact hspec, ← flush_facts st]
    by_cases hroom : st.flush.facts.length < maxFacts
    · simp only [CarriesDataUrl, verifiedFactStep, hroom, if_true, mem_append,
        mem_singleton, or_and_right, exists_or, exists_eq_left, true_and]
      rw [or_assoc, or_assoc]
    · simp [CarriesDataUrl, verifiedFactStep, hroom]
  | message message =>
    rw [hkind] at hspec
    rw [← carriesDataUrl_flush st, ← hasDataUrl_message hspec.2]
    by_cases hrole : message.role = "assistant"
    · simp only [CarriesDataUrl, messageStep, hrole, if_true, hpending, false_or]
      exact or_left_comm.trans or_comm
    · simp only [CarriesDataUrl, messageStep, hrole, if_false, mem_append,
        mem_singleton, or_and_right, exists_or, exists_eq_left]
      exact or_right_comm
  | unsupported =>
    rw [← carriesDataUrl_flush st, or_false]
    rfl

theorem carriesDataUrl_run :
    CarriesDataUrl (compileItems crates resolved valid st items) ↔
      CarriesDataUrl st ∨ LaterItemLeaks crates resolved valid st items := by
  induction items generalizing st with
  | nil => simp [compileItems, LaterItemLeaks]
  | cons item items ih =>
    have hrest := @ih (compileStep crates resolved valid st item)
    unfold compileItems at hrest ⊢
    rw [foldl_cons, hrest, carriesDataUrl_step, LaterItemLeaks, or_assoc]

theorem hasDataUrl_gathered (items : List Value) :
    (∃ m ∈ gatheredMessages crates items valid, HasDataUrl m.content) ↔
      LaterItemLeaks crates (collectResolvedToolCallIds items) valid
        { diagnostic := { inputItems := items.length } } items := by
  have hstart : ¬ CarriesDataUrl { diagnostic := { inputItems := items.length } } := by
    simp [CarriesDataUrl, HasDataUrl]
  have hgather : CarriesDataUrl (gatherItems crates items valid) ↔ _ :=
    (carriesDataUrl_flush _).trans (carriesDataUrl_run items)
  have hpending : ¬ HasDataUrl (gatherItems crates items valid).pendingAssistant.content :=
    not_hasDataUrl_flush_pending _
  rw [or_iff_right hstart] at hgather
  rw [← hgather]
  unfold gatheredMessages CarriesDataUrl
  dsimp only
  split_ifs with hfacts
  · simp [hfacts, hpending]
  · simp only [mem_cons, or_and_right, exists_or, exists_eq_left, hasDataUrl_verifiedFacts,
      hpending, false_or]
    exact or_comm

end Loop

/-! ### The protocol pass -/

/-- The tool results that the protocol pass turns into facts. -/
def orphanedToolMessages (validToolCallIds : Finset Text) : List ChatMessage → List ChatMessage
  | [] => []
  | message :: rest =>
      let expected := expectedIds message
      if expected ≠ [] then
        let scan := scanToolMessages expected.toFinset ∅ rest
        (if scan.2.1.card = expected.length then [] else scan.1) ++
          orphanedToolMessages validToolCallIds scan.2.2
      else if message.role = "tool" ∧ toolMessageIsCurrentValidOutput message validToolCallIds then
        orphanedToolMessages validToolCallIds rest
      else if message.role = "tool" then
        message :: orphanedToolMessages validToolCallIds rest
      else orphanedToolMessages validToolCallIds rest
termination_by messages => messages.length
decreasing_by
  all_goals simp only [length_cons]
  all_goals first
    | omega
    | exact Nat.lt_succ_of_le (scanToolMessages_length_le _ _ _)

/-- The id under which an orphaned result is reported holds a data URL. -/
def IdLeaks (message : ChatMessage) : Prop :=
  HasDataUrl (truncateText (message.toolCallId.getD []) 120)

theorem hasDataUrl_orphanFact (message : ChatMessage) :
    HasDataUrl (orphanToolResultFact message).content ↔ IdLeaks message := by
  have hlabel : ("Verified prior tool result without replayable parent call. tool_call_id=" : Text) =
      ("Verified prior tool result without replayable parent call. tool_call_id" : Text) ++ ['='] := by
    decide +kernel
  have houtput : (" output=" : Text) = ' ' :: (("output" : Text) ++ ['=']) := by decide
  have hclean : ¬ HasDataUrl (truncateText (redactInlineDataUrls message.content) maxFactTextChars) :=
    not_hasDataUrl_of_not_infix (marker_not_in_truncated (marker_not_in_redacted _) _)
  have hshape : (orphanToolResultFact message).content =
      (("Verified prior tool result without replayable parent call. tool_call_id" : Text) ++
        '=' :: truncateText (message.toolCallId.getD []) 120) ++ ' ' :: (("output" : Text) ++
          '=' :: truncateText (redactInlineDataUrls message.content) maxFactTextChars) := by
    show _ ++ _ ++ _ ++ _ = _
    rw [hlabel, houtput]
    simp only [append_assoc, cons_append, nil_append]
  rw [hshape, hasDataUrl_append_cons (by decide) (by decide),
    hasDataUrl_label (by decide +kernel) (by decide), hasDataUrl_label (by decide) (by decide),
    or_iff_left hclean, IdLeaks]

theorem downgraded_content {message down : ChatMessage}
    (h : downgradeIncompleteAssistant message = some down) : down.content = message.content := by
  unfold downgradeIncompleteAssistant at h
  simp only [Option.ite_none_left_eq_some] at h
  rw [← Option.some.inj h.2]

/-- A downgrade drops blank contents only. -/
theorem hasDataUrl_downgraded (message : ChatMessage) :
    (∃ m ∈ (downgradeIncompleteAssistant message).toList, HasDataUrl m.content) ↔
      HasDataUrl message.content := by
  constructor
  · rintro ⟨m, hm, hurl⟩
    rwa [downgraded_content (Option.mem_toList.mp hm)] at hurl
  · intro hurl
    cases hdown : downgradeIncompleteAssistant message with
    | some down => exact ⟨down, by simp, (downgraded_content hdown).symm ▸ hurl⟩
    | none =>
      unfold downgradeIncompleteAssistant at hdown
      simp [not_blank_of_hasDataUrl hurl] at hdown

/-- The messages that a scan consumes are clean, so only what is behind them matters. -/
theorem hasDataUrl_behind_scan (expected : Finset Text)
    (hclean : ∀ m ∈ rest, m.role = "tool" → ¬ HasDataUrl m.content) :
    (∃ m ∈ rest, HasDataUrl m.content) ↔
      ∃ m ∈ (scanToolMessages expected ∅ rest).2.2, HasDataUrl m.content := by
  obtain ⟨consumed, hrest, htools, _⟩ := scanToolMessages_consumed expected ∅ rest
  constructor
  · rintro ⟨m, hm, hurl⟩
    have hmem : m ∈ consumed ++ (scanToolMessages expected ∅ rest).2.2 := hrest ▸ hm
    rcases mem_append.mp hmem with hmem | hmem
    · exact absurd hurl (hclean m hm (htools m hmem))
    · exact ⟨m, hmem, hurl⟩
  · rintro ⟨m, hm, hurl⟩
    exact ⟨m, scanToolMessages_rest_suffix.subset hm, hurl⟩

/-- The scanned messages are among the scanned list. -/
theorem mem_of_mem_scan {expected : Finset Text} {m : ChatMessage}
    (h : m ∈ (scanToolMessages expected ∅ rest).1) : m ∈ rest := by
  obtain ⟨consumed, hrest, _, hsub⟩ := scanToolMessages_consumed expected ∅ rest
  rw [hrest]
  exact mem_append_left _ (hsub.subset h)

theorem hasDataUrl_sanitizeLoop {messages : List ChatMessage}
    (hclean : ∀ m ∈ messages, m.role = "tool" → ¬ HasDataUrl m.content) :
    (∃ m ∈ sanitizeLoop valid messages, HasDataUrl m.content) ↔
      (∃ m ∈ messages, HasDataUrl m.content) ∨
        ∃ m ∈ orphanedToolMessages valid messages, IdLeaks m := by
  fun_induction sanitizeLoop valid messages with
  | case1 => simp [orphanedToolMessages]
  | case2 message rest expected hexp scan hcard ih =>
    have hrest := fun m hm => hclean m (mem_cons_of_mem message hm)
    have hlater := ih fun m hm => hrest m (scanToolMessages_rest_suffix.subset hm)
    have hanswers : ∀ m ∈ orderedToolMessages scan.1 expected, ¬ HasDataUrl m.content := by
      intro m hm
      have hscan := orderedToolMessages_subset hm
      exact hrest m (mem_of_mem_scan hscan) (scanToolMessages_spec hscan).1
    have horphaned : orphanedToolMessages valid (message :: rest) =
        (if scan.2.1.card = expected.length then [] else scan.1) ++
          orphanedToolMessages valid scan.2.2 := by
      rw [orphanedToolMessages, if_pos hexp]
    rw [horphaned, if_pos hcard, nil_append]
    simp only [mem_cons, mem_append, or_and_right, exists_or, exists_eq_left,
      hasDataUrl_behind_scan expected.toFinset hrest]
    rw [hlater, or_assoc, or_iff_right (a := ∃ m ∈ orderedToolMessages scan.1 expected, _)]
    rintro ⟨m, hm, hurl⟩
    exact hanswers m hm hurl
  | case3 message rest expected hexp scan hcard ih =>
    have hrest := fun m hm => hclean m (mem_cons_of_mem message hm)
    have hlater := ih fun m hm => hrest m (scanToolMessages_rest_suffix.subset hm)
    have horphans : (∃ m ∈ scan.1.map orphanToolResultFact, HasDataUrl m.content) ↔
        ∃ m ∈ scan.1, IdLeaks m := by
      simp only [mem_map, exists_exists_and_eq_and, hasDataUrl_orphanFact]
    have horphaned : orphanedToolMessages valid (message :: rest) =
        (if scan.2.1.card = expected.length then [] else scan.1) ++
          orphanedToolMessages valid scan.2.2 := by
      rw [orphanedToolMessages, if_pos hexp]
    rw [horphaned, if_neg hcard]
    simp only [mem_cons, mem_append, or_and_right, exists_or, exists_eq_left,
      hasDataUrl_behind_scan expected.toFinset hrest]
    rw [hlater, hasDataUrl_downgraded, horphans]
    exact or_or_or_comm
  | case4 message rest expected hexp htool ih =>
    have hlater := ih fun m hm => hclean m (mem_cons_of_mem message hm)
    have hmessage := hclean message (by simp) htool.1
    rw [orphanedToolMessages, if_neg hexp, if_pos htool]
    simp only [mem_cons, or_and_right, exists_or, exists_eq_left, hmessage, false_or, hlater]
  | case5 message rest expected hexp hnvalid htool ih =>
    have hlater := ih fun m hm => hclean m (mem_cons_of_mem message hm)
    have hmessage := hclean message (by simp) htool
    rw [orphanedToolMessages, if_neg hexp, if_neg hnvalid, if_pos htool]
    simp only [mem_cons, or_and_right, exists_or, exists_eq_left, hmessage, false_or, hlater,
      hasDataUrl_orphanFact]
    exact or_left_comm
  | case6 message rest expected hexp hnvalid htool ih =>
    have hlater := ih fun m hm => hclean m (mem_cons_of_mem message hm)
    rw [orphanedToolMessages, if_neg hexp, if_neg hnvalid, if_neg htool]
    simp only [mem_cons, or_and_right, exists_or, exists_eq_left, hlater, or_assoc]

/-- The filter of the protocol pass drops blank contents only. -/
theorem hasDataUrl_useful (messages : List ChatMessage) :
    (∃ m ∈ messages.filter messageIsUseful, HasDataUrl m.content) ↔
      ∃ m ∈ messages, HasDataUrl m.content := by
  constructor
  · rintro ⟨m, hm, hurl⟩
    exact ⟨m, mem_of_mem_filter hm, hurl⟩
  · rintro ⟨m, hm, hurl⟩
    refine ⟨m, mem_filter.mpr ⟨hm, ?_⟩, hurl⟩
    unfold messageIsUseful
    split_ifs <;> simp [not_blank_of_hasDataUrl hurl]

/-! ### Compiled messages -/

/-- Some item of the array brings a data URL past the scanner, or an orphaned tool result does
so with its id. -/
def DataUrlLeak (crates : CoreCrates) (input : Value) (valid : Finset Text) : Prop :=
  match input with
  | .array items =>
      LaterItemLeaks crates (collectResolvedToolCallIds items) valid
          { diagnostic := { inputItems := items.length } } items ∨
        ∃ m ∈ orphanedToolMessages valid (gatheredMessages crates items valid), IdLeaks m
  | _ => False

theorem gathered_tool_clean {crates : CoreCrates} :
    ∀ m ∈ gatheredMessages crates items valid, m.role = "tool" → ¬ HasDataUrl m.content := by
  obtain ⟨front, hgathered, hfront⟩ := @gatheredMessages_eq crates valid items
  intro m hm
  rw [hgathered, gatherItems_messages] at hm
  rcases mem_append.mp hm with hm | hm
  · obtain ⟨facts, truncatedItems, rfl⟩ := hfront m hm
    simp [verifiedFactsMessage, ChatMessage.text]
  · refine emissions_forall (P := fun m => m.role = "tool" → ¬ HasDataUrl m.content) items
      ?_ ?_ m hm
    · intro pending m hm hrole
      simp [(pendingMessage_eq hm).1] at hrole
    · intro st item m hm hrole
      obtain ⟨id, _, rfl⟩ := (emitted_spec hm).2.2 hrole
      exact not_hasDataUrl_of_not_infix (marker_not_in_truncated (marker_not_in_redacted _) _)

theorem hasDataUrl_compiled (crates : CoreCrates) (input : Value) (valid : Finset Text) :
    (∃ m ∈ (compileResponsesInputWithToolOutputs crates input valid).messages,
      HasDataUrl m.content) ↔ DataUrlLeak crates input valid := by
  have hsingle : ∀ text, ¬ ∃ m ∈ [userMessage text], HasDataUrl m.content := by
    rintro text ⟨m, hm, hurl⟩
    rw [mem_singleton.mp hm] at hurl
    exact not_hasDataUrl_redacted text hurl
  cases input with
  | array items =>
    have hsanitized : (∃ m ∈ sanitizeChatToolProtocol (gatheredMessages crates items valid) valid,
        HasDataUrl m.content) ↔ DataUrlLeak crates (.array items) valid := by
      unfold sanitizeChatToolProtocol DataUrlLeak
      rw [hasDataUrl_useful, hasDataUrl_sanitizeLoop (gathered_tool_clean items),
        hasDataUrl_gathered]
    rw [← hsanitized]
    unfold compileResponsesInputWithToolOutputs
    dsimp only
    split_ifs with hnil
    · rw [hnil]
      simpa using hsingle _
    · rfl
  | null => simp [compileResponsesInputWithToolOutputs, DataUrlLeak]
  | bool b => exact iff_of_false (hsingle _) id
  | number n => exact iff_of_false (hsingle _) id
  | string s => exact iff_of_false (hsingle _) id
  | object fields => exact iff_of_false (hsingle _) id

/-- The scanner leaves no data URL and is idempotent, and the compiled messages hold no data URL
exactly if no item and no orphaned id leaks one past it. -/
theorem compiled_without_data_url_iff (text : Text) (crates : CoreCrates) (input : Value)
    (valid : Finset Text) :
    (¬ HasDataUrl (redactInlineDataUrls text) ∧
      redactInlineDataUrls (redactInlineDataUrls text) = redactInlineDataUrls text) ∧
    ((∀ m ∈ (compileResponsesInputWithToolOutputs crates input valid).messages,
      ¬ HasDataUrl m.content) ↔ ¬ DataUrlLeak crates input valid) := by
  constructor
  · exact ⟨not_hasDataUrl_redacted text, redactInlineDataUrls_idempotent text⟩
  · rw [← hasDataUrl_compiled]
    simp only [not_exists, not_and]

/-- A user message whose content is an object without a text field. -/
def imageObjectInput : Value :=
  .array [.object [
    ("content", .object [("image", .string "data:image/png;base64,AAAA")]),
    ("role", .string "user")]]

/-- Its data URL is printed into the compiled message. -/
theorem imageObject_data_url_survives :
    ¬ ∀ (crates : CoreCrates), ∀ m ∈ (compileResponsesInputWithToolOutputs crates
      imageObjectInput ∅).messages, ¬ HasDataUrl m.content := by
  intro h
  have hcompiled : ∃ m ∈ (compileResponsesInputWithToolOutputs
      { fromStr := fun _ => none, decodeBase64Utf8 := fun _ => none } imageObjectInput ∅).messages,
        HasDataUrl m.content := by decide +kernel
  obtain ⟨m, hm, hurl⟩ := hcompiled
  exact h _ m hm hurl

end CodeSeeX.Context
