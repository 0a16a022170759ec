import CodeSeeX.Proxy.ContextBudget

/-!
# Cutting texts for the budget

A text over its limit becomes its first characters and a marker with the counts of
what was cut. The marker may be longer than what it replaces, so a cut text can
grow, by as many characters as the marker exceeds the dropped tail; and a second
pass cuts the marker again. Nothing else changes.
-/
namespace CodeSeeX.Proxy.Budget
open List Text

variable (text : Text) (message : ChatMessage) {reasoning cut : Option Text}
  {contentLimit reasoningLimit : ℕ} {limits : List ℕ}

/-! ### JSON sizes -/

def escapedBytes (text : Text) : ℕ := utf8Len (text.flatMap Value.escapeChar)

/-- The JSON size of a string. -/
def stringBytes (text : Text) : ℕ := utf8Len (Value.quote text)

theorem stringBytes_eq : stringBytes text = escapedBytes text + 2 := by
  have hquote : utf8Len ['"'] = 1 := by decide
  rw [stringBytes, Value.quote, utf8Len_append, utf8Len_append, hquote, escapedBytes]
  omega

theorem escapedBytes_append (s t : Text) :
    escapedBytes (s ++ t) = escapedBytes s + escapedBytes t := by
  rw [escapedBytes, flatMap_append, utf8Len_append]
  rfl

theorem one_le_escapeChar (c : Char) : 1 ≤ utf8Len (Value.escapeChar c) := by
  have hpos : ∀ text : Text, text ≠ [] → 1 ≤ utf8Len text := by
    intro text hne
    obtain ⟨d, rest, rfl⟩ := exists_cons_of_ne_nil hne
    have hsize := Char.utf8Size_pos d
    simp only [utf8Len, map_cons, sum_cons]
    omega
  apply hpos
  unfold Value.escapeChar
  split_ifs
  all_goals simp

theorem length_le_escapedBytes : text.length ≤ escapedBytes text := by
  induction text with
  | nil => exact Nat.zero_le _
  | cons c text ih =>
    have hc := one_le_escapeChar c
    have hsplit : escapedBytes (c :: text) =
        utf8Len (Value.escapeChar c) + escapedBytes text := by
      rw [escapedBytes, flatMap_cons, utf8Len_append]
      rfl
    rw [length_cons, hsplit]
    omega

/-- A character that is printed as itself, in one byte. -/
def Plain (c : Char) : Prop := 32 ≤ c.toNat ∧ c.toNat < 127 ∧ c ≠ '"' ∧ c ≠ '\\'

instance (c : Char) : Decidable (Plain c) := inferInstanceAs (Decidable (_ ∧ _))

theorem escapedBytes_plain {text : Text} (h : ∀ c ∈ text, Plain c) :
    escapedBytes text = text.length := by
  induction text with
  | nil => rfl
  | cons c text ih =>
    rw [forall_mem_cons] at h
    obtain ⟨⟨hlow, hhigh, hquote, hslash⟩, hrest⟩ := h
    have hself : Value.escapeChar c = [c] := by
      rw [Value.escapeChar, if_neg hquote, if_neg hslash, if_neg (by omega), if_neg (by omega),
        if_neg (by omega), if_neg (by omega), if_neg (by omega), if_neg (by omega)]
    have hsize : c.utf8Size = 1 := by
      rw [Char.utf8Size_eq_one_iff, UInt32.le_iff_toNat_le]
      exact Nat.le_of_lt hhigh
    rw [escapedBytes, flatMap_cons, utf8Len_append, hself, length_cons, ← ih hrest,
      escapedBytes]
    simp [utf8Len, hsize, Nat.add_comm]

/-! ### One text -/

/-- What takes the place of the characters over the limit. -/
def truncationMarker (text : Text) : Text :=
  ("...[truncated chars=" : Text) ++ ofNat text.length ++ " bytes=" ++
    ofNat (utf8Len text) ++ "]"

theorem truncateForBudget_of_le {text : Text} {maxChars : ℕ} (h : text.length ≤ maxChars) :
    truncateForBudget text maxChars = text := if_pos h

theorem truncateForBudget_of_lt {text : Text} {maxChars : ℕ} (h : maxChars < text.length) :
    truncateForBudget text maxChars = text.take maxChars ++ truncationMarker text := by
  rw [truncateForBudget, if_neg (not_le.mpr h)]
  simp only [truncationMarker, append_assoc]

theorem plain_ofNat (n : ℕ) : ∀ c ∈ ofNat n, Plain c := by
  intro c hc
  have hdigit := digit_of_mem_ofNat hc
  simp only [Char.isDigit, Bool.and_eq_true, decide_eq_true_eq] at hdigit
  have hlow : 48 ≤ c.toNat := hdigit.1
  have hhigh : c.toNat ≤ 57 := hdigit.2
  refine ⟨by omega, by omega, ?_, ?_⟩
  · rintro rfl
    exact absurd hlow (by decide)
  · rintro rfl
    exact absurd hhigh (by decide)

theorem plain_marker : ∀ c ∈ truncationMarker text, Plain c := by
  have hchars : ∀ c ∈ ("...[truncated chars=" : Text), Plain c := by
    simp [Plain, lit]
  have hbytes : ∀ c ∈ (" bytes=" : Text), Plain c := by
    simp [Plain, lit]
  have hclose : ∀ c ∈ ("]" : Text), Plain c := by
    simp [Plain, lit]
  intro c hc
  simp only [truncationMarker, mem_append] at hc
  rcases hc with (((hc | hc) | hc) | hc) | hc
  · exact hchars c hc
  · exact plain_ofNat _ c hc
  · exact hbytes c hc
  · exact plain_ofNat _ c hc
  · exact hclose c hc

/-- The text is kept, or its first characters are, with a marker behind them. -/
def TextCut (limit : ℕ) (text cut : Text) : Prop :=
  cut = text ∨
    limit < text.length ∧ ∃ counted, cut = text.take limit ++ truncationMarker counted

section TextCut

variable {limit later : ℕ} {text cut : Text}

/-- In JSON a cut text grows by no more than the characters it gained. -/
theorem TextCut.bytes (h : TextCut limit text cut) :
    stringBytes cut ≤ stringBytes text + (cut.length - text.length) := by
  rcases h with rfl | ⟨hlimit, counted, rfl⟩
  · exact Nat.le_add_right _ _
  · have hsplit : escapedBytes text =
        escapedBytes (text.take limit) + escapedBytes (text.drop limit) := by
      rw [← escapedBytes_append, take_append_drop]
    have hdropped := length_le_escapedBytes (text.drop limit)
    have hmarker := escapedBytes_plain (plain_marker counted)
    rw [length_drop] at hdropped
    rw [stringBytes_eq, stringBytes_eq, escapedBytes_append, hsplit, hmarker, length_append,
      length_take]
    omega

/-- A later cut at a smaller limit is a cut of the first text. -/
theorem TextCut.truncate (h : TextCut limit text cut) (hle : later ≤ limit) :
    TextCut later text (truncateForBudget cut later) := by
  rcases h with rfl | ⟨hlimit, counted, rfl⟩
  · rcases le_or_gt cut.length later with hshort | hlong
    · exact .inl (truncateForBudget_of_le hshort)
    · exact .inr ⟨hlong, cut, truncateForBudget_of_lt hlong⟩
  · have hmarker : 0 < (truncationMarker counted).length := by
      simp [truncationMarker, lit]
    have hlong : later < (text.take limit ++ truncationMarker counted).length := by
      rw [length_append, length_take]
      omega
    have htake : (text.take limit ++ truncationMarker counted).take later = text.take later := by
      rw [take_append_of_le_length (by rw [length_take]; omega), take_take,
        min_eq_left hle]
    refine .inr ⟨by omega, text.take limit ++ truncationMarker counted, ?_⟩
    rw [truncateForBudget_of_lt hlong, htake]

end TextCut

/-! ### One message -/

/-- The bytes of a field and of the comma or bracket behind it. -/
def fieldBytes (field : Text × Value) : ℕ :=
  utf8Len (Value.quote field.1) + 1 + utf8Len (Value.print field.2) + 1

theorem join_bytes {parts : List Text} (h : parts ≠ []) :
    utf8Len (join [','] parts) + 1 =
      (parts.map fun part => utf8Len part + 1).sum := by
  induction parts with
  | nil => exact absurd rfl h
  | cons part parts ih =>
    cases parts with
    | nil => simp [join, intercalate]
    | cons next parts =>
      have hjoin : join [','] (part :: next :: parts) =
          part ++ ([','] ++ join [','] (next :: parts)) := by
        simp [join, intercalate]
      have hcomma : utf8Len [','] = 1 := by decide
      rw [hjoin, utf8Len_append, utf8Len_append, hcomma, map_cons, sum_cons,
        ← ih (by simp)]
      omega

theorem printFields_bytes (fields : List (Text × Value)) :
    (Value.printFields fields).map (fun part => utf8Len part + 1) =
      fields.map fieldBytes := by
  have hcolon : utf8Len [':'] = 1 := by decide
  induction fields with
  | nil => rfl
  | cons field fields ih =>
    obtain ⟨key, value⟩ := field
    rw [Value.printFields, map_cons, map_cons, ih, utf8Len_append, utf8Len_append,
      hcolon]
    rfl

theorem object_bytes {fields : List (Text × Value)} (h : fields ≠ []) :
    utf8Len (Value.print (.object fields)) = (fields.map fieldBytes).sum + 1 := by
  have hopen : utf8Len ['\x7b'] = 1 := by decide
  have hclose : utf8Len ['\x7d'] = 1 := by decide
  have hparts : Value.printFields fields ≠ [] := by
    cases fields with
    | nil => exact absurd rfl h
    | cons field fields => simp [Value.printFields]
  rw [← printFields_bytes, ← join_bytes hparts, Value.print, utf8Len_append, utf8Len_append,
    hopen, hclose]
  omega

/-- The bytes of a message without its content and its reasoning. -/
def frameBytes (message : ChatMessage) : ℕ :=
  chatMessageJsonBytes { message with content := [], reasoningContent := none }

/-- What a reasoning text adds to a message. -/
def reasoningBytes (reasoning : Option Text) : ℕ :=
  reasoning.elim 0 fun text => fieldBytes ("reasoning_content", .string text)

theorem chatMessageJsonBytes_eq :
    chatMessageJsonBytes message + 2 =
      frameBytes message + stringBytes message.content +
        reasoningBytes message.reasoningContent := by
  have hne : ∀ m : ChatMessage, messageFields m ≠ [] := by
    intro m
    simp [messageFields]
  have hempty : stringBytes [] = 2 := by decide
  rw [frameBytes, chatMessageJsonBytes, chatMessageJsonBytes, object_bytes (hne _),
    object_bytes (hne _)]
  have hcontent : ∀ text : Text, fieldBytes (("content" : Text), .string text) =
      stringBytes text + 11 := by
    intro text
    have hkey : utf8Len (Value.quote "content") = 9 := by decide
    rw [fieldBytes, hkey, Value.print, stringBytes]
    omega
  have hreasoning : ((message.reasoningContent.map fun text =>
      (("reasoning_content" : Text), Value.string text)).toList.map fieldBytes).sum =
        reasoningBytes message.reasoningContent := by
    cases message.reasoningContent with
    | none => rfl
    | some text => simp [reasoningBytes]
  simp only [messageFields, map_append, sum_append, map_cons, sum_cons,
    map_nil, sum_nil, hcontent, hreasoning, hempty, Option.map_none,
    Option.toList_none]
  omega

/-- Only the content and the reasoning are cut. -/
structure MessageCut (contentLimit reasoningLimit : ℕ) (message cut : ChatMessage) : Prop where
  role : cut.role = message.role
  toolCalls : cut.toolCalls = message.toolCalls
  toolCallId : cut.toolCallId = message.toolCallId
  content : TextCut contentLimit message.content cut.content
  reasoning : Option.Rel (TextCut reasoningLimit) message.reasoningContent cut.reasoningContent

/-- The characters that the texts of a message gained. -/
def growth (message cut : ChatMessage) : ℕ :=
  (cut.content.length - message.content.length) +
    ((cut.reasoningContent.getD []).length - (message.reasoningContent.getD []).length)

theorem reasoningBytes_cut {limit : ℕ} (h : Option.Rel (TextCut limit) reasoning cut) :
    reasoningBytes cut ≤ reasoningBytes reasoning +
      ((cut.getD []).length - (reasoning.getD []).length) := by
  cases h with
  | none => exact Nat.zero_le _
  | some htext =>
    have hbytes := htext.bytes
    simp only [reasoningBytes, Option.elim_some, Option.getD_some, fieldBytes, Value.print]
    unfold stringBytes at hbytes
    omega

theorem MessageCut.bytes {message cut : ChatMessage}
    (h : MessageCut contentLimit reasoningLimit message cut) :
    chatMessageJsonBytes cut ≤ chatMessageJsonBytes message + growth message cut := by
  have hframe : frameBytes cut = frameBytes message := by
    simp only [frameBytes, messageFields, chatMessageJsonBytes, h.role, h.toolCalls,
      h.toolCallId]
  have hcontent := h.content.bytes
  have hreasoning := reasoningBytes_cut h.reasoning
  have hbefore := chatMessageJsonBytes_eq message
  have hafter := chatMessageJsonBytes_eq cut
  rw [hframe] at hafter
  unfold growth
  omega

theorem MessageCut.refl (contentLimit reasoningLimit : ℕ) (message : ChatMessage) :
    MessageCut contentLimit reasoningLimit message message := by
  refine ⟨rfl, rfl, rfl, .inl rfl, ?_⟩
  cases message.reasoningContent with
  | none => exact .none
  | some text => exact .some (.inl rfl)

/-! ### A list of messages -/

variable {messages : List ChatMessage}

theorem messagesJsonBytes_eq (h : messages ≠ []) :
    messagesJsonBytes messages = (messages.map fun m => chatMessageJsonBytes m + 1).sum + 1 := by
  have hopen : utf8Len ['['] = 1 := by decide
  have hclose : utf8Len [']'] = 1 := by decide
  have hitems : ∀ ms : List ChatMessage,
      Value.printItems (ms.map fun m => .object (messageFields m)) =
        ms.map fun m => Value.print (.object (messageFields m)) := by
    intro ms
    induction ms with
    | nil => rfl
    | cons m ms ih => rw [map_cons, Value.printItems, ih, map_cons]
  have hne : (messages.map fun m => Value.print (.object (messageFields m))) ≠ [] := by
    simpa using h
  have hjoin := join_bytes hne
  rw [map_map] at hjoin
  rw [messagesJsonBytes, Value.print, hitems, utf8Len_append, utf8Len_append, hopen, hclose,
    Nat.add_assoc 1, hjoin, Nat.add_comm]
  rfl

theorem messagesCut_bytes {messages cut : List ChatMessage}
    (h : List.Forall₂ (MessageCut contentLimit reasoningLimit) messages cut) :
    messagesJsonBytes cut ≤
      messagesJsonBytes messages + (zipWith growth messages cut).sum := by
  have hsum : (cut.map fun m => chatMessageJsonBytes m + 1).sum ≤
      (messages.map fun m => chatMessageJsonBytes m + 1).sum +
        (zipWith growth messages cut).sum := by
    induction h with
    | nil => exact Nat.zero_le _
    | cons hfirst _ ih =>
      have hbytes := hfirst.bytes
      simp only [map_cons, sum_cons, zipWith_cons_cons]
      omega
  cases h with
  | nil => exact Nat.le_add_right _ _
  | cons hfirst hrest =>
    rw [messagesJsonBytes_eq (cons_ne_nil _ _), messagesJsonBytes_eq (cons_ne_nil _ _)]
    omega

/-! ### The passes -/

/-- What a pass at the limit may do to a message: a system message is not touched. -/
structure ShrinkCut (limit : ℕ) (message cut : ChatMessage) : Prop
    extends MessageCut limit (min limit budgetReasoningChars) message cut where
  system : message.role = "system" → cut = message

theorem forceShrinkMessage_of_ne {message : ChatMessage} (h : message.role ≠ "system")
    (limit : ℕ) :
    forceShrinkMessage message limit =
      { message with
        content := truncateForBudget message.content limit
        reasoningContent := message.reasoningContent.map fun reasoning =>
          truncateForBudget reasoning (min limit budgetReasoningChars) } := by
  have hguard : ∀ (text : Text) (max : ℕ),
      (if max < text.length then truncateForBudget text max else text) =
        truncateForBudget text max := by
    intro text max
    split_ifs with hlong
    · rfl
    · exact (truncateForBudget_of_le (not_lt.mp hlong)).symm
  rw [forceShrinkMessage, if_neg h]
  simp only [hguard]

variable {limit later : ℕ}

theorem reasoningCut_truncate (h : Option.Rel (TextCut limit) reasoning cut) (hle : later ≤ limit) :
    Option.Rel (TextCut later) reasoning (cut.map fun text => truncateForBudget text later) := by
  cases h with
  | none => exact .none
  | some htext => exact .some (htext.truncate hle)

theorem forceShrinkMessage_cut {message cut : ChatMessage}
    (h : ShrinkCut limit message cut) (hle : later ≤ limit) :
    ShrinkCut later message (forceShrinkMessage cut later) := by
  by_cases hsystem : message.role = "system"
  · rw [h.system hsystem, forceShrinkMessage, if_pos hsystem]
    exact ⟨MessageCut.refl _ _ message, fun _ => rfl⟩
  · have hcut : cut.role ≠ "system" := fun heq => hsystem (h.role ▸ heq)
    rw [forceShrinkMessage_of_ne hcut]
    exact
      { system := fun heq => absurd heq hsystem
        role := h.role
        toolCalls := h.toolCalls
        toolCallId := h.toolCallId
        content := h.content.truncate hle
        reasoning := reasoningCut_truncate h.reasoning (by omega) }

/-- After any number of passes the messages are cut as by the last of them. -/
theorem shrinkLoop_cut (maxBytes : ℕ) {limit : ℕ} (result : ForceShrinkResult)
    (hlimits : (limit :: limits).Pairwise (· ≥ ·))
    (h : List.Forall₂ (ShrinkCut limit) messages result.messages) :
    ∃ last ∈ limit :: limits,
      List.Forall₂ (ShrinkCut last) messages (shrinkLoop maxBytes limits result).messages := by
  induction limits generalizing limit result with
  | nil => exact ⟨limit, mem_cons_self, h⟩
  | cons later limits ih =>
    rw [pairwise_cons] at hlimits
    have hnext : Forall₂ (ShrinkCut later) messages
        (result.messages.map fun message => forceShrinkMessage message later) := by
      rw [forall₂_map_right_iff]
      exact h.imp fun _ _ hcut => forceShrinkMessage_cut hcut (hlimits.1 later mem_cons_self)
    rw [shrinkLoop]
    split_ifs with hfits
    · exact ⟨later, by simp, hnext⟩
    · obtain ⟨last, hlast, hcut⟩ := ih ⟨_, result.passes + 1⟩ hlimits.2 hnext
      exact ⟨last, mem_cons_of_mem _ hlast, hcut⟩

theorem forceShrink_cut (messages : List ChatMessage) (maxBytes : ℕ) :
    ∃ limit ∈ forceShrinkContentLimits,
      List.Forall₂ (ShrinkCut limit) messages
        (forceShrinkMessagesToBudget messages maxBytes).messages := by
  have huncut : Forall₂ (ShrinkCut (32 * 1024)) messages messages :=
    forall₂_same.mpr fun m _ => ⟨MessageCut.refl _ _ m, fun _ => rfl⟩
  rw [forceShrinkMessagesToBudget]
  split_ifs with hfits
  · exact ⟨32 * 1024, by simp [forceShrinkContentLimits], huncut⟩
  · have hlimits : (32 * 1024 :: forceShrinkContentLimits).Pairwise (· ≥ ·) := by decide
    obtain ⟨last, hlast, hcut⟩ := shrinkLoop_cut maxBytes ⟨messages, 0⟩ hlimits huncut
    refine ⟨last, ?_, hcut⟩
    rcases mem_cons.mp hlast with rfl | hmem
    · simp [forceShrinkContentLimits]
    · exact hmem

/-- A loop that ends over the budget ends with the pass at the last limit. -/
theorem shrinkLoop_over {maxBytes : ℕ} {result : ForceShrinkResult} (hne : limits ≠ [])
    (hover : maxBytes < messagesJsonBytes (shrinkLoop maxBytes limits result).messages) :
    ∃ before : List ChatMessage, (shrinkLoop maxBytes limits result).messages =
      before.map fun message => forceShrinkMessage message (limits.getLast hne) := by
  induction limits generalizing result with
  | nil => exact absurd rfl hne
  | cons limit limits ih =>
    rw [shrinkLoop] at hover ⊢
    split_ifs at hover ⊢ with hfits
    · exact absurd hover (not_lt.mpr hfits)
    · cases limits with
      | nil => exact ⟨result.messages, rfl⟩
      | cons next limits => exact ih (cons_ne_nil _ _) hover

theorem forceShrink_over {maxBytes : ℕ} (hover : maxBytes <
      messagesJsonBytes (forceShrinkMessagesToBudget messages maxBytes).messages) :
    ∃ before : List ChatMessage, (forceShrinkMessagesToBudget messages maxBytes).messages =
      before.map fun message => forceShrinkMessage message 1024 := by
  rw [forceShrinkMessagesToBudget] at hover ⊢
  split_ifs at hover ⊢ with hfits
  · exact absurd hover (not_lt.mpr hfits)
  · exact shrinkLoop_over (cons_ne_nil _ _) hover

/-! ### A second application -/

/-- The text is kept; or it is a start of `limit` characters with a marker behind it, and the
start is kept. -/
def KeptButMarker (limit : ℕ) (text again : Text) : Prop :=
  again = text ∨ ∃ start counted, start.length = limit ∧
    text = start ++ truncationMarker counted ∧ start <+: again

theorem truncated_again {text again : Text} (hle : limit ≤ later)
    (h : TextCut later (truncateForBudget text limit) again) :
    KeptButMarker limit (truncateForBudget text limit) again := by
  rcases h with rfl | ⟨hlong, counted, rfl⟩
  · exact .inl rfl
  · rcases le_or_gt text.length limit with hshort | hcut
    · rw [truncateForBudget_of_le hshort] at hlong
      omega
    · right
      rw [truncateForBudget_of_lt hcut]
      refine ⟨text.take limit, text, ?_, rfl, ?_⟩
      · rw [length_take]
        omega
      · have hstart : (text.take limit).take later = text.take limit := by
          rw [take_take, min_eq_right hle]
        rw [take_append, hstart, append_assoc]
        exact prefix_append _ _

/-- The texts that were cut may change behind their start; all else is the same. -/
structure SameButMarkers (contentLimit reasoningLimit : ℕ) (message again : ChatMessage) :
    Prop where
  role : again.role = message.role
  toolCalls : again.toolCalls = message.toolCalls
  toolCallId : again.toolCallId = message.toolCallId
  content : KeptButMarker contentLimit message.content again.content
  reasoning :
    Option.Rel (KeptButMarker reasoningLimit) message.reasoningContent again.reasoningContent

theorem sameButMarkers_refl (contentLimit reasoningLimit : ℕ) (message : ChatMessage) :
    SameButMarkers contentLimit reasoningLimit message message := by
  refine ⟨rfl, rfl, rfl, .inl rfl, ?_⟩
  cases message.reasoningContent with
  | none => exact .none
  | some text => exact .some (.inl rfl)

theorem reasoning_again {reasoning again : Option Text} (hle : limit ≤ later)
    (h : Option.Rel (TextCut later) (reasoning.map fun text => truncateForBudget text limit)
      again) :
    Option.Rel (KeptButMarker limit) (reasoning.map fun text => truncateForBudget text limit)
      again := by
  cases reasoning with
  | none =>
    cases h with
    | none => exact .none
  | some text =>
    cases h with
    | some htext => exact .some (truncated_again hle htext)

theorem shrunk_again {message again : ChatMessage} (hle : limit ≤ later)
    (h : ShrinkCut later (forceShrinkMessage message limit) again) :
    SameButMarkers limit (min limit budgetReasoningChars) (forceShrinkMessage message limit)
      again := by
  by_cases hsystem : message.role = "system"
  · have hself : forceShrinkMessage message limit = message := if_pos hsystem
    rw [hself] at h ⊢
    rw [h.system hsystem]
    exact sameButMarkers_refl _ _ message
  · rw [forceShrinkMessage_of_ne hsystem] at h ⊢
    exact
      { role := h.role
        toolCalls := h.toolCalls
        toolCallId := h.toolCallId
        content := truncated_again hle h.content
        reasoning := reasoning_again (by omega) h.reasoning }

/-! ### Compacting -/

theorem textCut_truncate (limit : ℕ) :
    TextCut limit text (truncateForBudget text limit) :=
  TextCut.truncate (.inl rfl) le_rfl

def compactContentLimit (message : ChatMessage) : ℕ :=
  if message.role = "tool" then budgetToolContentChars else budgetMessageContentChars

/-- The message with its data URLs replaced, as it is before the cut. -/
def redactedMessage (message : ChatMessage) : ChatMessage :=
  { message with content := Redaction.redactInlineDataUrls message.content }

theorem compact_cut :
    MessageCut (compactContentLimit message) budgetReasoningChars (redactedMessage message)
      (compactMessageForBudget message) := by
  have hreasoning : Option.Rel (TextCut budgetReasoningChars) message.reasoningContent
      (message.reasoningContent.map fun text => truncateForBudget text budgetReasoningChars) := by
    cases message.reasoningContent with
    | none => exact .none
    | some text => exact .some (textCut_truncate text _)
  exact
    { role := rfl
      toolCalls := rfl
      toolCallId := rfl
      content := textCut_truncate _ _
      reasoning := hreasoning }

/-- A compacted message holds no data URL, so that the second redaction finds none. -/
theorem redacted_compacted :
    redactedMessage (compactMessageForBudget message) = compactMessageForBudget message := by
  have hclean : ¬ Redaction.dataMarker <:+: (compactMessageForBudget message).content :=
    Redaction.marker_not_in_truncated (Redaction.marker_not_in_redacted message.content) _
  rw [redactedMessage, Redaction.redactInlineDataUrls_of_not_infix hclean]

theorem compacted_again :
    SameButMarkers (compactContentLimit message) budgetReasoningChars
      (compactMessageForBudget message)
      (compactMessageForBudget (compactMessageForBudget message)) := by
  have hagain := compact_cut (compactMessageForBudget message)
  rw [redacted_compacted] at hagain
  exact
    { role := hagain.role
      toolCalls := hagain.toolCalls
      toolCallId := hagain.toolCallId
      content := truncated_again le_rfl hagain.content
      reasoning := reasoning_again le_rfl hagain.reasoning }

/-- Shrinking and compacting grow a message by no more than its cut texts gain in characters,
and a second application changes cut texts behind their start only. -/
theorem shrinking_growth_bounded (messages : List ChatMessage) (maxBytes : ℕ) :
    let once := (forceShrinkMessagesToBudget messages maxBytes).messages
    let twice := (forceShrinkMessagesToBudget once maxBytes).messages
    ((∃ limit ∈ forceShrinkContentLimits, Forall₂ (ShrinkCut limit) messages once) ∧
        messagesJsonBytes once ≤
          messagesJsonBytes messages + (zipWith growth messages once).sum ∧
        (messagesJsonBytes once ≤ maxBytes → twice = once) ∧
        Forall₂ (SameButMarkers 1024 1024) once twice) ∧
      ∀ message : ChatMessage,
        MessageCut (compactContentLimit message) budgetReasoningChars (redactedMessage message)
            (compactMessageForBudget message) ∧
          chatMessageJsonBytes (compactMessageForBudget message) ≤
            chatMessageJsonBytes (redactedMessage message) +
              growth (redactedMessage message) (compactMessageForBudget message) ∧
          SameButMarkers (compactContentLimit message) budgetReasoningChars
            (compactMessageForBudget message)
            (compactMessageForBudget (compactMessageForBudget message)) := by
  intro once twice
  obtain ⟨limit, hlimit, hcut⟩ := forceShrink_cut messages maxBytes
  have hfits : messagesJsonBytes once ≤ maxBytes → twice = once := by
    intro h
    show (forceShrinkMessagesToBudget once maxBytes).messages = once
    rw [forceShrinkMessagesToBudget, if_pos h]
  refine ⟨⟨⟨limit, hlimit, hcut⟩, messagesCut_bytes (hcut.imp fun _ _ h => h.toMessageCut),
    hfits, ?_⟩, fun message => ⟨compact_cut message, (compact_cut message).bytes,
      compacted_again message⟩⟩
  rcases le_or_gt (messagesJsonBytes once) maxBytes with hwithin | hover
  · rw [hfits hwithin]
    exact forall₂_same.mpr fun m _ => sameButMarkers_refl _ _ m
  · obtain ⟨before, honce⟩ := forceShrink_over hover
    obtain ⟨later, hlater, hagain⟩ := forceShrink_cut once maxBytes
    have hle : 1024 ≤ later := by
      have hall : ∀ l ∈ forceShrinkContentLimits, 1024 ≤ l := by decide
      exact hall later hlater
    change Forall₂ (ShrinkCut later) once twice at hagain
    generalize twice = again at hagain ⊢
    change once = before.map fun message => forceShrinkMessage message 1024 at honce
    rw [honce, forall₂_map_left_iff] at hagain ⊢
    exact hagain.imp fun _ _ h => shrunk_again hle h

/-- One character over the last limit. -/
def longMessage : ChatMessage := ChatMessage.text "user" (replicate 1025 'x')

/-- The marker is longer than the character it replaces, and it is cut again. -/
theorem longMessage_grows :
    messagesJsonBytes [longMessage] <
        messagesJsonBytes (forceShrinkMessagesToBudget [longMessage] 0).messages ∧
      (forceShrinkMessagesToBudget (forceShrinkMessagesToBudget [longMessage] 0).messages
          0).messages.map ChatMessage.content ≠
        (forceShrinkMessagesToBudget [longMessage] 0).messages.map ChatMessage.content := by
  decide +kernel

end CodeSeeX.Proxy.Budget
