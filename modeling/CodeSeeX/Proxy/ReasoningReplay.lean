import CodeSeeX.Proxy.ReasoningMirror
import CodeSeeX.Proxy.UpstreamPayload

/-!
# Reasoning to the client and back

The client gets a reasoning item with a summary that the proxy copied from its text; the
upstream boundary takes the copy out again. It is told from the provider's own summary
only by being a front part of the text.
-/
namespace CodeSeeX.Native
open Option List

variable {item : Value}

/-- The client's copy of one output item. -/
def presentReasoningItem (mode : ReasoningSummaryMode) (item : Value) : Value :=
  if itemType item ≠ some ("reasoning" : Text) then item
  else if !summaryEmpty (item.get "summary") then item
  else
    let projected := Summary.project (reasoningText item) mode
    if projected ≠ [] then item.set "summary" (.array [reasoningSummaryPart projected])
    else item

def presentReasoningSummaryInResponse (response : Value) (mode : Option ReasoningSummaryMode) :
    Value :=
  match mode, (response.get "output").bind Value.asArray with
  | some mode, some items => response.set "output" (.array (items.map (presentReasoningItem mode)))
  | _, _ => response

/-! ## Fields of an item -/

section Fields
variable {fields : List (Text × Value)} {field : Value}

theorem itemType_set_summary :
    itemType ((Value.object fields).set "summary" field) = itemType (.object fields) := by
  rw [itemType, Value.getStr, Value.get_set_ne (by decide)]
  rfl

theorem reasoningText_set_summary :
    reasoningText ((Value.object fields).set "summary" field) = reasoningText (.object fields) := by
  rw [reasoningText, Value.get_set_ne (by decide)]
  rfl

@[simp] theorem summaryText_set_summary {parts : List Value} :
    summaryText ((Value.object fields).set "summary" (.array parts)) =
      parts.flatMap summaryPartText := by
  simp [summaryText, Value.get_set_self, Value.asArray]

theorem summaryPartText_reasoningSummaryPart (text : Text) :
    summaryPartText (reasoningSummaryPart text) = text := by
  simp [summaryPartText, reasoningSummaryPart, Value.getStr, Value.get, Value.asStr]

theorem set_summary_set_summary {earlier : Value} :
    ((Value.object fields).set "summary" earlier).set "summary" field =
      (Value.object fields).set "summary" field := by
  simp [Value.set, Value.setIndex, Value.insertField_insertField]

end Fields

/-! ## Restoring twice -/

/-- Only an object has a type. -/
theorem exists_fields_of_itemType {kind : Text} (h : itemType item = some kind) :
    ∃ fields, item = .object fields := by
  cases item with
  | object fields => exact ⟨fields, rfl⟩
  | null => cases h
  | bool b => cases h
  | number n => cases h
  | string s => cases h
  | array items => cases h

/-- A reasoning item that has a text and no summary is left alone. -/
theorem restore_of_no_summary (hcontent : reasoningText item ≠ [])
    (hsummary : summaryText item = []) : restoreReasoningTextField item = item := by
  unfold restoreReasoningTextField
  simp [hcontent, hsummary, summaryIsMirrored]

theorem restore_restore (item : Value) :
    restoreReasoningTextField (restoreReasoningTextField item) = restoreReasoningTextField item := by
  by_cases htype : itemType item = some ("reasoning" : Text)
  · obtain ⟨fields, rfl⟩ := exists_fields_of_itemType htype
    by_cases hcontent : reasoningText (.object fields) = []
    · by_cases hsummary : summaryText (.object fields) = []
      · have hsame : restoreReasoningTextField (.object fields) = .object fields := by
          simp [restoreReasoningTextField, htype, hcontent, hsummary]
        rw [hsame, hsame]
      · have hmoved : restoreReasoningTextField (.object fields) =
            ((Value.object fields).set "content" (.array [.object
              [("text", .string (summaryText (.object fields))),
                ("type", .string "reasoning_text")]])).set "summary" (.array []) := by
          simp [restoreReasoningTextField, htype, hcontent, hsummary]
        rw [hmoved]
        apply restore_of_no_summary
        · simp only [Value.set, Value.setIndex, getD_some, reasoningText, Value.get,
            Value.lookup_insertField_ne (show ("content" : Text) ≠ "summary" by decide),
            Value.lookup_insertField_self]
          simpa [Value.asArray, Value.getStr, Value.get, Value.asStr, lookup_cons, summaryPartText]
            using hsummary
        · simp [Value.set, Value.setIndex, summaryText, Value.get, Value.asArray]
    · by_cases hmirrored : summaryIsMirrored (reasoningText (.object fields))
          (summaryText (.object fields)) = true
      · have hdropped : restoreReasoningTextField (.object fields) =
            (Value.object fields).set "summary" (.array []) := by
          simp [restoreReasoningTextField, htype, hcontent, hmirrored]
        rw [hdropped]
        apply restore_of_no_summary
        · rw [reasoningText_set_summary]
          exact hcontent
        · simp
      · have hsame : restoreReasoningTextField (.object fields) = .object fields := by
          simp [restoreReasoningTextField, htype, hcontent, hmirrored]
        rw [hsame, hsame]
  · have hsame : restoreReasoningTextField item = item := by
      simp [restoreReasoningTextField, htype]
    rw [hsame, hsame]

/-! ## Images -/

mutual
theorem omitInlineImages_ne :
    ∀ (value : Value) (budget : ImageBudget), 0 < budget.left → holdsReachableImage value = true →
      (omitInlineImages value budget).1 ≠ value
  | .array items, budget, hleft, h => by
      rw [holdsReachableImage] at h
      rw [omitInlineImages]
      intro heq
      exact omitItemImages_ne items budget hleft h (Value.array.inj heq)
  | .object fields, budget, hleft, h => by
      rw [omitInlineImages, if_pos hleft]
      cases houtput : dataImageChars (fields.lookup ("output" : Text)) with
      | some chars =>
        intro heq
        have hlookup := congrArg (fun v : Value => v.get "output") heq
        simp only [Value.get, Value.lookup_insertField_self] at hlookup
        rw [← hlookup] at houtput
        simp [dataImageChars, Value.asStr, omittedImageMarker, Text.startsWith, Text.lit] at houtput
      | none =>
        rw [holdsReachableImage, houtput, isSome_none, Bool.false_or] at h
        intro heq
        exact omitFieldImages_ne fields budget hleft h (Value.object.inj heq)
  | .null, _, _, h => by simp [holdsReachableImage] at h
  | .bool _, _, _, h => by simp [holdsReachableImage] at h
  | .number _, _, _, h => by simp [holdsReachableImage] at h
  | .string _, _, _, h => by simp [holdsReachableImage] at h

theorem omitItemImages_ne :
    ∀ (items : List Value) (budget : ImageBudget), 0 < budget.left → itemsHoldImage items = true →
      (omitItemImages items budget).1 ≠ items
  | [], _, _, h => by simp [itemsHoldImage] at h
  | item :: items, budget, hleft, h => by
      rw [omitItemImages, if_pos hleft]
      cases himage : inlineImageChars item with
      | some chars =>
        intro heq
        rw [← (cons.inj heq).1] at himage
        simp [inlineImageChars, Value.get, dataImageChars, lookup_cons] at himage
      | none =>
        by_cases hitem : holdsReachableImage item = true
        · intro heq
          exact omitInlineImages_ne item budget hleft hitem (cons.inj heq).1
        · have hitems : itemsHoldImage items = true := by
            simpa [itemsHoldImage, isReachableImage, himage, hitem] using h
          simp only [omitInlineImages_of_not_holds item budget (by simpa using hitem)]
          intro heq
          exact omitItemImages_ne items budget hleft hitems (cons.inj heq).2

theorem omitFieldImages_ne :
    ∀ (fields : List (Text × Value)) (budget : ImageBudget), 0 < budget.left →
      fieldsHoldImage fields = true → (omitFieldImages fields budget).1 ≠ fields
  | [], _, _, h => by simp [fieldsHoldImage] at h
  | (key, value) :: fields, budget, hleft, h => by
      rw [omitFieldImages]
      by_cases hvalue : holdsReachableImage value = true
      · intro heq
        exact omitInlineImages_ne value budget hleft hvalue
          (Prod.mk.inj (cons.inj heq).1).2
      · have hfields : fieldsHoldImage fields = true := by
          simpa [fieldsHoldImage, hvalue] using h
        simp only [omitInlineImages_of_not_holds value budget (by simpa using hvalue)]
        intro heq
        exact omitFieldImages_ne fields budget hleft hfields (cons.inj heq).2
end

theorem lookup_omitFieldImages {key : Text} (fields : List (Text × Value)) (budget : ImageBudget)
    (h : fields.lookup key = some (.array [])) :
    (omitFieldImages fields budget).1.lookup key = some (.array []) := by
  induction fields generalizing budget with
  | nil => simp at h
  | cons first fields ih =>
    obtain ⟨k, value⟩ := first
    rw [omitFieldImages]
    by_cases heq : key = k
    · subst heq
      obtain rfl : value = .array [] := by simpa using h
      simp [omitInlineImages, omitItemImages]
    · have hkey : (key == k) = false := beq_eq_false_iff_ne.mpr heq
      rw [lookup_cons, hkey] at h ⊢
      exact ih _ h

/-- An empty summary stays empty. -/
theorem get_summary_omitInlineImages (budget : ImageBudget)
    (h : item.get "summary" = some (.array [])) :
    (omitInlineImages item budget).1.get "summary" = some (.array []) := by
  cases item with
  | object fields =>
    rw [omitInlineImages]
    split
    · rw [Value.get, Value.lookup_insertField_ne (by decide)]
      exact h
    · exact lookup_omitFieldImages fields budget h
  | null => cases h
  | bool b => cases h
  | number n => cases h
  | string s => cases h
  | array items => cases h

/-- The images fit the budget of a replay, or the trimming cannot reach them. -/
def FitsReplay (item : Value) : Prop :=
  (visitInlineImageSizes item).sum ≤ maxInlineMediaChars ∨ holdsReachableImage item = false

instance (item : Value) : Decidable (FitsReplay item) := inferInstanceAs (Decidable (_ ∨ _))

theorem omittedCount_pos {sizes : List ℕ} (h : maxInlineMediaChars < sizes.sum) :
    0 < omittedCount sizes.sum sizes := by
  cases sizes with
  | nil => simp [maxInlineMediaChars] at h
  | cons size sizes =>
    rw [omittedCount, if_neg (by omega)]
    omega

theorem collectInlineImageSizes_singleton (item : Value) :
    collectInlineImageSizes [item] = visitInlineImageSizes item := by
  simp [collectInlineImageSizes]

theorem boundInlineMedia_singleton_iff (item : Value) :
    (boundInlineMedia [item]).1 = [item] ↔ FitsReplay item := by
  unfold boundInlineMedia FitsReplay
  rw [collectInlineImageSizes_singleton]
  by_cases htotal : (visitInlineImageSizes item).sum ≤ maxInlineMediaChars
  · simp [htotal]
  · have hleft := omittedCount_pos (Nat.lt_of_not_le htotal)
    cases hholds : holdsReachableImage item with
    | false => simp [htotal, omitFromItems, omitInlineImages_of_not_holds _ _ hholds]
    | true =>
      have hne := omitInlineImages_ne item
        { left := _, tally := { images := 0, chars := 0 } } hleft hholds
      simpa [htotal, omitFromItems] using hne

theorem boundInlineMedia_singleton_summary (h : item.get "summary" = some (.array [])) :
    ∃ bounded, (boundInlineMedia [item]).1 = [bounded] ∧
      bounded.get "summary" = some (.array []) := by
  unfold boundInlineMedia
  dsimp only
  split
  · exact ⟨item, rfl, h⟩
  · exact ⟨_, rfl, get_summary_omitInlineImages _ h⟩

/-! ## Round trips -/

/-- A reasoning item of the provider that carries a text; the fields of a JSON object are kept in
key order. -/
structure ReasoningItem where
  fields : List (Text × Value)
  sorted : (fields.map Prod.fst).Pairwise (· < ·)
  reasoning : itemType (.object fields) = some ("reasoning" : Text)
  thinks : reasoningText (.object fields) ≠ []

namespace ReasoningItem

def value (item : ReasoningItem) : Value := .object item.fields

/-- The summary that the proxy offers for the item. -/
def projection (item : ReasoningItem) (mode : Option ReasoningSummaryMode) : Text :=
  (mode.map (Summary.project (reasoningText item.value))).getD []

/-- The output that the client gets when the provider's output is this item. -/
def presented (item : ReasoningItem) (mode : Option ReasoningSummaryMode) : Option Value :=
  (presentReasoningSummaryInResponse (.object [("output", .array [item.value])]) mode).get "output"

/-- The client sends the output back and the provider gets its own item again; a boundary that is
passed twice does no more than one. -/
def Returns (item : ReasoningItem) (mode : Option ReasoningSummaryMode) : Prop :=
  ∃ shown, item.presented mode = some (.array [shown]) ∧
    (nativeUpstreamPayload (.object [("input", .array [shown])])).1.get "input" =
      some (.array [item.value]) ∧
    restoreReasoningTextField (restoreReasoningTextField shown) = restoreReasoningTextField shown

/-- A summary of the provider is not a front part of the text; without one, the item has an
empty list for it or there is nothing to mirror. -/
def KeepsSummary (item : ReasoningItem) (mode : Option ReasoningSummaryMode) : Prop :=
  if summaryEmpty (item.value.get "summary") then
    ((item.value.get "summary").bind Value.asArray).isSome ∨ item.projection mode = []
  else summaryIsMirrored (reasoningText item.value) (summaryText item.value) = false

variable (item : ReasoningItem) (mode : Option ReasoningSummaryMode)

/-- The client's copy: the item, with a summary if there is something to mirror. -/
def shown : Value :=
  if summaryEmpty (item.value.get "summary") ∧ item.projection mode ≠ [] then
    item.value.set "summary" (.array [reasoningSummaryPart (item.projection mode)])
  else item.value

theorem presented_eq : item.presented mode = some (.array [item.shown mode]) := by
  have htype : itemType item.value = some ("reasoning" : Text) := item.reasoning
  unfold presented presentReasoningSummaryInResponse
  cases mode with
  | none => simp [Value.get, shown, projection]
  | some mode =>
    have hitem : presentReasoningItem mode item.value = item.shown (some mode) := by
      unfold presentReasoningItem shown projection
      cases hempty : summaryEmpty (item.value.get "summary") with
      | false => simp [htype]
      | true => simp [htype]
    simp [Value.get, Value.asArray, Value.set, Value.setIndex, Value.insertField, hitem]

theorem itemType_shown : itemType (item.shown mode) = some ("reasoning" : Text) := by
  unfold shown
  split
  · rw [value, itemType_set_summary]
    exact item.reasoning
  · exact item.reasoning

/-- What the boundary makes of the client's copy, up to the trimming of images. -/
def restored : Value := restoreReasoningTextField (item.shown mode)

theorem restored_eq : item.restored mode =
    if summaryEmpty (item.value.get "summary") then
      if item.projection mode = [] then item.value else item.value.set "summary" (.array [])
    else if summaryIsMirrored (reasoningText item.value) (summaryText item.value) then
      item.value.set "summary" (.array [])
    else item.value := by
  have htype : itemType item.value = some ("reasoning" : Text) := item.reasoning
  have hthinks : reasoningText item.value ≠ [] := item.thinks
  unfold restored
  cases hempty : summaryEmpty (item.value.get "summary") with
  | false =>
    have hshown : item.shown mode = item.value := by simp [shown, hempty]
    rw [hshown, restoreReasoningTextField]
    simp [htype, hthinks]
  | true =>
    by_cases hnone : item.projection mode = []
    · have hshown : item.shown mode = item.value := by simp [shown, hnone]
      have hsummary : summaryText item.value = [] := by
        unfold summaryEmpty at hempty
        unfold summaryText
        cases hparts : (item.value.get "summary").bind Value.asArray with
        | none => rfl
        | some parts =>
          obtain rfl : parts = [] := by simpa [hparts] using hempty
          rfl
      rw [hshown, restore_of_no_summary hthinks hsummary]
      simp [hnone]
    · have hshown : item.shown mode =
          item.value.set "summary" (.array [reasoningSummaryPart (item.projection mode)]) := by
        simp [shown, hempty, hnone]
      have hfront : item.projection mode <+: reasoningText item.value := by
        cases mode with
        | none => exact nil_prefix
        | some mode => exact Summary.project_isPrefix _ _
      have hcontent : reasoningText (item.shown mode) = reasoningText item.value := by
        rw [hshown, value, reasoningText_set_summary]
      have hsummary : summaryText (item.shown mode) = item.projection mode := by
        rw [hshown, value, summaryText_set_summary]
        simp [summaryPartText_reasoningSummaryPart]
      have hmirrored : summaryIsMirrored (reasoningText item.value) (item.projection mode) = true := by
        simp [summaryIsMirrored, hnone, Text.startsWith, hfront]
      rw [restoreReasoningTextField]
      simp only [item.itemType_shown mode, ne_eq, not_true_eq_false, if_false, hcontent, hsummary,
        hthinks, hmirrored, if_true, hnone]
      rw [hshown, value, set_summary_set_summary]

theorem itemType_restored : itemType (item.restored mode) = some ("reasoning" : Text) := by
  have hset : itemType (item.value.set "summary" (.array [])) = some ("reasoning" : Text) := by
    rw [value, itemType_set_summary]
    exact item.reasoning
  rw [restored_eq]
  split
  · split
    · exact item.reasoning
    · exact hset
  · split
    · exact hset
    · exact item.reasoning

theorem upstream_eq :
    (nativeUpstreamPayload (.object [("input", .array [item.shown mode])])).1.get "input" =
      some (.array (boundInlineMedia [item.restored mode]).1) := by
  have hkept : isCodeseexPresentedWebSearchItem (item.shown mode) = false := by
    simp [isCodeseexPresentedWebSearchItem, itemType_shown]
  have hcall : isNativeToolCallItem (item.restored mode) = false := by
    simp [isNativeToolCallItem, itemType_restored]
  have hgroup : groupToolOutputsWithTheirCalls [item.restored mode] = [item.restored mode] := by
    simp [groupToolOutputsWithTheirCalls, groupToolOutputs, hcall]
  unfold nativeUpstreamPayload
  simp only [Value.get, lookup_cons, beq_self_eq_true, bind_some, Value.asArray,
    filter_cons, hkept, Bool.not_false, if_true, filter_nil, map_cons, map_nil]
  rw [← restored, hgroup]
  simp [Value.set, Value.setIndex, Value.insertField]

/-- The summary that is left is the empty list and not the item's own. -/
theorem summary_lost (h : ¬ item.KeepsSummary mode) :
    (item.restored mode).get "summary" = some (.array []) ∧
      item.value.get "summary" ≠ some (.array []) := by
  rw [restored_eq]
  unfold KeepsSummary at h
  cases hempty : summaryEmpty (item.value.get "summary") with
  | true =>
    rw [hempty, if_pos rfl, not_or] at h
    rw [if_pos rfl, if_neg h.2]
    refine ⟨by rw [value, Value.get_set_self], ?_⟩
    intro heq
    rw [heq] at h
    exact h.1 rfl
  | false =>
    rw [hempty, if_neg (by simp), Bool.not_eq_false] at h
    rw [if_neg (by simp), if_pos h]
    refine ⟨by rw [value, Value.get_set_self], ?_⟩
    intro heq
    rw [heq] at hempty
    cases hempty

theorem restored_of_keeps (h : item.KeepsSummary mode) : item.restored mode = item.value := by
  rw [restored_eq]
  unfold KeepsSummary at h
  cases hempty : summaryEmpty (item.value.get "summary") with
  | false =>
    rw [hempty, if_neg (by simp)] at h
    rw [if_neg (by simp), h, if_neg (by simp)]
  | true =>
    rw [hempty, if_pos rfl] at h
    rw [if_pos rfl]
    split
    · rfl
    · rename_i hsome
      have harray := h.resolve_right hsome
      have hsummary : item.value.get "summary" = some (.array []) := by
        unfold summaryEmpty at hempty
        cases hget : item.value.get "summary" with
        | none => simp [hget] at harray
        | some summary =>
          cases summary with
          | array parts =>
            obtain rfl : parts = [] := by simpa [hget, Value.asArray] using hempty
            rfl
          | null => simp [hget, Value.asArray] at harray
          | bool b => simp [hget, Value.asArray] at harray
          | number n => simp [hget, Value.asArray] at harray
          | string s => simp [hget, Value.asArray] at harray
          | object fields => simp [hget, Value.asArray] at harray
      rw [value, Value.set, Value.setIndex, getD_some,
        Value.insertField_of_lookup item.sorted hsummary]

/-- A summary that is not kept does not come back. -/
theorem not_returns_of_lost (h : ¬ item.KeepsSummary mode) : ¬ item.Returns mode := by
  rintro ⟨shown, hshown, hupstream, _⟩
  obtain rfl : item.shown mode = shown := by simpa [presented_eq] using hshown
  obtain ⟨hlost, hown⟩ := item.summary_lost mode h
  obtain ⟨bounded, hbounded, hsummary⟩ := boundInlineMedia_singleton_summary hlost
  rw [upstream_eq, hbounded] at hupstream
  obtain rfl : bounded = item.value := by simpa using hupstream
  exact hown hsummary

theorem returns_iff : item.Returns mode ↔ item.KeepsSummary mode ∧ FitsReplay item.value := by
  by_cases hkeeps : item.KeepsSummary mode
  · have hrestored := item.restored_of_keeps mode hkeeps
    rw [← boundInlineMedia_singleton_iff]
    constructor
    · rintro ⟨shown, hshown, hupstream, _⟩
      obtain rfl : item.shown mode = shown := by simpa [presented_eq] using hshown
      rw [upstream_eq, hrestored] at hupstream
      exact ⟨hkeeps, by simpa using hupstream⟩
    · rintro ⟨_, hbounded⟩
      refine ⟨item.shown mode, item.presented_eq mode, ?_, restore_restore _⟩
      rw [upstream_eq, hrestored, hbounded]
  · constructor
    · intro h
      exact absurd h (item.not_returns_of_lost mode hkeeps)
    · rintro ⟨h, _⟩
      exact absurd h hkeeps

/-- The provider opens its text with the summary that it wrote. -/
def openingSummary : ReasoningItem where
  fields := [
    ("content", .array [.object [("text", .string "Check the lock. Then run."),
      ("type", .string "reasoning_text")]]),
    ("id", .string "rs_1"),
    ("summary", .array [.object [("text", .string "Check the lock."),
      ("type", .string "summary_text")]]),
    ("type", .string "reasoning")]
  sorted := by decide
  reasoning := rfl
  thinks := by decide

theorem openingSummary_lost : ¬ openingSummary.Returns (some .full) := by
  apply not_returns_of_lost
  unfold KeepsSummary
  decide

end ReasoningItem
end CodeSeeX.Native
