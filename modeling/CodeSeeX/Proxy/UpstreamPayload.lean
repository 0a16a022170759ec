import CodeSeeX.Proxy.PendingGroups

/-!
# The upstream boundary of the native transport

What a native payload goes through before it is sent: presented searches are left out,
reasoning texts are put back, the outputs of a turn are moved behind its calls, and the
oldest inline images are trimmed to the media budget.
-/
namespace CodeSeeX.Native
open Option

/-- The provider never produced these items. -/
def isCodeseexPresentedWebSearchItem (item : Value) : Bool :=
  itemType item = some ("web_search_call" : Text) ∨
    itemType item = some ("web_search_call_output" : Text)

/-! ## Reasoning -/

def summaryPartText (part : Value) : Text := (part.getStr "text").getD []

def summaryText (item : Value) : Text :=
  (((item.get "summary").bind Value.asArray).map (·.flatMap summaryPartText)).getD []

/-- The text of the `reasoning_text` parts. -/
def reasoningText (item : Value) : Text :=
  (((item.get "content").bind Value.asArray).map fun parts =>
    (parts.filter fun part => part.getStr "type" = some ("reasoning_text" : Text)).flatMap
      summaryPartText).getD []

def summaryIsMirrored (content summary : Text) : Bool :=
  if summary = [] then false else content.startsWith summary

def restoreReasoningTextField (item : Value) : Value :=
  if itemType item ≠ some ("reasoning" : Text) then item
  else
    let summary := summaryText item
    let content := reasoningText item
    if content = [] then
      if summary = [] then item
      else (item.set "content" (.array [.object [("text", .string summary),
        ("type", .string "reasoning_text")]])).set "summary" (.array [])
    else if summaryIsMirrored content summary then item.set "summary" (.array [])
    else item

/-! ## Tool outputs -/

def isNativeToolCallItem (item : Value) : Bool :=
  itemType item = some ("function_call" : Text) ∨
    itemType item = some ("custom_tool_call" : Text)

def toolOutputSlot (item : Value) (callIds : List Text) : Option ℕ :=
  if !isToolOutput item then none
  else (callId item).bind fun id => callIds.findIdx? (· = id)

/-- What follows the calls of a turn: the output of each call, the messages, and all of it in
the order of the client. -/
structure ToolOutputWindow where
  outputs : List (Option Value)
  notices : List Value
  items : List Value

/-- The window ends at the next call and at anything that is neither an output of the turn nor a
message. -/
def toolOutputWindow (callIds : List Text) :
    ToolOutputWindow → List Value → ToolOutputWindow × List Value
  | window, [] => (window, [])
  | window, item :: items =>
      if isNativeToolCallItem item then (window, item :: items)
      else match toolOutputSlot item callIds with
        | some slot =>
            toolOutputWindow callIds
              { window with
                outputs := window.outputs.set slot (some item)
                items := window.items ++ [item] } items
        | none =>
            if itemType item = some ("message" : Text) then
              toolOutputWindow callIds
                { window with
                  notices := window.notices ++ [item]
                  items := window.items ++ [item] } items
            else (window, item :: items)

/-- Every round of the loop passes an item, so `fuel` items are enough. -/
def groupToolOutputs : ℕ → List Value → List Value
  | 0, items => items
  | _ + 1, [] => []
  | fuel + 1, item :: items =>
      if !isNativeToolCallItem item then item :: groupToolOutputs fuel items
      else
        let calls := (item :: items).takeWhile isNativeToolCallItem
        let rest := (item :: items).dropWhile isNativeToolCallItem
        let callIds := calls.filterMap callId
        if callIds = [] then calls ++ groupToolOutputs fuel rest
        else
          let (window, rest) := toolOutputWindow callIds
            { outputs := callIds.map fun _ => none, notices := [], items := [] } rest
          if window.notices = [] ∨ window.outputs.any isNone then
            calls ++ window.items ++ groupToolOutputs fuel rest
          else
            calls ++ window.outputs.filterMap id ++ window.notices ++ groupToolOutputs fuel rest

def groupToolOutputsWithTheirCalls (items : List Value) : List Value :=
  groupToolOutputs items.length items

/-! ## Inline images -/

def maxInlineMediaChars : ℕ := 6 * 1024 * 1024

structure InlineMediaOmission where
  images : ℕ
  chars : ℕ

/-- The length of a text that holds inline image data. -/
def dataImageChars (text : Option Value) : Option ℕ :=
  ((text.bind Value.asStr).filter (Text.startsWith · "data:image/")).map Text.utf8Len

def inlineImageChars (value : Value) : Option ℕ := dataImageChars (value.get "image_url")

def omittedImageMarker (chars : ℕ) : Text :=
  ("[inline image omitted by the local proxy: " : Text) ++ Text.ofNat chars ++
    (" characters of base64 image data were removed from this replay to stay within the upstream body limit]" : Text)

mutual
def visitInlineImageSizes : Value → List ℕ
  | .array items => collectInlineImageSizes items
  | .object fields =>
      (dataImageChars (fields.lookup ("image_url" : Text))).toList ++
        (dataImageChars (fields.lookup ("output" : Text))).toList ++ visitFieldImageSizes fields
  | _ => []

def collectInlineImageSizes : List Value → List ℕ
  | [] => []
  | item :: items => visitInlineImageSizes item ++ collectInlineImageSizes items

def visitFieldImageSizes : List (Text × Value) → List ℕ
  | [] => []
  | (_, value) :: fields => visitInlineImageSizes value ++ visitFieldImageSizes fields
end

/-- The images still to be omitted, and what has been omitted. -/
structure ImageBudget where
  left : ℕ
  tally : InlineMediaOmission

def ImageBudget.spend (budget : ImageBudget) (chars : ℕ) : ImageBudget where
  left := budget.left - 1
  tally := { images := budget.tally.images + 1, chars := budget.tally.chars + chars }

mutual
def omitInlineImages : Value → ImageBudget → Value × ImageBudget
  | .array items, budget =>
      let (items, budget) := omitItemImages items budget
      (.array items, budget)
  | .object fields, budget =>
      match (if 0 < budget.left then dataImageChars (fields.lookup ("output" : Text)) else none) with
      | some chars =>
          (.object (Value.insertField "output" (.string (omittedImageMarker chars)) fields),
            budget.spend chars)
      | none =>
          let (fields, budget) := omitFieldImages fields budget
          (.object fields, budget)
  | value, budget => (value, budget)

/-- The elements of an array: one that is an image itself becomes a marker. -/
def omitItemImages : List Value → ImageBudget → List Value × ImageBudget
  | [], budget => ([], budget)
  | item :: items, budget =>
      match (if 0 < budget.left then inlineImageChars item else none) with
      | some chars =>
          let (items, budget) := omitItemImages items (budget.spend chars)
          (.object [("text", .string (omittedImageMarker chars)),
            ("type", .string "input_text")] :: items, budget)
      | none =>
          let (item, budget) := omitInlineImages item budget
          let (items, budget) := omitItemImages items budget
          (item :: items, budget)

def omitFieldImages : List (Text × Value) → ImageBudget → List (Text × Value) × ImageBudget
  | [], budget => ([], budget)
  | (key, value) :: fields, budget =>
      let (value, budget) := omitInlineImages value budget
      let (fields, budget) := omitFieldImages fields budget
      ((key, value) :: fields, budget)
end

/-- How many of the first images go until the rest fits. -/
def omittedCount : ℕ → List ℕ → ℕ
  | _, [] => 0
  | kept, size :: sizes =>
      if kept ≤ maxInlineMediaChars then 0 else omittedCount (kept - size) sizes + 1

/-- The items one after the other; unlike an array's elements, an item is not itself an image. -/
def omitFromItems : List Value → ImageBudget → List Value × ImageBudget
  | [], budget => ([], budget)
  | item :: items, budget =>
      let (item, budget) := omitInlineImages item budget
      let (items, budget) := omitFromItems items budget
      (item :: items, budget)

def boundInlineMedia (items : List Value) : List Value × InlineMediaOmission :=
  let sizes := collectInlineImageSizes items
  let total := sizes.sum
  if total ≤ maxInlineMediaChars then (items, { images := 0, chars := 0 })
  else
    let (items, budget) := omitFromItems items
      { left := omittedCount total sizes, tally := { images := 0, chars := 0 } }
    (items, budget.tally)

def nativeUpstreamPayload (payload : Value) : Value × InlineMediaOmission :=
  match (payload.get "input").bind Value.asArray with
  | none => (payload, { images := 0, chars := 0 })
  | some items =>
      let items := items.filter fun item => ! isCodeseexPresentedWebSearchItem item
      let items := groupToolOutputsWithTheirCalls (items.map restoreReasoningTextField)
      let (items, omitted) := boundInlineMedia items
      (payload.set "input" (.array items), omitted)

/-- An image that the trimming can reach. -/
def isReachableImage (value : Value) : Bool := (inlineImageChars value).isSome

mutual
def holdsReachableImage : Value → Bool
  | .array items => itemsHoldImage items
  | .object fields => (dataImageChars (fields.lookup ("output" : Text))).isSome || fieldsHoldImage fields
  | _ => false

def itemsHoldImage : List Value → Bool
  | [] => false
  | item :: items => isReachableImage item || holdsReachableImage item || itemsHoldImage items

def fieldsHoldImage : List (Text × Value) → Bool
  | [] => false
  | (_, value) :: fields => holdsReachableImage value || fieldsHoldImage fields
end

/-! ## What is left alone -/

mutual
theorem omitInlineImages_of_not_holds :
    ∀ (value : Value) (budget : ImageBudget), holdsReachableImage value = false →
      omitInlineImages value budget = (value, budget)
  | .array items, budget, h => by
      rw [holdsReachableImage] at h
      rw [omitInlineImages, omitItemImages_of_not_holds items budget h]
  | .object fields, budget, h => by
      rw [holdsReachableImage, Bool.or_eq_false_iff, isSome_eq_false_iff,
        isNone_iff_eq_none] at h
      rw [omitInlineImages, h.1, ite_self]
      simp only [omitFieldImages_of_not_holds fields budget h.2]
  | .null, _, _ => by simp [omitInlineImages]
  | .bool _, _, _ => by simp [omitInlineImages]
  | .number _, _, _ => by simp [omitInlineImages]
  | .string _, _, _ => by simp [omitInlineImages]

theorem omitItemImages_of_not_holds :
    ∀ (items : List Value) (budget : ImageBudget), itemsHoldImage items = false →
      omitItemImages items budget = (items, budget)
  | [], _, _ => by rw [omitItemImages]
  | item :: items, budget, h => by
      rw [itemsHoldImage, Bool.or_eq_false_iff, Bool.or_eq_false_iff, isReachableImage,
        isSome_eq_false_iff, isNone_iff_eq_none] at h
      obtain ⟨⟨himage, hitem⟩, hitems⟩ := h
      rw [omitItemImages, himage, ite_self]
      simp only [omitInlineImages_of_not_holds item budget hitem,
        omitItemImages_of_not_holds items budget hitems]

theorem omitFieldImages_of_not_holds :
    ∀ (fields : List (Text × Value)) (budget : ImageBudget), fieldsHoldImage fields = false →
      omitFieldImages fields budget = (fields, budget)
  | [], _, _ => by rw [omitFieldImages]
  | (_, value) :: fields, budget, h => by
      rw [fieldsHoldImage, Bool.or_eq_false_iff] at h
      rw [omitFieldImages]
      simp only [omitInlineImages_of_not_holds value budget h.1,
        omitFieldImages_of_not_holds fields budget h.2]
end

end CodeSeeX.Native
