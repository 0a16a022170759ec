import CodeSeeX.General.Quota
import CodeSeeX.Proxy.UpstreamPayload

/-!
# The inline images of a replay

One walk counts the images of the items and another one omits the first of them. The second
omits an element of an array or the output of an object; the first counts every `image_url`.
-/
namespace CodeSeeX.Native
open Quota List Option Text

/-! ## The images and their places -/

inductive Step where
  | index (i : ℕ)
  | key (k : Text)
  deriving DecidableEq

variable (step : Step) (key : Text) {chars : ℕ} (items : List Value) (data : Text)

/-- An image and the way to the field that holds it. -/
structure InlineImage where
  path : List Step
  text : Text
  deriving DecidableEq

namespace InlineImage

def size (image : InlineImage) : ℕ := image.text.utf8Len

def under (step : Step) (image : InlineImage) : InlineImage :=
  { image with path := step :: image.path }

theorem size_under (image : InlineImage) : (image.under step).size = image.size := rfl

end InlineImage

/-- The image that the field itself is. -/
def ownImage (key : Text) (fields : List (Text × Value)) : List InlineImage :=
  ((((fields.lookup key).bind Value.asStr).filter (startsWith · "data:image/")).map
    fun text => { path := [Step.key key], text := text }).toList

mutual
/-- The images in the order in which they are counted. -/
def imagesIn : Value → List InlineImage
  | .array items => itemImages 0 items
  | .object fields => ownImage "image_url" fields ++ ownImage "output" fields ++ fieldImages fields
  | _ => []

def itemImages : ℕ → List Value → List InlineImage
  | _, [] => []
  | i, item :: items =>
      (imagesIn item).map (InlineImage.under (.index i)) ++ itemImages (i + 1) items

def fieldImages : List (Text × Value) → List InlineImage
  | [] => []
  | (key, value) :: fields =>
      (imagesIn value).map (InlineImage.under (.key key)) ++ fieldImages fields
end

/-- An element that is an image goes alone if it holds no other image. -/
def goesAlone (images : List InlineImage) : List Bool :=
  if images.length = 1 then [true] else replicate images.length false

mutual
/-- Of each image, whether the walk that omits images takes it, and takes it alone. -/
def removable : Value → List Bool
  | .array items => itemsRemovable items
  | .object fields =>
      replicate (ownImage "image_url" fields).length false ++
        if ownImage "output" fields = [] then fieldsRemovable fields
        else true :: replicate (fieldImages fields).length false
  | _ => []

def itemsRemovable : List Value → List Bool
  | [] => []
  | item :: items =>
      (if (inlineImageChars item).isSome then goesAlone (imagesIn item) else removable item) ++
        itemsRemovable items

def fieldsRemovable : List (Text × Value) → List Bool
  | [] => []
  | (_, value) :: fields => removable value ++ fieldsRemovable fields
end

/-! ## Counting -/

theorem ownImage_sizes (fields : List (Text × Value)) :
    (ownImage key fields).map InlineImage.size = (dataImageChars (fields.lookup key)).toList := by
  rw [ownImage, dataImageChars]
  cases ((fields.lookup key).bind Value.asStr).filter (startsWith · "data:image/") <;> rfl

theorem map_size_under (images : List InlineImage) :
    (images.map (InlineImage.under step)).map InlineImage.size = images.map InlineImage.size := by
  rw [List.map_map]
  exact map_congr_left fun image _ => image.size_under step

mutual
theorem imagesIn_sizes : ∀ value : Value,
    (imagesIn value).map InlineImage.size = visitInlineImageSizes value
  | .array items => by rw [imagesIn, visitInlineImageSizes, itemImages_sizes]
  | .object fields => by
      rw [imagesIn, visitInlineImageSizes, map_append, map_append, ownImage_sizes,
        ownImage_sizes, fieldImages_sizes]
  | .null => by simp [imagesIn, visitInlineImageSizes]
  | .bool _ => by simp [imagesIn, visitInlineImageSizes]
  | .number _ => by simp [imagesIn, visitInlineImageSizes]
  | .string _ => by simp [imagesIn, visitInlineImageSizes]

theorem itemImages_sizes : ∀ (i : ℕ) (items : List Value),
    (itemImages i items).map InlineImage.size = collectInlineImageSizes items
  | _, [] => by simp [itemImages, collectInlineImageSizes]
  | i, item :: items => by
      rw [itemImages, collectInlineImageSizes, map_append, map_size_under, imagesIn_sizes,
        itemImages_sizes]

theorem fieldImages_sizes : ∀ fields : List (Text × Value),
    (fieldImages fields).map InlineImage.size = visitFieldImageSizes fields
  | [] => by simp [fieldImages, visitFieldImageSizes]
  | (key, value) :: fields => by
      rw [fieldImages, visitFieldImageSizes, map_append, map_size_under, imagesIn_sizes,
        fieldImages_sizes]
end

theorem length_goesAlone (images : List InlineImage) : (goesAlone images).length = images.length := by
  rw [goesAlone]
  split_ifs with h
  · exact h.symm
  · exact length_replicate

theorem length_ownImage_le (fields : List (Text × Value)) :
    (ownImage key fields).length ≤ 1 := by
  rw [ownImage]
  cases ((fields.lookup key).bind Value.asStr).filter (startsWith · "data:image/") <;> simp

mutual
theorem length_removable : ∀ value : Value, (removable value).length = (imagesIn value).length
  | .array items => by rw [removable, imagesIn, length_itemsRemovable items 0]
  | .object fields => by
      have hone := length_ownImage_le "output" fields
      rw [removable, imagesIn, length_append, length_append, length_append,
        length_replicate, Nat.add_assoc]
      refine congrArg _ ?_
      split_ifs with hnone
      · rw [hnone, length_fieldsRemovable, length_nil, Nat.zero_add]
      · have hpos := length_pos_iff.mpr hnone
        rw [length_cons, length_replicate]
        omega
  | .null => by simp [imagesIn, removable]
  | .bool _ => by simp [imagesIn, removable]
  | .number _ => by simp [imagesIn, removable]
  | .string _ => by simp [imagesIn, removable]

theorem length_itemsRemovable : ∀ (items : List Value) (i : ℕ),
    (itemsRemovable items).length = (itemImages i items).length
  | [], _ => by simp [itemImages, itemsRemovable]
  | item :: items, i => by
      rw [itemsRemovable, itemImages, length_append, length_append, length_map,
        length_itemsRemovable items (i + 1)]
      split_ifs
      · rw [length_goesAlone]
      · rw [length_removable]

theorem length_fieldsRemovable : ∀ fields : List (Text × Value),
    (fieldsRemovable fields).length = (fieldImages fields).length
  | [] => by simp [fieldImages, fieldsRemovable]
  | (key, value) :: fields => by
      rw [fieldsRemovable, fieldImages, length_append, length_append, length_map,
        length_removable, length_fieldsRemovable]
end

/-! ## Omitting -/

/-- A walk that leaves `left` of the images, on the budget and its tally. -/
def Trimmed (images : List InlineImage) (flags : List Bool) (budget : ImageBudget)
    (left : List InlineImage) (after : ImageBudget) : Prop :=
  ∃ used total, Walk InlineImage.size images flags budget.left left used total ∧
    after = { left := budget.left - used
              tally := { images := budget.tally.images + used
                         chars := budget.tally.chars + total } }

section Trimmed
variable {images more left leftMore : List InlineImage} {flags flagsMore : List Bool}
  {budget between after : ImageBudget}

theorem Trimmed.passed (images : List InlineImage) (budget : ImageBudget) :
    Trimmed images (replicate images.length false) budget images budget :=
  ⟨0, 0, Walk.passed images budget.left, rfl⟩

theorem Trimmed.nil (budget : ImageBudget) : Trimmed [] [] budget [] budget :=
  Trimmed.passed [] budget

theorem Trimmed.alone (image : InlineImage) (h : 0 < budget.left) :
    Trimmed [image] [true] budget [] (budget.spend image.size) :=
  ⟨1, image.size, Walk.alone image h, rfl⟩

theorem Trimmed.append (h : Trimmed images flags budget left between)
    (hflags : flags.length = images.length)
    (hmore : Trimmed more flagsMore between leftMore after) :
    Trimmed (images ++ more) (flags ++ flagsMore) budget (left ++ leftMore) after := by
  obtain ⟨used, total, hwalk, rfl⟩ := h
  obtain ⟨usedMore, totalMore, hwalkMore, rfl⟩ := hmore
  refine ⟨used + usedMore, total + totalMore, hwalk.append hflags hwalkMore, ?_⟩
  simp only [Nat.sub_sub, Nat.add_assoc]

theorem Trimmed.under (h : Trimmed images flags budget left after) (step : Step) :
    Trimmed (images.map (InlineImage.under step)) flags budget
      (left.map (InlineImage.under step)) after := by
  obtain ⟨used, total, hwalk, hafter⟩ := h
  exact ⟨used, total, hwalk.map _ (InlineImage.size_under step), hafter⟩

/-- Without a budget the flags do not matter. -/
theorem Trimmed.of_zero (h : Trimmed images flags budget left after) (hzero : budget.left = 0)
    (other : List Bool) : Trimmed images other budget left after := by
  obtain ⟨used, total, hwalk, hafter⟩ := h
  rw [hzero] at hwalk
  refine ⟨used, total, ?_, hafter⟩
  rw [hzero]
  exact hwalk.of_zero

/-- An element that is an image goes, with all that it holds. -/
theorem Trimmed.element (h : 0 < budget.left) (hpos : 0 < images.length)
    (hchars : images.length = 1 → images.map InlineImage.size = [chars]) :
    Trimmed images (goesAlone images) budget [] (budget.spend chars) := by
  rw [goesAlone]
  split_ifs with hone
  · obtain ⟨image, rfl⟩ := length_eq_one_iff.mp hone
    obtain rfl : image.size = chars := by simpa using hchars hone
    exact Trimmed.alone image h
  · exact ⟨1, chars, Walk.together h (by omega), rfl⟩

end Trimmed

/-! ## The marker -/

theorem not_image_marker (chars : ℕ) :
    (omittedImageMarker chars).startsWith "data:image/" = false := by
  rfl

theorem imagesIn_marker (chars : ℕ) :
    imagesIn (.object [("text", .string (omittedImageMarker chars)),
      ("type", .string "input_text")]) = [] := by
  simp [imagesIn, fieldImages, ownImage, lookup_cons]

variable {fields : List (Text × Value)}

theorem fieldImages_insertField {key old new : Text} (h : fields.lookup key = some (.string old)) :
    fieldImages (Value.insertField key (.string new) fields) = fieldImages fields := by
  induction fields with
  | nil => exact absurd h (by simp)
  | cons field fields ih =>
    obtain ⟨k, v⟩ := field
    rw [Value.insertField]
    by_cases heq : k = key
    · subst heq
      obtain rfl : v = .string old := by simpa using h
      rw [if_pos rfl, fieldImages, fieldImages]
      simp [imagesIn]
    · rw [if_neg heq]
      by_cases hlt : key < k
      · rw [if_pos hlt, fieldImages]
        simp [imagesIn]
      · have hkey : (key == k) = false := beq_eq_false_iff_ne.mpr (Ne.symm heq)
        rw [lookup_cons, hkey] at h
        rw [if_neg hlt, fieldImages, fieldImages, ih h]

theorem ownImage_insertField_self (chars : ℕ) (fields : List (Text × Value)) :
    ownImage key (Value.insertField key (.string (omittedImageMarker chars)) fields) = [] := by
  rw [ownImage, Value.lookup_insertField_self]
  simp [Value.asStr, not_image_marker]

theorem ownImage_insertField_ne {key other : Text} (h : other ≠ key) (value : Value)
    (fields : List (Text × Value)) :
    ownImage other (Value.insertField key value fields) = ownImage other fields := by
  rw [ownImage, Value.lookup_insertField_ne h, ownImage]

/-! ## What the walk takes -/

theorem asStr_omitInlineImages (value : Value) (budget : ImageBudget) :
    (omitInlineImages value budget).1.asStr = value.asStr := by
  cases value with
  | array items => rw [omitInlineImages]; rfl
  | object fields =>
    rw [omitInlineImages]
    cases (if 0 < budget.left then dataImageChars (fields.lookup ("output" : Text)) else none) <;> rfl
  | null => simp [omitInlineImages]
  | bool b => simp [omitInlineImages]
  | number n => simp [omitInlineImages]
  | string s => simp [omitInlineImages]

theorem ownImage_omitFieldImages (fields : List (Text × Value)) (budget : ImageBudget) :
    ownImage key (omitFieldImages fields budget).1 = ownImage key fields := by
  have hlookup : ((omitFieldImages fields budget).1.lookup key).bind Value.asStr =
      (fields.lookup key).bind Value.asStr := by
    induction fields generalizing budget with
    | nil => simp [omitFieldImages]
    | cons field fields ih =>
      obtain ⟨k, v⟩ := field
      show (((k, (omitInlineImages v budget).1) :: _).lookup key).bind Value.asStr = _
      rw [lookup_cons, lookup_cons]
      cases key == k with
      | true => exact asStr_omitInlineImages v budget
      | false => exact ih _
  rw [ownImage, hlookup, ownImage]

theorem exists_ownImage {key : Text} (h : dataImageChars (fields.lookup key) = some chars) :
    ∃ text, fields.lookup key = some (.string text) ∧
      ownImage key fields = [{ path := [.key key], text := text }] ∧ text.utf8Len = chars := by
  rw [dataImageChars, map_eq_some_iff] at h
  obtain ⟨text, htext, hchars⟩ := h
  refine ⟨text, ?_, ?_, hchars⟩
  · obtain ⟨hstr, -⟩ := filter_eq_some_iff.mp htext
    obtain ⟨value, hvalue, hasStr⟩ := bind_eq_some_iff.mp hstr
    cases value with
    | string s =>
      obtain rfl : s = text := by simpa [Value.asStr] using hasStr
      exact hvalue
    | _ => exact absurd hasStr (by simp [Value.asStr])
  · rw [ownImage, htext]
    rfl

theorem ownImage_eq_nil {key : Text}
    (h : dataImageChars (fields.lookup key) = none) : ownImage key fields = [] := by
  rw [dataImageChars, map_eq_none_iff] at h
  rw [ownImage, h]
  rfl

/-- An element that is an image holds it, and no other if it holds only one. -/
theorem imagesIn_element {item : Value} (h : inlineImageChars item = some chars) :
    0 < (imagesIn item).length ∧
      ((imagesIn item).length = 1 → (imagesIn item).map InlineImage.size = [chars]) := by
  cases item with
  | object fields =>
    obtain ⟨text, -, hown, hchars⟩ := exists_ownImage h
    rw [imagesIn, hown]
    refine ⟨Nat.succ_pos _, fun hone => ?_⟩
    have hrest : ownImage "output" fields ++ fieldImages fields = [] := by
      refine length_eq_zero_iff.mp ?_
      rw [append_assoc, singleton_append, length_cons] at hone
      omega
    rw [append_assoc, hrest]
    simp [InlineImage.size, hchars]
  | _ => exact absurd h (by simp [inlineImageChars, dataImageChars, Value.get])

/-- An output that is an image goes alone, and what is behind it in the object is not looked at. -/
theorem trimmed_output {budget : ImageBudget} {chars : ℕ}
    (hleft : 0 < budget.left) (h : dataImageChars (fields.lookup ("output" : Text)) = some chars) :
    Trimmed (imagesIn (.object fields)) (removable (.object fields)) budget
      (imagesIn (.object (Value.insertField "output" (.string (omittedImageMarker chars)) fields)))
      (budget.spend chars) := by
  obtain ⟨text, hlookup, hown, hchars⟩ := exists_ownImage h
  have hne : (lit "image_url") ≠ lit "output" := by simp
  have hflags : removable (.object fields) =
      replicate (ownImage "image_url" fields).length false ++ [true] ++
        replicate (fieldImages fields).length false := by
    rw [removable, hown, if_neg (cons_ne_nil _ _), append_assoc, singleton_append]
  rw [hflags, imagesIn, imagesIn, ownImage_insertField_self, ownImage_insertField_ne hne,
    fieldImages_insertField hlookup, hown]
  have hfirst := (Trimmed.passed (ownImage "image_url" fields) budget).append
    length_replicate (Trimmed.alone { path := [.key "output"], text := text } hleft)
  rw [InlineImage.size, hchars] at hfirst
  refine hfirst.append ?_ (Trimmed.passed _ _)
  rw [length_append, length_append, length_replicate]
  rfl

/-- An object whose output stays is looked through. -/
theorem trimmed_object {budget : ImageBudget}
    (hnone : 0 < budget.left → dataImageChars (fields.lookup ("output" : Text)) = none)
    (hfields : Trimmed (fieldImages fields) (fieldsRemovable fields) budget
      (fieldImages (omitFieldImages fields budget).1) (omitFieldImages fields budget).2) :
    Trimmed (imagesIn (.object fields)) (removable (.object fields)) budget
      (imagesIn (.object (omitFieldImages fields budget).1)) (omitFieldImages fields budget).2 := by
  have hall := (Trimmed.passed (ownImage "image_url" fields ++ ownImage "output" fields)
    budget).append length_replicate hfields
  rw [imagesIn, imagesIn, ownImage_omitFieldImages, ownImage_omitFieldImages]
  by_cases hleft : 0 < budget.left
  · have hown := ownImage_eq_nil (hnone hleft)
    rw [hown, append_nil] at hall ⊢
    rw [removable, if_pos hown]
    exact hall
  · exact hall.of_zero (Nat.eq_zero_of_not_pos hleft) _

mutual
theorem trimmed_value : ∀ (value : Value) (budget : ImageBudget),
    Trimmed (imagesIn value) (removable value) budget
      (imagesIn (omitInlineImages value budget).1) (omitInlineImages value budget).2
  | .array items, budget => by
      rw [omitInlineImages, imagesIn, removable]
      exact trimmed_items items 0 budget
  | .object fields, budget => by
      rw [omitInlineImages]
      by_cases hleft : 0 < budget.left
      · rw [if_pos hleft]
        cases hout : dataImageChars (fields.lookup ("output" : Text)) with
        | some chars => exact trimmed_output hleft hout
        | none => exact trimmed_object (fun _ => hout) (trimmed_fields fields budget)
      · rw [if_neg hleft]
        exact trimmed_object (fun h => absurd h hleft) (trimmed_fields fields budget)
  | .null, budget => by
      rw [omitInlineImages] <;> simp [imagesIn, removable, Trimmed.nil]
  | .bool _, budget => by
      rw [omitInlineImages] <;> simp [imagesIn, removable, Trimmed.nil]
  | .number _, budget => by
      rw [omitInlineImages] <;> simp [imagesIn, removable, Trimmed.nil]
  | .string _, budget => by
      rw [omitInlineImages] <;> simp [imagesIn, removable, Trimmed.nil]

theorem trimmed_items : ∀ (items : List Value) (i : ℕ) (budget : ImageBudget),
    Trimmed (itemImages i items) (itemsRemovable items) budget
      (itemImages i (omitItemImages items budget).1) (omitItemImages items budget).2
  | [], i, budget => by
      rw [omitItemImages, itemImages, itemsRemovable]
      exact Trimmed.nil budget
  | item :: items, i, budget => by
      rw [omitItemImages, itemsRemovable]
      have hvalue := (trimmed_value item budget).under (.index i)
      have hlength : (removable item).length =
          ((imagesIn item).map (InlineImage.under (.index i))).length := by
        rw [length_map, length_removable]
      by_cases hleft : 0 < budget.left
      · rw [if_pos hleft]
        cases himage : inlineImageChars item with
        | some chars =>
          obtain ⟨hpos, hchars⟩ := imagesIn_element himage
          have hitem := (Trimmed.element hleft hpos hchars).under (.index i)
          have hgoes : (goesAlone (imagesIn item)).length =
              ((imagesIn item).map (InlineImage.under (.index i))).length := by
            rw [length_map, length_goesAlone]
          have hall := hitem.append hgoes (trimmed_items items (i + 1) (budget.spend chars))
          simp only [itemImages, imagesIn_marker, isSome_some, if_true]
          exact hall
        | none =>
          simp only [itemImages, isSome_none, Bool.false_eq_true, if_false]
          exact hvalue.append hlength (trimmed_items items (i + 1) _)
      · rw [if_neg hleft]
        simp only [itemImages]
        exact (hvalue.append hlength (trimmed_items items (i + 1) _)).of_zero
          (Nat.eq_zero_of_not_pos hleft) _

theorem trimmed_fields : ∀ (fields : List (Text × Value)) (budget : ImageBudget),
    Trimmed (fieldImages fields) (fieldsRemovable fields) budget
      (fieldImages (omitFieldImages fields budget).1) (omitFieldImages fields budget).2
  | [], budget => by
      rw [omitFieldImages, fieldImages, fieldsRemovable]
      exact Trimmed.nil budget
  | (key, value) :: fields, budget => by
      rw [omitFieldImages, fieldsRemovable]
      simp only [fieldImages]
      refine ((trimmed_value value budget).under _).append ?_ (trimmed_fields fields _)
      rw [length_map, length_removable]
end

/-- Of an item's images, those that go alone; an item is not itself an element. -/
def topRemovable (items : List Value) : List Bool := items.flatMap removable

theorem trimmed_from (i : ℕ) (budget : ImageBudget) :
    Trimmed (itemImages i items) (topRemovable items) budget
      (itemImages i (omitFromItems items budget).1) (omitFromItems items budget).2 := by
  induction items generalizing i budget with
  | nil =>
    exact Trimmed.nil budget
  | cons item items ih =>
    refine ((trimmed_value item budget).under _).append ?_ (ih (i + 1) _)
    rw [length_map, length_removable]

/-! ## Places are told apart -/

mutual
/-- The keys of every object are distinct, as those of a map are. -/
def distinctKeys : Value → Prop
  | .array items => itemsDistinct items
  | .object fields => (fields.map Prod.fst).Nodup ∧ fieldsDistinct fields
  | _ => True

def itemsDistinct : List Value → Prop
  | [] => True
  | item :: items => distinctKeys item ∧ itemsDistinct items

def fieldsDistinct : List (Text × Value) → Prop
  | [] => True
  | (_, value) :: fields => distinctKeys value ∧ fieldsDistinct fields
end

theorem under_injective : Function.Injective (InlineImage.under step) := by
  intro image other h
  obtain ⟨path, text⟩ := image
  obtain ⟨otherPath, otherText⟩ := other
  simpa [InlineImage.under] using h

variable {image : InlineImage}

theorem path_of_mem_own {key : Text}
    (h : image ∈ ownImage key fields) : image.path = [.key key] := by
  rw [ownImage, mem_toList, map_eq_some_iff] at h
  obtain ⟨text, -, rfl⟩ := h
  rfl

theorem ownImage_nodup (fields : List (Text × Value)) : (ownImage key fields).Nodup := by
  rw [ownImage]
  cases ((fields.lookup key).bind Value.asStr).filter (startsWith · "data:image/") <;> simp

theorem exists_index_of_mem {items : List Value} {start : ℕ}
    (h : image ∈ itemImages start items) : ∃ i path, start ≤ i ∧ image.path = .index i :: path := by
  induction items generalizing start with
  | nil =>
    exact absurd h not_mem_nil
  | cons item items ih =>
    rw [itemImages, mem_append] at h
    cases h with
    | inl h =>
      obtain ⟨inner, -, rfl⟩ := mem_map.mp h
      exact ⟨start, inner.path, Nat.le_refl _, rfl⟩
    | inr h =>
      obtain ⟨i, path, hi, hpath⟩ := ih h
      exact ⟨i, path, Nat.le_of_succ_le hi, hpath⟩

theorem path_ne_nil {value : Value} (h : image ∈ imagesIn value) : image.path ≠ [] := by
  cases value with
  | array items =>
    obtain ⟨i, path, -, hpath⟩ := exists_index_of_mem h
    rw [hpath]
    exact cons_ne_nil _ _
  | object fields =>
    rw [imagesIn, mem_append, mem_append] at h
    rcases h with (h | h) | h
    · rw [path_of_mem_own h]
      exact cons_ne_nil _ _
    · rw [path_of_mem_own h]
      exact cons_ne_nil _ _
    · induction fields with
      | nil =>
        exact absurd h not_mem_nil
      | cons field fields ih =>
        rw [fieldImages, mem_append] at h
        cases h with
        | inl h =>
          obtain ⟨inner, -, rfl⟩ := mem_map.mp h
          exact cons_ne_nil _ _
        | inr h => exact ih h
  | _ => exact absurd h (by simp [imagesIn])

/-- The image of a field lies at least two steps in. -/
theorem exists_key_of_mem (h : image ∈ fieldImages fields) :
    ∃ key path, key ∈ fields.map Prod.fst ∧ image.path = .key key :: path ∧ path ≠ [] := by
  induction fields with
  | nil =>
    exact absurd h not_mem_nil
  | cons field fields ih =>
    rw [fieldImages, mem_append] at h
    cases h with
    | inl h =>
      obtain ⟨inner, hinner, rfl⟩ := mem_map.mp h
      exact ⟨field.1, inner.path, mem_cons_self, rfl, path_ne_nil hinner⟩
    | inr h =>
      obtain ⟨key, path, hkey, hpath, hne⟩ := ih h
      exact ⟨key, path, mem_cons_of_mem _ hkey, hpath, hne⟩

mutual
theorem imagesIn_nodup : ∀ value : Value, distinctKeys value → (imagesIn value).Nodup
  | .array items, h => by
      rw [distinctKeys] at h
      rw [imagesIn]
      exact itemImages_nodup items 0 h
  | .object fields, h => by
      rw [distinctKeys] at h
      rw [imagesIn]
      refine Nodup.append (Nodup.append (ownImage_nodup _ _) (ownImage_nodup _ _) ?_)
        (fieldImages_nodup fields h.1 h.2) ?_
      · intro image himage hother
        have := (path_of_mem_own himage).symm.trans (path_of_mem_own hother)
        simp at this
      · intro image himage hother
        obtain ⟨key, path, -, hpath, hne⟩ := exists_key_of_mem hother
        have hown : ∃ k, image.path = [.key k] := by
          cases mem_append.mp himage with
          | inl h => exact ⟨_, path_of_mem_own h⟩
          | inr h => exact ⟨_, path_of_mem_own h⟩
        obtain ⟨k, hk⟩ := hown
        rw [hk, cons.injEq] at hpath
        exact hne hpath.2.symm
  | .null, _ => by simp [imagesIn]
  | .bool _, _ => by simp [imagesIn]
  | .number _, _ => by simp [imagesIn]
  | .string _, _ => by simp [imagesIn]

theorem itemImages_nodup : ∀ (items : List Value) (i : ℕ), itemsDistinct items →
    (itemImages i items).Nodup
  | [], _, _ => by simp [itemImages]
  | item :: items, i, h => by
      rw [itemsDistinct] at h
      rw [itemImages]
      refine Nodup.append ((imagesIn_nodup item h.1).map (under_injective _))
        (itemImages_nodup items (i + 1) h.2) ?_
      intro image himage hother
      obtain ⟨inner, -, rfl⟩ := mem_map.mp himage
      obtain ⟨j, path, hj, hpath⟩ := exists_index_of_mem hother
      have hindex : i = j := by
        have := (cons.inj hpath).1
        exact Step.index.inj this
      omega

theorem fieldImages_nodup : ∀ fields : List (Text × Value), (fields.map Prod.fst).Nodup →
    fieldsDistinct fields → (fieldImages fields).Nodup
  | [], _, _ => by simp [fieldImages]
  | (key, value) :: fields, hkeys, h => by
      rw [fieldsDistinct] at h
      rw [map_cons, nodup_cons] at hkeys
      rw [fieldImages]
      refine Nodup.append ((imagesIn_nodup value h.1).map (under_injective _))
        (fieldImages_nodup fields hkeys.2 h.2) ?_
      intro image himage hother
      obtain ⟨inner, -, rfl⟩ := mem_map.mp himage
      obtain ⟨other, path, hmem, hpath, -⟩ := exists_key_of_mem hother
      have hkey : key = other := by
        have := (cons.inj hpath).1
        exact Step.key.inj this
      exact hkeys.1 (hkey ▸ hmem)
end

/-! ## What stays -/

/-- Nothing changes but that elements and outputs that are images give way to their markers. -/
inductive Retouched : Value → Value → Prop
  | same (value : Value) : Retouched value value
  | element {item : Value} {chars : ℕ} : inlineImageChars item = some chars →
      Retouched item (.object [("text", .string (omittedImageMarker chars)),
        ("type", .string "input_text")])
  | output {fields : List (Text × Value)} {chars : ℕ} :
      dataImageChars (fields.lookup ("output" : Text)) = some chars →
      Retouched (.object fields)
        (.object (Value.insertField "output" (.string (omittedImageMarker chars)) fields))
  | array {items sent : List Value} : List.Forall₂ Retouched items sent →
      Retouched (.array items) (.array sent)
  | object {fields sent : List (Text × Value)} : fields.map Prod.fst = sent.map Prod.fst →
      List.Forall₂ Retouched (fields.map Prod.snd) (sent.map Prod.snd) →
      Retouched (.object fields) (.object sent)

mutual
theorem retouched_value : ∀ (value : Value) (budget : ImageBudget),
    Retouched value (omitInlineImages value budget).1
  | .array items, budget => by
      rw [omitInlineImages]
      exact Retouched.array (retouched_items items budget)
  | .object fields, budget => by
      rw [omitInlineImages]
      cases hout : (if 0 < budget.left then dataImageChars (fields.lookup ("output" : Text)) else none) with
      | some chars =>
        by_cases hleft : 0 < budget.left
        · rw [if_pos hleft] at hout
          exact Retouched.output hout
        · rw [if_neg hleft] at hout
          exact absurd hout (by simp)
      | none =>
        obtain ⟨hkeys, hvalues⟩ := retouched_fields fields budget
        exact Retouched.object hkeys hvalues
  | .null, budget => by
      rw [omitInlineImages] <;> simp [Retouched.same]
  | .bool _, budget => by
      rw [omitInlineImages] <;> simp [Retouched.same]
  | .number _, budget => by
      rw [omitInlineImages] <;> simp [Retouched.same]
  | .string _, budget => by
      rw [omitInlineImages] <;> simp [Retouched.same]

theorem retouched_items : ∀ (items : List Value) (budget : ImageBudget),
    List.Forall₂ Retouched items (omitItemImages items budget).1
  | [], budget => by
      rw [omitItemImages]
      exact Forall₂.nil
  | item :: items, budget => by
      rw [omitItemImages]
      cases himage : (if 0 < budget.left then inlineImageChars item else none) with
      | some chars =>
        by_cases hleft : 0 < budget.left
        · rw [if_pos hleft] at himage
          exact Forall₂.cons (Retouched.element himage) (retouched_items items _)
        · rw [if_neg hleft] at himage
          exact absurd himage (by simp)
      | none => exact Forall₂.cons (retouched_value item budget) (retouched_items items _)

theorem retouched_fields : ∀ (fields : List (Text × Value)) (budget : ImageBudget),
    fields.map Prod.fst = (omitFieldImages fields budget).1.map Prod.fst ∧
      List.Forall₂ Retouched (fields.map Prod.snd) ((omitFieldImages fields budget).1.map Prod.snd)
  | [], budget => by
      rw [omitFieldImages]
      exact ⟨rfl, Forall₂.nil⟩
  | (key, value) :: fields, budget => by
      rw [omitFieldImages]
      obtain ⟨hkeys, hvalues⟩ := retouched_fields fields (omitInlineImages value budget).2
      exact ⟨congrArg (key :: ·) hkeys, Forall₂.cons (retouched_value value budget) hvalues⟩
end

theorem retouched_from (budget : ImageBudget) :
    List.Forall₂ Retouched items (omitFromItems items budget).1 := by
  induction items generalizing budget with
  | nil =>
    exact Forall₂.nil
  | cons item items ih =>
    exact Forall₂.cons (retouched_value item budget) (ih _)

/-! ## The shortest beginning -/

/-- Without its first `n` sizes the list fits, and not without fewer of them. -/
def ShortestPrefix (sizes : List ℕ) (n : ℕ) : Prop :=
  (sizes.drop n).sum ≤ maxInlineMediaChars ∧ ∀ m < n, maxInlineMediaChars < (sizes.drop m).sum

theorem ShortestPrefix.eq {sizes : List ℕ} {n m : ℕ} (hn : ShortestPrefix sizes n)
    (hm : ShortestPrefix sizes m) : n = m := by
  by_contra hne
  cases Nat.lt_or_gt_of_ne hne with
  | inl hlt => exact Nat.not_lt.mpr hn.1 (hm.2 n hlt)
  | inr hlt => exact Nat.not_lt.mpr hm.1 (hn.2 m hlt)

theorem shortestPrefix_omittedCount (sizes : List ℕ) :
    ShortestPrefix sizes (omittedCount sizes.sum sizes) := by
  induction sizes with
  | nil => exact ⟨Nat.zero_le _, nofun⟩
  | cons size sizes ih =>
    rw [omittedCount]
    split_ifs with hfits
    · exact ⟨hfits, nofun⟩
    · have hsum : (size :: sizes).sum - size = sizes.sum := by
        rw [sum_cons, Nat.add_sub_cancel_left]
      rw [hsum]
      refine ⟨ih.1, fun m hm => ?_⟩
      cases m with
      | zero => exact Nat.lt_of_not_le hfits
      | succ m => exact ih.2 m (Nat.lt_of_succ_lt_succ hm)

theorem omittedCount_le (kept : ℕ) (sizes : List ℕ) : omittedCount kept sizes ≤ sizes.length := by
  induction sizes generalizing kept with
  | nil => exact Nat.le_refl _
  | cons size sizes ih =>
    rw [omittedCount]
    split_ifs
    · exact Nat.zero_le _
    · exact Nat.succ_le_succ (ih _)

/-! ## The bound -/

/-- The replay fits, the first images and only these are gone, and the tally counts them. -/
structure BoundsMedia (items sent : List Value) (omitted : InlineMediaOmission) (n : ℕ) : Prop where
  bound : (collectInlineImageSizes sent).sum ≤ maxInlineMediaChars
  images : itemImages 0 sent = (itemImages 0 items).drop n
  rest : List.Forall₂ Retouched items sent
  tallyImages : omitted.images = n
  tallyChars : omitted.chars = ((collectInlineImageSizes items).take n).sum

/-- The images that have to go are all such as go alone. -/
def FirstGoAlone (items : List Value) : Prop :=
  ∀ n, ShortestPrefix (collectInlineImageSizes items) n → Clear n (topRemovable items)

theorem forall₂_retouched_same : List.Forall₂ Retouched items items :=
  forall₂_same.mpr fun value _ => Retouched.same value

/-- The media are bounded as they should be exactly if the first images go alone. -/
theorem boundInlineMedia_iff (items : List Value) (h : itemsDistinct items) :
    (∃ n, ShortestPrefix (collectInlineImageSizes items) n ∧
      BoundsMedia items (boundInlineMedia items).1 (boundInlineMedia items).2 n) ↔
      FirstGoAlone items := by
  let sizes := collectInlineImageSizes items
  have hshortest : ShortestPrefix sizes (omittedCount sizes.sum sizes) :=
    shortestPrefix_omittedCount sizes
  by_cases hfits : sizes.sum ≤ maxInlineMediaChars
  · have hzero : ShortestPrefix sizes 0 := ⟨hfits, nofun⟩
    have hsent : boundInlineMedia items = (items, { images := 0, chars := 0 }) := by
      exact if_pos hfits
    refine iff_of_true ⟨0, hzero, ?_⟩ fun n hn => ?_
    · rw [hsent]
      exact
        { bound := hfits
          images := rfl
          rest := forall₂_retouched_same items
          tallyImages := rfl
          tallyChars := rfl }
    · obtain rfl := hn.eq hzero
      exact clear_zero _
  · let n := omittedCount sizes.sum sizes
    let budget : ImageBudget := { left := n, tally := { images := 0, chars := 0 } }
    have hsent : boundInlineMedia items =
        ((omitFromItems items budget).1, (omitFromItems items budget).2.tally) := by
      exact if_neg hfits
    obtain ⟨used, total, hwalk, hafter⟩ := trimmed_from items 0 budget
    have hsizes : (itemImages 0 items).map InlineImage.size = sizes := itemImages_sizes 0 items
    have hlength : n ≤ (itemImages 0 items).length := by
      have hcount : n ≤ sizes.length := omittedCount_le _ _
      rwa [← hsizes, length_map] at hcount
    have hexact := hwalk.exact_iff (itemImages_nodup items 0 h) hlength
    rw [map_take, hsizes] at hexact
    have htally : (boundInlineMedia items).2 = { images := used, chars := total } := by
      rw [hsent, hafter]
      simp only [budget, Nat.zero_add]
    constructor
    · intro ⟨m, hm, hbounds⟩ k hk
      have hmn : m = n := hm.eq hshortest
      obtain rfl : k = m := hk.eq hm
      rw [hmn] at hbounds ⊢
      have himages := hbounds.images
      have hused := hbounds.tallyImages
      have htotal := hbounds.tallyChars
      rw [hsent] at himages
      rw [htally] at hused htotal
      exact hexact.mp ⟨himages, hused, htotal⟩
    · intro hclear
      obtain ⟨himages, hused, htotal⟩ := hexact.mpr (hclear n hshortest)
      refine ⟨n, hshortest, ?_⟩
      rw [htally, hsent]
      exact
        { bound := by
            rw [← itemImages_sizes 0, himages, map_drop, hsizes]
            exact hshortest.1
          images := himages
          rest := retouched_from items budget
          tallyImages := hused
          tallyChars := htotal }

/-- A screenshot of a computer call: the object that holds it is not the element of an array. -/
def screenshot (data : Text) : Value :=
  .object [("call_id", .string "call_1"),
    ("output", .object [("image_url", .string (("data:image/png;base64," : Text) ++ data)),
      ("type", .string "computer_screenshot")]),
    ("type", .string "computer_call_output")]

theorem startsWith_png :
    (("data:image/png;base64," : Text) ++ data).startsWith "data:image/" = true := by
  have hpng : lit "data:image/" <+: lit "data:image/png;base64," := by decide
  exact decide_eq_true (hpng.trans (prefix_append _ _))

theorem dataImageChars_png :
    dataImageChars (some (.string (("data:image/png;base64," : Text) ++ data))) =
      some (22 + data.utf8Len) := by
  have hlength : utf8Len (lit "data:image/png;base64,") = 22 := by decide
  rw [dataImageChars]
  simp [Value.asStr, startsWith_png, filter_some, utf8Len_append, hlength]

theorem sizes_screenshot :
    collectInlineImageSizes [screenshot data] = [22 + data.utf8Len] := by
  have hnone : dataImageChars none = none := rfl
  have houtput (fields : List (Text × Value)) : dataImageChars (some (.object fields)) = none := rfl
  simp [screenshot, collectInlineImageSizes, visitInlineImageSizes, visitFieldImageSizes,
    lookup_cons, dataImageChars_png, hnone, houtput]

/-- It is counted, and it is not omitted. -/
theorem screenshot_stays :
    (boundInlineMedia [screenshot data]).1 = [screenshot data] := by
  have homit : ∀ budget, (omitInlineImages (screenshot data) budget).1 = screenshot data := by
    intro budget
    simp [screenshot, omitInlineImages, omitFieldImages, dataImageChars, lookup_cons, Value.asStr]
  rw [boundInlineMedia]
  split_ifs
  · rfl
  · simp [omitFromItems, homit]

theorem not_boundsMedia_screenshot {data : Text} (h : maxInlineMediaChars < data.utf8Len) :
    ¬ ∃ n, ShortestPrefix (collectInlineImageSizes [screenshot data]) n ∧
      BoundsMedia [screenshot data] (boundInlineMedia [screenshot data]).1
        (boundInlineMedia [screenshot data]).2 n := by
  intro ⟨n, _, hbounds⟩
  have hbound := hbounds.bound
  rw [screenshot_stays, sizes_screenshot, sum_singleton] at hbound
  omega

theorem utf8Len_replicate (n : ℕ) : utf8Len (replicate n 'A') = n := by
  have hone : Char.utf8Size 'A' = 1 := by decide
  rw [utf8Len, map_replicate, hone, sum_replicate]
  simp

/-- One screenshot over the budget is sent as it is. -/
theorem screenshot_unbounded :
    ¬ ∃ n, ShortestPrefix
        (collectInlineImageSizes [screenshot (replicate (maxInlineMediaChars + 1) 'A')]) n ∧
      BoundsMedia [screenshot (replicate (maxInlineMediaChars + 1) 'A')]
        (boundInlineMedia [screenshot (replicate (maxInlineMediaChars + 1) 'A')]).1
        (boundInlineMedia [screenshot (replicate (maxInlineMediaChars + 1) 'A')]).2 n := by
  refine not_boundsMedia_screenshot ?_
  rw [utf8Len_replicate]
  exact Nat.lt_succ_self _

def inputImage (data : Text) : Value :=
  .object [("image_url", .string (("data:image/png;base64," : Text) ++ data)),
    ("type", .string "input_image")]

/-- A message of two images. -/
def twoImages (first second : Text) : Value :=
  .object [("content", .array [inputImage first, inputImage second]), ("type", .string "message")]

theorem sizes_twoImages (first second : Text) :
    collectInlineImageSizes [twoImages first second] = [22 + first.utf8Len, 22 + second.utf8Len] := by
  have hnone : dataImageChars none = none := rfl
  simp [twoImages, inputImage, collectInlineImageSizes, visitInlineImageSizes,
    visitFieldImageSizes, lookup_cons, dataImageChars_png, hnone]

theorem removable_twoImages (first second : Text) :
    topRemovable [twoImages first second] = [true, true] := by
  have hfirst := startsWith_png first
  have hsecond := startsWith_png second
  simp [topRemovable, twoImages, inputImage, removable, itemsRemovable, fieldsRemovable, ownImage,
    inlineImageChars, dataImageChars, lookup_cons, Value.asStr, hfirst, hsecond, Value.get,
    imagesIn, goesAlone, fieldImages]

/-- Of two images over the budget the first goes. -/
theorem boundInlineMedia_twoImages :
    ShortestPrefix (collectInlineImageSizes
        [twoImages (replicate maxInlineMediaChars 'A') "iVBORw0KGgo"]) 1 ∧
      ∃ n, ShortestPrefix (collectInlineImageSizes
          [twoImages (replicate maxInlineMediaChars 'A') "iVBORw0KGgo"]) n ∧
        BoundsMedia [twoImages (replicate maxInlineMediaChars 'A') "iVBORw0KGgo"]
          (boundInlineMedia [twoImages (replicate maxInlineMediaChars 'A') "iVBORw0KGgo"]).1
          (boundInlineMedia [twoImages (replicate maxInlineMediaChars 'A') "iVBORw0KGgo"]).2
          n := by
  have hshort : ShortestPrefix (collectInlineImageSizes
      [twoImages (replicate maxInlineMediaChars 'A') "iVBORw0KGgo"]) 1 := by
    have hlen : utf8Len (lit "iVBORw0KGgo") = 11 := by decide
    rw [sizes_twoImages, utf8Len_replicate, hlen]
    refine ⟨by decide, fun m hm => ?_⟩
    obtain rfl : m = 0 := by omega
    simp only [drop_zero, sum_cons, sum_nil]
    omega
  refine ⟨hshort, (boundInlineMedia_iff _ ?_).mpr fun n hn => ?_⟩
  · simp [itemsDistinct, distinctKeys, fieldsDistinct, twoImages, inputImage]
  · rw [hn.eq hshort, removable_twoImages]
    simp [Clear]

end CodeSeeX.Native
