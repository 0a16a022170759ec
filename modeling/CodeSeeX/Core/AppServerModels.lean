import CodeSeeX.Core.ModelResolution

/-!
# The model list for the app server

The list that clients see is made from the active catalog and a private seed, which holds the
prompt texts and fills the fields that the catalog leaves out. It is given page by page.
-/
namespace CodeSeeX.Catalog
open Option List

variable (fields : BTreeMap Text Value)

/-! ## The catalog that clients see -/

inductive CatalogModelKind where
  | chat
  | billingOnly
  deriving DecidableEq

def CatalogModelKind.fromValue (value : Option Value) : CatalogModelKind :=
  match (value.bind Value.asStr).map fun kind => kind.trim.toAsciiLowercase with
  | some kind =>
      if kind ∈ (["billing_only", "billing", "pricing", "pricing_only"] : List Text) then .billingOnly
      else .chat
  | none => .chat

def CatalogModel.kind (model : CatalogModel) : CatalogModelKind :=
  .fromValue (model.extra.get "kind")

def CatalogModel.isBillingOnly (model : CatalogModel) : Bool := model.kind = .billingOnly

/-- What the generated seed file holds. -/
structure CatalogSeed where
  commonModelFields : BTreeMap Text Value
  models : List CatalogModel

/-- The long prompt lines of the source: older ones, and what stands in their place. -/
structure PromptLines where
  legacyCodeseexIdentity : Text
  codexBridgedIdentity : Text
  legacyApplyPatchLine : Text
  previousStrictApplyPatchLine : Text
  strictApplyPatchLine : Text

/-- Prompt fields are the seed's; other fields are the document's where it has them. -/
def mergeSeedField (model : CatalogModel) (field : Text × Value) : CatalogModel :=
  { model with
    extra :=
      if field.1 ∈ catalogPromptFields then model.extra.insert field.1 field.2
      else model.extra.orInsert field.1 field.2 }

def mergeSeedFields (fields : BTreeMap Text Value) (model : CatalogModel) : CatalogModel :=
  fields.entries.foldl mergeSeedField model

/-- The fields of the seed's model with the same slug. -/
def mergeSeedModel (seed : CatalogSeed) (model : CatalogModel) : CatalogModel :=
  match seed.models.find? (·.slug = model.slug) with
  | some seedModel => mergeSeedFields seedModel.extra model
  | none => model

def catalogFromSeedAndDocument (seed : CatalogSeed) (document : CatalogDocument) :
    List CatalogModel :=
  if document.models.isEmpty then seed.models.map (mergeSeedFields seed.commonModelFields)
  else ((document.models.filter fun model => !model.isBillingOnly).map (mergeSeedModel seed)).map
    (mergeSeedFields seed.commonModelFields)

section
variable (lines : PromptLines)

def normalizePromptText (text : Text) : Text :=
  Text.replace lines.previousStrictApplyPatchLine lines.strictApplyPatchLine
    (Text.replace lines.legacyApplyPatchLine lines.strictApplyPatchLine
      (Text.replace lines.legacyCodeseexIdentity lines.codexBridgedIdentity text))

mutual
def normalizePromptValue : Value → Value
  | .string text => .string (normalizePromptText lines text)
  | .array items => .array (normalizePromptItems items)
  | .object fields => .object (normalizePromptFields fields)
  | value => value

def normalizePromptItems : List Value → List Value
  | [] => []
  | item :: items => normalizePromptValue item :: normalizePromptItems items

def normalizePromptFields : List (Text × Value) → List (Text × Value)
  | [] => []
  | (key, value) :: fields => (key, normalizePromptValue value) :: normalizePromptFields fields
end

def normalizeModelPromptText (model : CatalogModel) : CatalogModel :=
  { model with extra := model.extra.mapValues (normalizePromptValue lines) }

/-- The models of `build_codeseex_catalog_from_document`. -/
def buildCodeseexCatalogFromDocument (seed : CatalogSeed) (document : CatalogDocument) :
    List CatalogModel :=
  (catalogFromSeedAndDocument seed document).map (normalizeModelPromptText lines)

end

/-! ## The entries of the list -/

structure AppServerModelListParams where
  cursor : Option Text := none
  limit : Option UInt32 := none
  includeHidden : Option Bool := none

structure AppServerReasoningEffortOption where
  reasoningEffort : Text
  description : Text

structure AppServerModelUpgradeInfo where
  model : Text
  upgradeCopy : Option Text := none
  modelLink : Option Text := none
  migrationMarkdown : Option Text := none

structure AppServerModelAvailabilityNux where
  message : Text

structure AppServerModelServiceTier where
  id : Text
  name : Text
  description : Text

structure AppServerModel where
  id : Text
  model : Text
  upgrade : Option Text
  upgradeInfo : Option AppServerModelUpgradeInfo
  availabilityNux : Option AppServerModelAvailabilityNux
  displayName : Text
  shortDisplayName : Option Text
  description : Text
  hidden : Bool
  supportedReasoningEfforts : List AppServerReasoningEffortOption
  defaultReasoningEffort : Text
  inputModalities : List Text
  supportsPersonality : Bool
  additionalSpeedTiers : List Text
  serviceTiers : List AppServerModelServiceTier
  defaultServiceTier : Option Text
  isDefault : Bool

structure AppServerModelListResponse where
  data : List AppServerModel
  nextCursor : Option Text

variable (model : CatalogModel)

def catalogModelIsHidden : Bool :=
  match (model.extra.get "hidden").bind Value.asBool with
  | some hidden => hidden
  | none => (model.extra.get "visibility").bind Value.asStr = some "hidden"

def catalogModelIsDefault : Bool :=
  ((model.extra.get "is_default").bind Value.asBool).getD false

/-- A text that is not blank, as it stands. -/
def requiredString (value : Option Value) : Option Text :=
  (value.bind Value.asStr).filter fun text => !text.isBlank

def stringExtra (extra : BTreeMap Text Value) (key : Text) : Option Text :=
  requiredString (extra.get key)

def boolExtra (extra : BTreeMap Text Value) (key : Text) : Option Bool :=
  (extra.get key).bind Value.asBool

def stringArrayExtra (extra : BTreeMap Text Value) (key : Text) : Option (List Text) :=
  ((extra.get key).bind Value.asArray).map fun items =>
    (items.filterMap Value.asStr).filter fun text => !text.isBlank

def reasoningEffortOption (value : Value) : Option AppServerReasoningEffortOption :=
  (requiredString (((value.get "reasoningEffort").or (value.get "reasoning_effort")).or
    (value.get "effort"))).map fun effort =>
      { reasoningEffort := effort, description := (value.getStr "description").getD [] }

def supportedReasoningEfforts : List AppServerReasoningEffortOption :=
  let efforts := ((((model.extra.get "supported_reasoning_efforts").or
    (model.extra.get "supported_reasoning_levels")).bind Value.asArray).map
      (filterMap reasoningEffortOption)).getD []
  if efforts.isEmpty then
    [{ reasoningEffort := (stringExtra model.extra "default_reasoning_level").getD "medium"
       description := "Default reasoning effort" }]
  else efforts

def modelUpgradeInfo (value : Option Value) : Option AppServerModelUpgradeInfo :=
  match requiredString value with
  | some model => some { model := model }
  | none => value.bind fun object =>
      (requiredString ((object.get "model").or (object.get "id"))).map fun model =>
        { model := model
          upgradeCopy := requiredString ((object.get "upgradeCopy").or (object.get "upgrade_copy"))
          modelLink := requiredString ((object.get "modelLink").or (object.get "model_link"))
          migrationMarkdown := requiredString ((object.get "migrationMarkdown").or
            (object.get "migration_markdown")) }

def availabilityNux (value : Option Value) : Option AppServerModelAvailabilityNux :=
  (value.bind fun object => requiredString (object.get "message")).map fun message =>
    { message := message }

def serviceTiers (value : Option Value) : List AppServerModelServiceTier :=
  ((value.bind Value.asArray).map (filterMap fun item => do
    let id ← requiredString (item.get "id")
    let name ← requiredString (item.get "name")
    let description ← requiredString (item.get "description")
    some { id := id, name := name, description := description })).getD []

def appServerDisplayName : Text :=
  Text.replace "DeepSeek-V4" "DeepSeek V4" model.displayName

def appServerShortDisplayName : Option Text :=
  ((stringExtra model.extra "short_display_name").or
    (stringExtra model.extra "shortDisplayName")).or
    (let displayName := appServerDisplayName model
     let front : Text := "DeepSeek V4 "
     if displayName.startsWith front then
      (some (displayName.drop front.length)).filter fun text => !text.isBlank
     else none)

def appServerModelFromCatalogModel (anyExplicitDefault : Bool) (model : CatalogModel) :
    AppServerModel where
  id := model.slug
  model := model.slug
  upgrade := (modelUpgradeInfo (model.extra.get "upgrade")).map AppServerModelUpgradeInfo.model
  upgradeInfo := modelUpgradeInfo (model.extra.get "upgrade")
  availabilityNux := availabilityNux (model.extra.get "availability_nux")
  displayName := appServerDisplayName model
  shortDisplayName := appServerShortDisplayName model
  description := model.description
  hidden := catalogModelIsHidden model
  supportedReasoningEfforts := supportedReasoningEfforts model
  defaultReasoningEffort := (stringExtra model.extra "default_reasoning_level").getD "medium"
  inputModalities := ((stringArrayExtra model.extra "input_modalities").filter
    fun values => !values.isEmpty).getD ["text", "image"]
  supportsPersonality := (boolExtra model.extra "supports_personality").getD false
  additionalSpeedTiers := (stringArrayExtra model.extra "additional_speed_tiers").getD []
  serviceTiers := serviceTiers (model.extra.get "service_tiers")
  defaultServiceTier := stringExtra model.extra "default_service_tier"
  isDefault :=
    if anyExplicitDefault then catalogModelIsDefault model else model.slug = modelPro

/-! ## Pages -/

/-- `text.parse::<usize>().ok()` -/
def parseUsize (text : Text) : Option ℕ :=
  (Text.parseDigits (if text.head? = some '+' then text.tail else text)).filter (· < 2 ^ 64)

namespace AppServerModelListParams

variable (params : AppServerModelListParams)

def start : ℕ := (params.cursor.bind parseUsize).getD 0

def pageLimit : ℕ :=
  ((params.limit.map UInt32.toNat).filter (0 < ·)).getD 50

/-- Where the page of a list of `length` entries ends; the sum saturates. -/
def stop (length : ℕ) : ℕ :=
  if params.pageLimit = 0 then min params.start length
  else min (min (params.start + params.pageLimit) (2 ^ 64 - 1)) length

/-- `models.get(start..end).unwrap_or_default()` -/
def page {α : Type} (params : AppServerModelListParams) (models : List α) : List α :=
  (models.take (params.stop models.length)).drop (min params.start models.length)

end AppServerModelListParams

def appServerModelListFromCatalog (catalog : List CatalogModel)
    (params : AppServerModelListParams) : AppServerModelListResponse :=
  let includeHidden := params.includeHidden.getD false
  let models := (catalog.filter fun model => includeHidden || !catalogModelIsHidden model).map
    (appServerModelFromCatalogModel (catalog.any catalogModelIsDefault))
  { data := params.page models
    nextCursor :=
      if params.stop models.length < models.length then
        some (Text.ofNat (params.stop models.length))
      else none }

def appServerModelListForDocument (lines : PromptLines) (seed : CatalogSeed)
    (document : CatalogDocument) (params : AppServerModelListParams) : AppServerModelListResponse :=
  appServerModelListFromCatalog (buildCodeseexCatalogFromDocument lines seed document) params

/-! ## The marks of the list -/

theorem get_mergeSeedFields (model : CatalogModel) {key : Text} (hkey : key ∉ catalogPromptFields) :
    (mergeSeedFields fields model).extra.get key =
      (model.extra.get key).or (fields.get key) := by
  -- under another key the fold adds what is missing, as if there were no prompt fields
  have hfold : ∀ (entries : List (Text × Value)) (model : CatalogModel)
      (extra : BTreeMap Text Value), model.extra.get key = extra.get key →
        (entries.foldl mergeSeedField model).extra.get key =
          (entries.foldl (fun extra field => extra.orInsert field.1 field.2) extra).get key := by
    intro entries
    induction entries with
    | nil => exact fun _ _ h => h
    | cons field entries ih =>
      intro model extra h
      refine ih _ _ ?_
      have horder : ∀ extra : BTreeMap Text Value, (extra.orInsert field.1 field.2).get key =
          (extra.get key).or (if field.1 = key then some field.2 else none) := by
        intro extra
        have := BTreeMap.get_foldl_orInsert [field] extra key
        rw [foldl_cons, foldl_nil] at this
        rw [this, find?_cons]
        by_cases heq : field.1 = key <;> simp [heq]
      rw [mergeSeedField]
      split_ifs with hprompt
      · have hne : key ≠ field.1 := fun heq => hkey (heq ▸ hprompt)
        rw [BTreeMap.get_insert_ne _ hne, horder, if_neg hne.symm, or_none, h]
      · rw [horder, horder, h]
  rw [mergeSeedFields, hfold fields.entries model model.extra rfl, BTreeMap.get_foldl_orInsert]
  rfl

@[simp] theorem mergeSeedFields_slug (model : CatalogModel) :
    (mergeSeedFields fields model).slug = model.slug := by
  have hfold : ∀ (entries : List (Text × Value)) (model : CatalogModel),
      (entries.foldl mergeSeedField model).slug = model.slug := by
    intro entries
    induction entries with
    | nil => exact fun _ => rfl
    | cons field entries ih => exact fun model => ih (mergeSeedField model field)
  exact hfold fields.entries model

section
variable (lines : PromptLines) (seed : CatalogSeed)

/-- A model of the document as clients get it. -/
def seeded (model : CatalogModel) : CatalogModel :=
  normalizeModelPromptText lines
    (mergeSeedFields seed.commonModelFields (mergeSeedModel seed model))

/-- The value under a key that the seed has for a model. -/
def CatalogSeed.field (slug key : Text) : Option Value :=
  ((seed.models.find? (·.slug = slug)).bind fun model => model.extra.get key).or
    (seed.commonModelFields.get key)

@[simp] theorem seeded_slug (model : CatalogModel) : (seeded lines seed model).slug = model.slug := by
  show (mergeSeedFields seed.commonModelFields (mergeSeedModel seed model)).slug = model.slug
  rw [mergeSeedFields_slug, mergeSeedModel]
  split
  · exact mergeSeedFields_slug ..
  · rfl

theorem get_mergeSeed (model : CatalogModel) {key : Text} (hkey : key ∉ catalogPromptFields) :
    (mergeSeedFields seed.commonModelFields (mergeSeedModel seed model)).extra.get key =
      (model.extra.get key).or (seed.field model.slug key) := by
  rw [get_mergeSeedFields _ _ hkey, CatalogSeed.field, ← Option.or_assoc, mergeSeedModel]
  cases hfound : seed.models.find? (·.slug = model.slug) with
  | none => rw [bind_none, or_none]
  | some seedModel =>
    rw [bind_some]
    rw [get_mergeSeedFields _ _ hkey]

theorem asBool_normalizePromptValue (value : Value) :
    (normalizePromptValue lines value).asBool = value.asBool := by
  cases value <;> rfl

theorem get_mapValues {κ ν : Type} [LinearOrder κ] (m : BTreeMap κ ν) (f : ν → ν) (key : κ) :
    (m.mapValues f).get key = (m.get key).map f := by
  simp only [BTreeMap.get, BTreeMap.mapValues, find?_map, Option.map_map]
  rfl

/-- A model that carries the default flag, its own or that of the seed. -/
def Flagged (model : CatalogModel) : Prop :=
  ((model.extra.get "is_default").or (seed.field model.slug "is_default")).bind Value.asBool =
    some true

theorem isDefault_seeded (model : CatalogModel) :
    catalogModelIsDefault (seeded lines seed model) = true ↔ Flagged seed model := by
  have hfield : ((seeded lines seed model).extra.get "is_default").bind Value.asBool =
      ((model.extra.get "is_default").or (seed.field model.slug "is_default")).bind
        Value.asBool := by
    rw [← get_mergeSeed seed model (by decide)]
    show ((BTreeMap.mapValues _ (normalizePromptValue lines)).get (Text.lit "is_default")).bind
      Value.asBool = _
    rw [get_mapValues, bind_map]
    exact congrArg _ (funext (asBool_normalizePromptValue lines))
  rw [catalogModelIsDefault, hfield, Flagged]
  cases ((model.extra.get "is_default").or (seed.field model.slug "is_default")).bind
    Value.asBool <;> simp

theorem page_map {α β : Type} (params : AppServerModelListParams) (f : α → β) (models : List α) :
    params.page (models.map f) = (params.page models).map f := by
  simp only [AppServerModelListParams.page, length_map, map_drop, map_take]

/-- The models that stand on a page of the list, as the document has them. -/
def shownModels (models : List CatalogModel) (params : AppServerModelListParams) :
    List CatalogModel :=
  params.page ((models.filter fun model => !model.isBillingOnly).filter fun model =>
    params.includeHidden.getD false || !catalogModelIsHidden (seeded lines seed model))

/-- The chat models of which some carries the default flag. -/
def AnyFlagged (models : List CatalogModel) : Prop :=
  ∃ model ∈ models, model.isBillingOnly = false ∧ Flagged seed model

theorem appServerModelList_marks {document : CatalogDocument} (hmodels : document.models ≠ [])
    (params : AppServerModelListParams) (P : Text → Bool → Prop) :
    (∀ entry ∈ (appServerModelListForDocument lines seed document params).data,
        P entry.id entry.isDefault) ↔
      ∀ model ∈ shownModels lines seed document.models params,
        (AnyFlagged seed document.models →
          P model.slug (catalogModelIsDefault (seeded lines seed model))) ∧
        (¬AnyFlagged seed document.models → P model.slug (model.slug = modelPro)) := by
  have hbuild : buildCodeseexCatalogFromDocument lines seed document =
      (document.models.filter fun model => !model.isBillingOnly).map (seeded lines seed) := by
    rw [buildCodeseexCatalogFromDocument, catalogFromSeedAndDocument,
      if_neg (by simpa using hmodels), List.map_map, List.map_map]
    rfl
  have hany : (buildCodeseexCatalogFromDocument lines seed document).any catalogModelIsDefault =
      true ↔ AnyFlagged seed document.models := by
    rw [hbuild, List.any_map, List.any_eq_true, AnyFlagged]
    simp only [List.mem_filter, Bool.not_eq_true', Function.comp_apply, isDefault_seeded, and_assoc]
  rw [appServerModelListForDocument, appServerModelListFromCatalog]
  rw [page_map, List.forall_mem_map]
  have hpage : params.page ((buildCodeseexCatalogFromDocument lines seed document).filter
      fun model => params.includeHidden.getD false || !catalogModelIsHidden model) =
        (shownModels lines seed document.models params).map (seeded lines seed) := by
    rw [hbuild, List.filter_map, page_map]
    rfl
  rw [hpage, List.forall_mem_map]
  refine forall₂_congr fun model _ => ?_
  simp only [appServerModelFromCatalogModel, seeded_slug]
  by_cases hflag : AnyFlagged seed document.models
  · rw [if_pos (hany.mpr hflag)]
    simp [hflag]
  · rw [if_neg (mt hany.mp hflag)]
    simp [hflag]

end

end CodeSeeX.Catalog
