import CodeSeeX.Checks
import CodeSeeX.Core.Pricing
import CodeSeeX.General.BTreeMap
import CodeSeeX.Json

/-!
# The model catalog

A catalog document declares models and one default. A newer document is laid over the
built-in one: it decides the model set, and its models get the fields that they lack from
models of the other.
-/
namespace CodeSeeX.Catalog
open Checks Pricing

def modelPro : Text := "deepseek-v4-pro"
def supportedCatalogSchemaVersion : ℕ := 1
def catalogPromptFields : List Text := ["base_instructions", "model_messages"]
def cargoPkgVersion : Text := "0.9.0"

@[ext] structure CatalogModel where
  slug : Text
  displayName : Text
  description : Text
  contextWindow : ℕ
  effectiveContextWindowPercent : ℕ
  priority : ℕ
  extra : BTreeMap Text Value

structure CatalogDocument where
  schemaVersion : ℕ
  revision : Text
  issuedAt : Option Text
  providerName : Text
  defaultModel : Text
  minAppVersion : Option Text
  models : List CatalogModel
  pricing : PricingTable

/-! ## Parsing -/

/-- The fields of a model; the others go into `extra`. -/
def modelFields : List Text :=
  ["slug", "display_name", "description", "context_window", "effective_context_window_percent",
    "priority"]

/-- The derived deserializer of a model. -/
def modelFromValue (value : Value) : Option CatalogModel := do
  let fields ← value.asObject
  let slug ← value.getStr "slug"
  let displayName ← value.getStr "display_name"
  let description ← value.getStr "description"
  let contextWindow ← (value.get "context_window").bind Value.asU64
  let percent ← ((value.get "effective_context_window_percent").bind Value.asU64).filter (· < 2 ^ 8)
  let priority ← ((value.get "priority").bind Value.asU64).filter (· < 2 ^ 32)
  some {
    slug := slug
    displayName := displayName
    description := description
    contextWindow := contextWindow
    effectiveContextWindowPercent := percent
    priority := priority
    extra := (fields.filter fun field => field.1 ∉ modelFields).foldl
      (fun extra field => extra.insert field.1 field.2) BTreeMap.empty }

/-- `segment.trim().parse::<u64>().unwrap_or(0)`; no segment holds a sign. -/
def parseSegment (segment : Text) : ℕ :=
  let digits := segment.trim
  if digits = [] ∨ digits.any (fun c => !c.isDigit) then 0
  else
    let value := digits.foldl (fun n c => n * 10 + (c.toNat - '0'.toNat)) 0
    if value < 2 ^ 64 then value else 0

def versionSegments (value : Text) : List ℕ :=
  ((value.trim.dropWhile (· = 'v')).splitOnP fun c => c = '.' || c = '-' || c = '+').map parseSegment

def versionAtLeast.compare : List ℕ → List ℕ → Bool
  | [], [] => true
  | left :: lefts, [] => if left ≠ 0 then left > 0 else compare lefts []
  | [], right :: rights => if 0 ≠ right then false else compare [] rights
  | left :: lefts, right :: rights =>
      if left ≠ right then left > right else compare lefts rights

def versionAtLeast (current required : Text) : Bool :=
  versionAtLeast.compare (versionSegments current) (versionSegments required)

/-- An array of texts that are not blank. -/
def isTextArray (items : List Value) : Bool :=
  items.all fun item => ((item.asStr.map Text.trim).filter (· ≠ [])).isSome

def validateNames (slug key : Text) (values : Option Value) : Except Text Unit :=
  match values with
  | none => .ok ()
  | some values => do
      let items ← require values.asArray
        (("catalog model " : Text) ++ slug ++ " " ++ key ++ " must be an array")
      ensure (isTextArray items)
        (("catalog model " : Text) ++ slug ++ " has an empty " ++ key ++ " entry")

def isSlugChar (c : Char) : Bool := c.isAlphanum || c = '-' || c = '_' || c = '.'

/-- The first prompt field that a model declares. -/
def declaredPromptField (model : CatalogModel) : Option Text :=
  catalogPromptFields.find? fun key => (model.extra.get key).isSome

def validateCatalogModel (model : CatalogModel) : Except Text Unit := do
  let slug := model.slug.trim
  ensure (slug ≠ []) "catalog model slug must not be empty"
  ensure (slug.all isSlugChar)
    (("catalog model slug has unsupported characters: " : Text) ++ slug)
  ensure (declaredPromptField model).isNone
    (("catalog model " : Text) ++ slug ++ " must not declare " ++
      (declaredPromptField model).getD [] ++ "; prompt material is compiled into CodeSeeX")
  ensure (model.displayName.trim ≠ [])
    (("catalog model " : Text) ++ slug ++ " needs a display_name")
  ensure (model.contextWindow ≠ 0)
    (("catalog model " : Text) ++ slug ++ " needs a positive context_window")
  ensure (1 ≤ model.effectiveContextWindowPercent ∧ model.effectiveContextWindowPercent ≤ 100)
    (("catalog model " : Text) ++ slug ++
      " needs an effective_context_window_percent between 1 and 100")
  ensure ((model.extra.get "max_context_window").bind Value.asU64 ≠ some 0)
    (("catalog model " : Text) ++ slug ++ " needs a positive max_context_window")
  validateNames slug "aliases" (model.extra.get "aliases")
  -- the source checks the aliases once more, with nothing left to find
  validateNames slug "alias_patterns" (model.extra.get "alias_patterns")

def isDefault (model : CatalogModel) : Bool :=
  (model.extra.get "is_default").bind Value.asBool = some true

/-- `object.get(key).and_then(Value::as_str).map(str::trim)` if this is not empty. -/
def trimmedField (value : Value) (key : Text) : Option Text :=
  ((value.getStr key).map Text.trim).filter (· ≠ [])

section
variable (serdeError : Value → Text) (pricingFromValue : Value → Except Text PricingTable)

/-- The models of a document; `serdeError` is what the deserializer says of a value. -/
def parseModels : List Text → List Value → Except Text (List CatalogModel)
  | _, [] => .ok []
  | seen, value :: values => do
      let model ← require (modelFromValue value)
        (("catalog model is invalid: " : Text) ++ serdeError value)
      validateCatalogModel model
      ensure (model.slug ∉ seen) (("duplicate model slug: " : Text) ++ model.slug)
      let models ← parseModels (model.slug :: seen) values
      .ok (model :: models)

def versionSupported (minAppVersion : Option Text) : Bool :=
  (minAppVersion.map (versionAtLeast cargoPkgVersion)).getD true

def fromValue (value : Value) : Except Text CatalogDocument := do
  ensure value.asObject.isSome "catalog document must be an object"
  let schemaVersion ← require ((value.get "schema_version").bind Value.asU64)
    "catalog document is missing schema_version"
  ensure (schemaVersion = supportedCatalogSchemaVersion)
    (("unsupported catalog schema_version " : Text) ++ Text.ofNat schemaVersion ++
      "; expected " ++ Text.ofNat supportedCatalogSchemaVersion)
  let revision ← require (trimmedField value "revision")
    "catalog document needs a non-empty revision"
  let minAppVersion := trimmedField value "min_app_version"
  ensure (versionSupported minAppVersion)
    (("catalog document requires CodeSeeX " : Text) ++ minAppVersion.getD [] ++
      " or newer (current " ++ cargoPkgVersion ++ ")")
  let defaultModel := (trimmedField value "default_model").getD []
  let modelValues ← require ((value.get "models").bind Value.asArray)
    "catalog document is missing a models array"
  ensure (!modelValues.isEmpty) "catalog document must declare at least one model"
  let models ← parseModels serdeError [] modelValues
  ensure (models.any isDefault || models.any (·.slug = defaultModel))
    "catalog document must declare a default model"
  let pricing ← ((value.get "pricing").map pricingFromValue).getD (.ok PricingTable.default)
  .ok {
    schemaVersion := supportedCatalogSchemaVersion
    revision := revision
    issuedAt := trimmedField value "issued_at"
    providerName := (trimmedField value "provider_name").getD "CodeSeeX"
    defaultModel := defaultModel
    minAppVersion := minAppVersion
    models := models
    pricing := pricing }

end

/-! ## Lookup and merge -/

/-- Whether an alias of a model is the slug, up to ASCII case. -/
def hasAlias (model : CatalogModel) (slug : Text) : Bool :=
  (((model.extra.get "aliases").bind Value.asArray).map fun aliases =>
    (aliases.filterMap Value.asStr).any (·.eqIgnoreAsciiCase slug)).getD false

namespace CatalogDocument

def model (document : CatalogDocument) (slug : Text) : Option CatalogModel :=
  (document.models.find? (·.slug = slug.trim)).or (document.models.find? (hasAlias · slug.trim))

def defaultSlug (document : CatalogDocument) : Text :=
  if document.defaultModel.isBlank then
    (((document.models.find? isDefault).or document.models.head?).map
      CatalogModel.slug).getD modelPro
  else document.defaultModel

/-- A model of the overlay, with the fields that it lacks from the model that the base finds. -/
def inherit (base : CatalogDocument) (overlayModel : CatalogModel) : CatalogModel :=
  match base.model overlayModel.slug with
  | some baseModel =>
      { overlayModel with
        extra := baseModel.extra.entries.foldl (fun extra field => extra.orInsert field.1 field.2)
          overlayModel.extra }
  | none => overlayModel

def mergeAuthoritative (base overlay : CatalogDocument) : CatalogDocument where
  schemaVersion := overlay.schemaVersion
  revision := overlay.revision
  issuedAt := overlay.issuedAt.or base.issuedAt
  providerName := if overlay.providerName.isBlank then base.providerName else overlay.providerName
  defaultModel := if overlay.defaultModel.isBlank then base.defaultModel else overlay.defaultModel
  minAppVersion := overlay.minAppVersion
  models := overlay.models.map base.inherit
  pricing :=
    if overlay.pricing.rates = [] ∧ overlay.pricing.groups = [] then base.pricing
    else overlay.pricing

end CatalogDocument

end CodeSeeX.Catalog
