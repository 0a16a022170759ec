import CodeSeeX.Core.UserConfig

/-!
# The catalog in effect

The built-in document, the document fetched last over it, and the overrides of the user on
top. The prices of the store are those of this document.
-/
namespace CodeSeeX.Config
open Catalog Pricing Checks

/-! ## Sparse overrides of a price list -/

/-- `n as f64`: the nearest binary64 number, ties to the even one. -/
def natAsF64 (n : ℕ) : ℕ :=
  let shift := Nat.log2 n - 52
  let quotient := n / 2 ^ shift
  let rest := n % 2 ^ shift
  let half := 2 ^ shift / 2
  let up := 0 < shift ∧ (half < rest ∨ (rest = half ∧ quotient % 2 = 1))
  (if up then quotient + 1 else quotient) * 2 ^ shift

def asF64 : Value → Option ℚ
  | .number (.posInt n) => some (natAsF64 n.toNat : ℚ)
  | .number (.negInt n) => some (-(natAsF64 n.toInt.natAbs : ℚ))
  | .number (.float d) => some ((d.mantissa : ℚ) * 2 ^ d.exponent)
  | _ => none

def maxPeakMultiplier : ℚ := 100

/-- `text.parse::<i32>().ok()` -/
def parseI32 (text : Text) : Option ℤ :=
  (Text.parseI64 text).filter fun n => -(2 ^ 31) ≤ n ∧ n < 2 ^ 31

def timezoneUtcOffsetMinutes (timezone : Text) : Option ℤ :=
  let normalized := settingLabel timezone
  if normalized ∈ (["asia/shanghai", "asia/chongqing", "prc", "cst"] : List Text) then some (8 * 60)
  else if normalized ∈ (["utc", "etc/utc", "z", "gmt"] : List Text) then some 0
  else
    let signed : Option (ℤ × Text) :=
      match normalized with
      | '+' :: rest => some (1, rest)
      | '-' :: rest => some (-1, rest)
      | _ => none
    signed.bind fun (sign, rest) =>
      let (hour, minute) := (Text.splitOnce ":" rest).getD (rest, "0")
      (parseI32 hour).bind fun hour =>
        (parseI32 minute).bind fun minute =>
          if hour > 23 ∨ minute > 59 then none else some (sign * (hour * 60 + minute))

def ratesFromValue (value : Value) : Option ModelRates := do
  let _ ← value.asObject
  let read (key : Text) : Option ℚ :=
    match value.get key with
    | some value => asF64 value
    | none => some 0
  let cachedInput ← read "cached_input"
  let cacheMissInput ← read "cache_miss_input"
  let output ← read "output"
  if 0 ≤ cachedInput ∧ 0 ≤ cacheMissInput ∧ 0 ≤ output then
    some { cachedInput := cachedInput, cacheMissInput := cacheMissInput, output := output }
  else none

def parsePeakWindow (value : Value) : Except Text PeakWindow := do
  let _ ← require value.asObject "peak_valley window must be an object"
  let start ← require (value.getStr "from") "peak_valley window needs a from time"
  let stop ← require (value.getStr "to") "peak_valley window needs a to time"
  let fromMinute ← require (parseHhmm start) ("peak_valley window from is not HH:MM: " ++ start)
  let toMinute ← require (parseHhmm stop) ("peak_valley window to is not HH:MM: " ++ stop)
  pure { fromMinute := fromMinute, toMinute := toMinute }

def parseRateMap (label : Text) (value : Value) : Except Text (List (Text × ModelRates)) := do
  let fields ← require value.asObject (label ++ " must be an object")
  fields.foldlM (fun rates (field : Text × Value) => do
    ensure (field.1.trim ≠ []) (label ++ " contains an empty key")
    let value ← require (ratesFromValue field.2)
      (label ++ "." ++ field.1.trim ++ " must contain non-negative finite numbers")
    pure (BTreeMap.insertEntry field.1.trim value rates)) []

/-- The nonblank text under the key, trimmed, or the text in use. -/
def overrideText (value : Value) (key current : Text) : Text :=
  (nonEmptyTrimmed (value.getStr key)).getD current

def insertAll (entries rates : List (Text × ModelRates)) : List (Text × ModelRates) :=
  entries.foldl (fun rates entry => BTreeMap.insertEntry entry.1 entry.2 rates) rates

def overrideMultiplier (value : Value) (rule : PeakValley) : Except Text PeakValley :=
  match (value.get "peak_multiplier").bind asF64 with
  | some multiplier =>
      if multiplier < 1 ∨ multiplier > maxPeakMultiplier then
        .error "peak_multiplier must be between 1 and 100"
      else .ok { rule with multiplier := multiplier }
  | none => .ok rule

def overrideTimezone (value : Value) (rule : PeakValley) : Except Text PeakValley :=
  match value.getStr "timezone" with
  | some timezone => do
      let offset ← require (timezoneUtcOffsetMinutes timezone.trim)
        (("unsupported timezone: " : Text) ++ timezone.trim)
      pure { rule with utcOffsetMinutes := offset, timezone := timezone.trim }
  | none => .ok rule

def overrideWindows (value : Value) (rule : PeakValley) : Except Text PeakValley :=
  match value.get "peak_windows" with
  | some windows => do
      let items ← require windows.asArray "peak_windows must be an array"
      let parsed ← items.mapM parsePeakWindow
      ensure (parsed.all fun window => window.fromMinute < window.toMinute)
        "peak window must start before it ends"
      pure { rule with windows := parsed }
  | none => .ok rule

def overrideRates (value : Value) (key label : Text) (rates : List (Text × ModelRates)) :
    Except Text (List (Text × ModelRates)) :=
  match value.get key with
  | some entries => do pure (insertAll (← parseRateMap label entries) rates)
  | none => .ok rates

def withOverrideValue (table : PricingTable) (value : Value) : Except Text PricingTable := do
  let _ ← require value.asObject "pricing override must be an object"
  let rule := { table.peakValley with
    enabled := ((value.get "peak_valley_enabled").bind Value.asBool).getD table.peakValley.enabled }
  let rule ← overrideMultiplier value rule
  let rule ← overrideTimezone value rule
  let rule ← overrideWindows value rule
  let rates ← overrideRates value "rates" "pricing.rates" table.rates
  let groups ← overrideRates value "groups" "pricing.groups" table.groups
  pure {
    revision := overrideText value "revision" table.revision
    currency := overrideText value "currency" table.currency
    unit := overrideText value "unit" table.unit
    peakValley := rule
    groups := groups
    rates := rates }

/-! ## Overrides of a document -/

/-- `if let Some(value) = value { extra.insert(key, json!(value)) }` -/
def insertExtra {α : Type} (toValue : α → Value) (key : Text) (value : Option α)
    (extra : BTreeMap Text Value) : BTreeMap Text Value :=
  match value with
  | some value => extra.insert key (toValue value)
  | none => extra

def applyTo (changes : CatalogModelOverride) (model : CatalogModel) : CatalogModel :=
  { model with
    displayName := changes.displayName.getD model.displayName
    description := changes.description.getD model.description
    contextWindow := (changes.contextWindow.map UInt64.toNat).getD model.contextWindow
    effectiveContextWindowPercent :=
      (changes.effectiveContextWindowPercent.map UInt8.toNat).getD
        model.effectiveContextWindowPercent
    extra :=
      let extra := insertExtra .string "short_display_name" changes.shortDisplayName model.extra
      let extra := insertExtra .string "upstream_slug" changes.upstreamSlug extra
      let extra := insertExtra .string "pricing_group" changes.pricingGroup extra
      let extra := insertExtra textsValue "aliases" changes.aliases extra
      let extra := insertExtra .bool "is_default" changes.isDefault extra
      insertExtra .bool "hidden" changes.hidden extra }

/-- A model of its own, made from the first built-in one. -/
def toCatalogModel (embedded : CatalogDocument) (changes : CatalogModelOverride) (slug : Text) :
    Option CatalogModel :=
  if changes.displayName.isNone ∧ changes.description.isNone then none
  else
    let model : CatalogModel := embedded.models.head?.getD {
      slug := slug
      displayName := slug
      description := []
      contextWindow := 1000000
      effectiveContextWindowPercent := 95
      priority := 2
      extra := .empty }
    some (applyTo changes { model with
      slug := slug
      displayName := changes.displayName.getD slug
      description := changes.description.getD [] })

/-- `models.iter_mut().find(|model| model.slug == slug)` and the change of what is found. -/
def updateFirst (slug : Text) (f : CatalogModel → CatalogModel) :
    List CatalogModel → List CatalogModel
  | [] => []
  | model :: models =>
      if model.slug = slug then f model :: models else model :: updateFirst slug f models

def overrideModel (embedded : CatalogDocument) (models : List CatalogModel)
    (entry : Text × CatalogModelOverride) : List CatalogModel :=
  if models.any (·.slug = entry.1) then updateFirst entry.1 (applyTo entry.2) models
  else models ++ (toCatalogModel embedded entry.2 entry.1).toList

def applyCatalogOverrides (embedded document : CatalogDocument) (overrides : CatalogOverrides) :
    CatalogDocument :=
  if overrides.isEmpty then document
  else
    { document with
      models := overrides.models.entries.foldl (overrideModel embedded) document.models
      pricing :=
        match overrides.pricing with
        | some pricing =>
            match withOverrideValue document.pricing pricing with
            | .ok updated => updated
            | .error _ => document.pricing
        | none => document.pricing
      revision :=
        if document.revision.endsWith "+user" then document.revision
        else document.revision ++ "+user" }

namespace AppConfig

/-- The catalog in effect; `embedded` is the built-in document. -/
def catalogDocument (embedded : CatalogDocument) (config : AppConfig) : CatalogDocument :=
  applyCatalogOverrides embedded
    (match config.catalogRemote with
      | some remote => embedded.mergeAuthoritative remote
      | none => embedded)
    config.catalogOverrides

def pricingTable (embedded : CatalogDocument) (config : AppConfig) : PricingTable :=
  (config.catalogDocument embedded).pricing

def catalogRevision (embedded : CatalogDocument) (config : AppConfig) : Text :=
  (config.catalogDocument embedded).revision

end AppConfig

end CodeSeeX.Config
