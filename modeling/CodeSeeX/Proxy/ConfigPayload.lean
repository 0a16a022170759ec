import CodeSeeX.Core.UserConfig

/-!
# A payload of the settings page

The settings page sends what was changed under flat keys. Each key is read with the parser
of its setting and written to its place in the sections of the file; a section is made when
one of its keys is there. The tools' settings are cleaned up behind their edits.
-/
namespace CodeSeeX.Config
open Catalog Upstream

/-- What other crates read: JSON texts, the value of a JSON number, numbers in texts; and the
configuration keys that the community tools in the data directory declare. -/
structure PayloadCrates where
  fromStr : Text → Option Value
  asF64 : Number → Float64
  parseF64 : Text → Option Float64
  communityToolConfigKeys : List Text

def present (payload : Value) (key : Text) : Bool := (payload.get key).isSome

/-- `if payload.get(key).is_some() { slot = parse(payload, key) }` -/
def assign {α : Type} (payload : Value) (key : Text) (parse : Value → Option α)
    (slot : Option α) : Option α :=
  match payload.get key with
  | some value => parse value
  | none => slot

/-- A section is edited, and made if need be, when one of the keys is there. -/
def editSection {α : Type} (payload : Value) (keys : List Text) (edit : α → α) (default : α)
    (part : Option α) : Option α :=
  if keys.any (present payload) then some (edit (part.getD default)) else part

theorem mem_editSection {α : Type} {payload : Value} {keys : List Text} {edit : α → α}
    {default edited : α} {part : Option α}
    (h : edited ∈ editSection payload keys edit default part) :
    edited = edit (part.getD default) ∨ edited ∈ part := by
  unfold editSection at h
  split_ifs at h
  · exact Or.inl (Option.mem_some_iff.mp h).symm
  · exact Or.inr h

/-! ## Parsers of values -/

def valueString (value : Value) : Option Text := nonEmptyTrimmed value.asStr

def isTrueLabel (text : Text) : Bool :=
  settingLabel text ∈ (["1", "true", "yes", "on", "enabled"] : List Text)

def valueBool (value : Value) : Option Bool :=
  match value.asBool with
  | some b => some b
  | none => value.asStr.map isTrueLabel

def parseU16 (text : Text) : Option UInt16 :=
  ((Text.parseDigits (match text with | '+' :: digits => digits | digits => digits)).filter
    (· < 2 ^ 16)).map UInt16.ofNat

def valueU16 (value : Value) : Option UInt16 :=
  match value.asU64 with
  | some n => if n < 2 ^ 16 then some (UInt16.ofNat n) else none
  | none => value.asStr.bind fun text => parseU16 text.trim

def normalizeListItem (item : Text) : Text :=
  let normalized := item.trim.toAsciiLowercase.map fun c =>
    if c.isAlphanum ∨ c = '_' ∨ c = '-' then c else '_'
  (normalized.dropWhile (· = '_')).rdropWhile (· = '_')

def normalizeStringList (items : List Text) : List Text :=
  (items.foldl (fun output item =>
    let normalized := normalizeListItem item
    if normalized = [] ∨ normalized ∈ output then output else output ++ [normalized]) []).insertionSort
    (· ≤ ·)

/-- The ids of the tools that can be switched on and off, the image tool under its one name. -/
def configurableToolIds (ids : List Text) : List Text :=
  let kept := ids.filter fun id =>
    id ∉ (["apply_patch", "web_search", "mcp", "mcp_server"] : List Text)
  let named := kept.map fun id =>
    if id ∈ (["vision_generate", "image_gen", "imagegen", "image_generation", "generate_image",
      "image_generate", "create_image"] : List Text) then Text.lit "image_gen" else id
  named.foldl (fun output id => if id ∈ output then output else output ++ [id]) []

def valueTemperature (value : Value) : Option TemperaturePreset :=
  (valueString value).bind fun text =>
    if text.toAsciiLowercase = Text.lit "strict" then some .strict
    else if text.toAsciiLowercase = Text.lit "balanced" then some .balanced
    else if text.toAsciiLowercase = Text.lit "general" then some .general
    else if text.toAsciiLowercase = Text.lit "creative" then some .creative
    else if text.toAsciiLowercase = Text.lit "default" then some .default
    else none

def valueModelOverride (value : Value) : Option UpstreamModelOverride :=
  (valueString value).map UpstreamModelOverride.fromLabel

def valueUpstreamTransport (value : Value) : Option UpstreamTransport :=
  (valueString value).bind parseUpstreamTransport

def valueCredentialSource (value : Value) : Option UpstreamCredentialSource :=
  value.asStr.bind parseCredentialSource

def valueNetworkProxy (value : Value) : Option NetworkProxyMode :=
  (valueString value).bind parseNetworkProxyMode

def valueWebSearchBackend (value : Value) : Option WebSearchBackend :=
  (valueString value).bind fun text =>
    if text.toAsciiLowercase ∈ (["local", "codeseex"] : List Text) then some .local_
    else if text.toAsciiLowercase ∈ (["official", "deepseek"] : List Text) then some .official
    else none

section
variable (crates : PayloadCrates)

def asFloat64 : Value → Option Float64
  | .number n => some (crates.asF64 n)
  | _ => none

def valueF64 (value : Value) : Option Float64 :=
  match asFloat64 crates value with
  | some f => some f
  | none => value.asStr.bind fun text => crates.parseF64 text.trim

/-- `serde_json::from_str::<Vec<String>>(text).ok()` -/
def parseTexts (text : Text) : Option (List Text) :=
  ((crates.fromStr text).bind Value.asArray).bind fun items => items.mapM Value.asStr

def valueStringList (value : Value) : Option (List Text) :=
  match value.asArray with
  | some items => some (normalizeStringList (items.filterMap Value.asStr))
  | none =>
      value.asStr.map fun raw =>
        let text := raw.trim
        if text = [] then []
        else match parseTexts crates text with
          | some parsed => normalizeStringList parsed
          | none => normalizeStringList (text.splitOn ',')

end

/-! ## Sections of plain settings -/

section
variable (crates : PayloadCrates) (payload : Value)

def editProxy (proxy : Option UserProxyConfig) : Option UserProxyConfig :=
  editSection payload ["PROXY_PORT"]
    (fun proxy => { proxy with port := assign payload "PROXY_PORT" valueU16 proxy.port }) {} proxy

def editUpstream (upstream : Option UserUpstreamConfig) : Option UserUpstreamConfig :=
  editSection payload ["DEEPSEEK_TRANSPORT", "DEEPSEEK_CREDENTIAL_SOURCE"]
    (fun upstream => { upstream with
      transport := assign payload "DEEPSEEK_TRANSPORT" valueUpstreamTransport upstream.transport
      credential := assign payload "DEEPSEEK_CREDENTIAL_SOURCE" valueCredentialSource
        upstream.credential }) {} upstream

def editModel (model : Option UserModelConfig) : Option UserModelConfig :=
  editSection payload
    ["UPSTREAM_MODEL_OVERRIDE", "DEEPSEEK_TEMPERATURE_PRESET", "DEEPSEEK_THINKING"]
    (fun model => {
      overrideMode := assign payload "UPSTREAM_MODEL_OVERRIDE" valueModelOverride
        model.overrideMode
      temperature := assign payload "DEEPSEEK_TEMPERATURE_PRESET" valueTemperature
        model.temperature
      thinking := assign payload "DEEPSEEK_THINKING" valueString model.thinking }) {} model

/-- The keys that open the section of the user interface; the verbosity of the log is not one. -/
def uiKeys : List Text :=
  ["UI_THEME", "UI_LANGUAGE", "AUTO_START", "CODEX_APP_MODEL_LIST_INJECTION",
    "UI_CLOSE_BEHAVIOR", "LOG_RETENTION_DAYS"]

def editUi (ui : Option UserUiConfig) : Option UserUiConfig :=
  editSection payload uiKeys
    (fun ui => {
      theme := assign payload "UI_THEME" valueString ui.theme
      language := assign payload "UI_LANGUAGE" valueString ui.language
      autoStart := assign payload "AUTO_START" valueBool ui.autoStart
      codexAppModelListInjection := assign payload "CODEX_APP_MODEL_LIST_INJECTION" valueBool
        ui.codexAppModelListInjection
      closeBehavior := assign payload "UI_CLOSE_BEHAVIOR" valueString ui.closeBehavior
      logRetentionDays := assign payload "LOG_RETENTION_DAYS" valueU16 ui.logRetentionDays
      logVerbosity := assign payload "LOG_VERBOSITY" valueString ui.logVerbosity }) {} ui

def editExperimental (experimental : Option UserExperimentalConfig) :
    Option UserExperimentalConfig :=
  editSection payload ["EXPERIMENT_REASONING_SUMMARY_MODE"]
    (fun experimental => {
      reasoningSummaryMode := assign payload "EXPERIMENT_REASONING_SUMMARY_MODE" valueString
        experimental.reasoningSummaryMode }) {} experimental

def editCatalog (catalog : Option UserCatalogConfig) : Option UserCatalogConfig :=
  editSection payload ["CODESEEX_CATALOG_URL", "CODESEEX_CATALOG_REMOTE"]
    (fun catalog => {
      sourceUrl := assign payload "CODESEEX_CATALOG_URL" valueString catalog.sourceUrl
      remoteEnabled := assign payload "CODESEEX_CATALOG_REMOTE" valueBool
        catalog.remoteEnabled }) {} catalog

def billingKeys : List Text :=
  ["BILLING_PEAK_VALLEY_ENABLED", "BILLING_FLASH_CACHED_INPUT_CNY",
    "BILLING_FLASH_CACHE_MISS_INPUT_CNY", "BILLING_FLASH_OUTPUT_CNY",
    "BILLING_PRO_CACHED_INPUT_CNY", "BILLING_PRO_CACHE_MISS_INPUT_CNY", "BILLING_PRO_OUTPUT_CNY",
    "BILLING_VISION_CACHED_INPUT_CNY", "BILLING_VISION_CACHE_MISS_INPUT_CNY",
    "BILLING_VISION_OUTPUT_CNY"]

def editBilling (billing : Option UserBillingConfig) : Option UserBillingConfig :=
  editSection payload billingKeys
    (fun billing => { billing with
      peakValleyEnabled := assign payload "BILLING_PEAK_VALLEY_ENABLED" valueBool
        billing.peakValleyEnabled
      flashCachedInputCny := assign payload "BILLING_FLASH_CACHED_INPUT_CNY" (valueF64 crates)
        billing.flashCachedInputCny
      flashCacheMissInputCny := assign payload "BILLING_FLASH_CACHE_MISS_INPUT_CNY"
        (valueF64 crates) billing.flashCacheMissInputCny
      flashOutputCny := assign payload "BILLING_FLASH_OUTPUT_CNY" (valueF64 crates)
        billing.flashOutputCny
      proCachedInputCny := assign payload "BILLING_PRO_CACHED_INPUT_CNY" (valueF64 crates)
        billing.proCachedInputCny
      proCacheMissInputCny := assign payload "BILLING_PRO_CACHE_MISS_INPUT_CNY" (valueF64 crates)
        billing.proCacheMissInputCny
      proOutputCny := assign payload "BILLING_PRO_OUTPUT_CNY" (valueF64 crates)
        billing.proOutputCny
      visionCachedInputCny := assign payload "BILLING_VISION_CACHED_INPUT_CNY" (valueF64 crates)
        billing.visionCachedInputCny
      visionCacheMissInputCny := assign payload "BILLING_VISION_CACHE_MISS_INPUT_CNY"
        (valueF64 crates) billing.visionCacheMissInputCny
      visionOutputCny := assign payload "BILLING_VISION_OUTPUT_CNY" (valueF64 crates)
        billing.visionOutputCny }) {} billing

end

/-! ## Prices and models -/

section
variable (crates : PayloadCrates)

/-- `trim` of a text that was sent; a blank one removes the setting. -/
def sentText (text : Text) : Option Text := if text.trim = [] then none else some text.trim

def trimmedTexts (items : List Value) : List Text :=
  ((items.filterMap Value.asStr).map Text.trim).filter (· ≠ [])

/-- A field counts when it is sent with a value of its type. -/
def editField {α β : Type} (fields : List (Text × Value)) (key : Text) (read : Value → Option α)
    (write : α → β) (slot : β) : β :=
  match (fields.lookup key).bind read with
  | some value => write value
  | none => slot

def sentRate (rate : List (Text × Value)) (key : Text) : Option Float64 :=
  ((rate.lookup key).bind (asFloat64 crates)).filter Float64.isFiniteNonNegative

def applyRate (rate : List (Text × Value)) (entry : UserModelRatesConfig) :
    UserModelRatesConfig where
  cachedInput := (sentRate crates rate "cached_input").or entry.cachedInput
  cacheMissInput := (sentRate crates rate "cache_miss_input").or entry.cacheMissInput
  output := (sentRate crates rate "output").or entry.output

def applyRateEntry (resolved : BTreeMap Text UserModelRatesConfig) (entry : Text × Value) :
    BTreeMap Text UserModelRatesConfig :=
  let slug := entry.1.trim
  if slug = [] then resolved
  else match entry.2 with
    | .null => resolved.remove slug
    | .object rate => resolved.insert slug (applyRate crates rate ((resolved.get slug).getD {}))
    | _ => resolved

def UserModelRatesConfig.isSome (rate : UserModelRatesConfig) : Bool :=
  rate.cachedInput.isSome || rate.cacheMissInput.isSome || rate.output.isSome

def applyRates (rates : List (Text × Value))
    (stored : Option (BTreeMap Text UserModelRatesConfig)) :
    Option (BTreeMap Text UserModelRatesConfig) :=
  let resolved := (rates.foldl (applyRateEntry crates) (stored.getD .empty)).retain
    fun entry => entry.2.isSome
  if resolved.entries.isEmpty then none else some resolved

def applyCatalogPricingPayload (value : List (Text × Value)) (billing : UserBillingConfig) :
    UserBillingConfig :=
  { billing with
    peakValleyEnabled := editField value "peak_valley_enabled" Value.asBool some
      billing.peakValleyEnabled
    peakMultiplier := editField value "peak_multiplier" (asFloat64 crates) some billing.peakMultiplier
    timezone := editField value "timezone" Value.asStr sentText billing.timezone
    currency := editField value "currency" Value.asStr sentText billing.currency
    unit := editField value "unit" Value.asStr sentText billing.unit
    peakWindows := editField value "peak_windows" Value.asArray (fun windows =>
      some (trimmedTexts windows)) billing.peakWindows
    rates := editField value "rates" Value.asObject (fun rates =>
      applyRates crates rates billing.rates) billing.rates }

/-- A text, or a null that removes the setting. -/
def setString (model : List (Text × Value)) (key : Text) (slot : Option Text) : Option Text :=
  match model.lookup key with
  | some (.string text) => sentText text
  | some .null => none
  | _ => slot

def percentOfU64 (n : ℕ) : Option UInt8 :=
  if 1 ≤ n ∧ n ≤ 100 then some (UInt8.ofNat n) else none

def applyModelFields (model : List (Text × Value)) (entry : UserCatalogModelConfig) :
    UserCatalogModelConfig where
  displayName := setString model "display_name" entry.displayName
  shortDisplayName := setString model "short_display_name" entry.shortDisplayName
  description := setString model "description" entry.description
  upstreamSlug := setString model "upstream_slug" entry.upstreamSlug
  pricingGroup := setString model "pricing_group" entry.pricingGroup
  contextWindow :=
    ((((model.lookup ("context_window" : Text)).bind Value.asU64).filter (0 < ·)).map UInt64.ofNat).or
      entry.contextWindow
  effectiveContextWindowPercent :=
    editField model "effective_context_window_percent" Value.asU64 percentOfU64
      entry.effectiveContextWindowPercent
  aliases := match model.lookup ("aliases" : Text) with
    | some .null => none
    | some (.array aliases) => some (trimmedTexts aliases)
    | _ => entry.aliases
  isDefault := editField model "is_default" Value.asBool some entry.isDefault
  hidden := editField model "hidden" Value.asBool some entry.hidden

def applyModelEntry (models : BTreeMap Text UserCatalogModelConfig) (entry : Text × Value) :
    BTreeMap Text UserCatalogModelConfig :=
  let slug := entry.1.trim
  if slug = [] then models
  else match entry.2 with
    | .object model => models.insert slug (applyModelFields model ((models.get slug).getD {}))
    | _ => models

def applyCatalogModelsPayload (value : List (Text × Value))
    (models : BTreeMap Text UserCatalogModelConfig) : BTreeMap Text UserCatalogModelConfig :=
  value.foldl applyModelEntry models

end

/-! ## Network and tools -/

def clearLegacyWebSearchProxy (tools : UserToolsConfig) : UserToolsConfig :=
  -- the proxy has just been removed, so the section always goes, its backend included
  { tools with webSearch := none }

def networkProxyKeys : List Text := ["NETWORK_PROXY_MODE", "WEB_SEARCH_PROXY_MODE"]

def sentNetworkProxy (payload : Value) : Option NetworkProxyMode :=
  ((payload.get "NETWORK_PROXY_MODE").bind valueNetworkProxy).or
    ((payload.get "WEB_SEARCH_PROXY_MODE").bind valueNetworkProxy)

def editNetwork (payload : Value) (network : Option UserNetworkConfig) :
    Option UserNetworkConfig :=
  editSection payload networkProxyKeys (fun _ => { proxy := sentNetworkProxy payload }) {} network

def editWebSearch (payload : Value) (tools : Option UserToolsConfig) : Option UserToolsConfig :=
  let tools :=
    if networkProxyKeys.any (present payload) then tools.map clearLegacyWebSearchProxy else tools
  editSection payload ["WEB_SEARCH_BACKEND"]
    (fun tools => { tools with
      webSearch := some { (tools.webSearch.getD {}) with
        backend := (payload.get "WEB_SEARCH_BACKEND").bind valueWebSearchBackend } }) {} tools

def analyzeBackendKey : Text := "VISION_ANALYZE_BACKEND"
def imageDetailKey : Text := "VISION_IMAGE_DETAIL"
def analyzeDeepseekModelKey : Text := "VISION_DEEPSEEK_MODEL"
def analyzeUrlKey : Text := "VISION_ANALYZE_URL"
def analyzeModelKey : Text := "VISION_ANALYZE_MODEL"
def generateUrlKey : Text := "VISION_GENERATE_URL"
def generateModelKey : Text := "VISION_GENERATE_MODEL"
def analyzeApiKeyKey : Text := "VISION_ANALYZE_API_KEY"
def generateApiKeyKey : Text := "VISION_GENERATE_API_KEY"
def apiKeyKey : Text := "VISION_API_KEY"

/-- `crate::tools::vision::config_keys` -/
def visionConfigKeys : List Text :=
  [analyzeBackendKey, imageDetailKey, analyzeDeepseekModelKey, analyzeUrlKey, analyzeModelKey,
    generateUrlKey, generateModelKey, analyzeApiKeyKey, generateApiKeyKey, apiKeyKey]

def maxValueLen : ℕ := 2048

def valueToSettingString : Value → Option Text
  | .string text => some (text.take maxValueLen)
  | .bool b => some (if b then Text.lit "true" else Text.lit "false")
  | .number n => some (Value.numberText n)
  | _ => none

def sentAnalyzeBackend (value : Option Text) : Option VisionAnalyzeBackend :=
  value.bind fun text =>
    if text ∈ (["external", "custom"] : List Text) then some .external
    else if text = Text.lit "deepseek" then some .deepseek
    else none

def sentImageDetail (value : Option Text) : Option VisionImageDetail :=
  value.bind fun text =>
    if text = Text.lit "auto" then some .auto
    else if text = Text.lit "low" then some .low
    else if text = Text.lit "original" then some .original
    else none

/-- Keys of the vision tools go to their sections; an API key among them is not a setting. -/
def setVisionToolSetting (tools : UserToolsConfig) (key : Text) (value : Option Text) :
    UserToolsConfig :=
  let value := nonEmptyTrimmed value
  let analyze := tools.visionAnalyze.getD {}
  let generate := tools.visionGenerate.getD {}
  if key = analyzeBackendKey then
    { tools with visionAnalyze := some { analyze with backend := sentAnalyzeBackend value } }
  else if key = imageDetailKey then
    { tools with visionAnalyze := some { analyze with imageDetail := sentImageDetail value } }
  else if key = analyzeDeepseekModelKey then
    { tools with visionAnalyze := some { analyze with deepseekModel := value } }
  else if key = analyzeUrlKey then
    { tools with visionAnalyze := some { analyze with analyzeUrl := value } }
  else if key = analyzeModelKey then
    { tools with visionAnalyze := some { analyze with analyzeModel := value } }
  else if key = generateUrlKey then
    { tools with visionGenerate := some { generate with generateUrl := value } }
  else if key = generateModelKey then
    { tools with visionGenerate := some { generate with generateModel := value } }
  else tools

def editToolSetting (payload : Value) (tools : UserToolsConfig) (key : Text) : UserToolsConfig :=
  match payload.get key with
  | none => tools
  | some value =>
      if key ∈ visionConfigKeys then setVisionToolSetting tools key (valueToSettingString value)
      else match valueToSettingString value with
        | some text => { tools with settings := some ((tools.settings.getD .empty).insert key text) }
        | none => { tools with settings := tools.settings.map (·.remove key) }

def isBlankSetting (value : Option Text) : Bool := value.all Text.isBlank

def UserVisionToolConfig.isEmpty (vision : UserVisionToolConfig) : Bool :=
  vision.backend.isNone && vision.imageDetail.isNone && isBlankSetting vision.deepseekModel &&
    isBlankSetting vision.analyzeUrl && isBlankSetting vision.analyzeModel &&
    isBlankSetting vision.generateUrl && isBlankSetting vision.generateModel &&
    isBlankSetting vision.apiKey && isBlankSetting vision.analyzeApiKey

def UserVisionGenerateToolConfig.isEmpty (vision : UserVisionGenerateToolConfig) : Bool :=
  isBlankSetting vision.generateUrl && isBlankSetting vision.generateModel &&
    isBlankSetting vision.apiKey

/-- A map without entries is not kept. -/
def nonEmptySettings (settings : BTreeMap Text Text) : Option (BTreeMap Text Text) :=
  if settings.entries.isEmpty then none else some settings

def cleanupToolSettings (tools : UserToolsConfig) : UserToolsConfig :=
  { tools with
    settings := tools.settings.bind fun settings =>
      nonEmptySettings (settings.retain fun entry => entry.1 ∉ visionConfigKeys)
    visionAnalyze := tools.visionAnalyze.filter fun vision => !vision.isEmpty
    visionGenerate := tools.visionGenerate.filter fun vision => !vision.isEmpty }

def imageCapabilitySchemaVersion : UInt8 := 2

section
variable (crates : PayloadCrates) (payload : Value)

def toolConfigKeys : List Text := visionConfigKeys ++ crates.communityToolConfigKeys

def hasToolSettings : Bool := (toolConfigKeys crates).any (present payload)

def withEnabledTools (tools : UserToolsConfig) : UserToolsConfig :=
  { tools with
    capabilitySchemaVersion := some imageCapabilitySchemaVersion
    enabled := assign payload "ENABLED_TOOLS"
      (fun value => (valueStringList crates value).map configurableToolIds) tools.enabled }

def editTools (tools : Option UserToolsConfig) : Option UserToolsConfig :=
  if present payload "ENABLED_TOOLS" || hasToolSettings crates payload then
    let tools := withEnabledTools crates payload (tools.getD {})
    some (if hasToolSettings crates payload then
      cleanupToolSettings ((toolConfigKeys crates).foldl (editToolSetting payload) tools)
    else tools)
  else tools

/-- `user_config_from_payload` -/
def userConfigFromPayload (config : UserConfig) : UserConfig where
  proxy := editProxy payload config.proxy
  upstream := editUpstream payload config.upstream
  model := editModel payload config.model
  experimental := editExperimental payload config.experimental
  models :=
    match (payload.get "CATALOG_MODELS").bind Value.asObject with
    | some models => some (applyCatalogModelsPayload models (config.models.getD .empty))
    | none => config.models
  catalog := editCatalog payload config.catalog
  network := editNetwork payload config.network
  ui := editUi payload config.ui
  billing :=
    match (payload.get "CATALOG_PRICING").bind Value.asObject with
    | some pricing =>
        some (applyCatalogPricingPayload crates pricing
          ((editBilling crates payload config.billing).getD {}))
    | none => editBilling crates payload config.billing
  tools := editTools crates payload (editWebSearch payload config.tools)

end

end CodeSeeX.Config
