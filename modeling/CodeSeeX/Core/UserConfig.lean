import CodeSeeX.Core.Catalog
import CodeSeeX.Core.CodexConfig
import CodeSeeX.Proxy.SummaryProjector
import CodeSeeX.Proxy.UpstreamAuth

/-!
# The settings of a user

The sections of CodeSeeX's config file and how they are laid over a configuration. An
environment variable wins over the setting of the file.
-/
namespace CodeSeeX.Config
open Catalog CodexConfig Upstream
open Value (insertField)

/-! ## Values of settings -/

/-- A binary64 value. -/
inductive Float64 where
  | finite (d : Double)
  | infinite (negative : Bool)
  | nan

/-- `json!(value)`: what is not finite has no JSON number. -/
def Float64.toValue : Float64 → Value
  | finite d => .number (.float d)
  | _ => .null

theorem zero_shortest_chars :
    ∀ c ∈ ("0.0" : Text), c.isDigit ∨ c ∈ ['+', '-', '.', 'e'] := by
  intro c hc
  have hmem : c ∈ ['0', '.', '0'] := hc
  simp only [List.mem_cons, List.not_mem_nil, or_false] at hmem
  obtain rfl | rfl | rfl := hmem <;> simp

def Float64.zero : Float64 :=
  .finite ⟨0, 0, ("0.0" : Text), zero_shortest_chars⟩

/-- `value.is_finite() && value >= 0.0` -/
def Float64.isFiniteNonNegative : Float64 → Bool
  | finite d => 0 ≤ d.mantissa
  | _ => false

inductive UpstreamTransport where
  | nativeResponses
  | chatCompat
  deriving DecidableEq

inductive WebSearchBackend where
  | local_
  | official
  deriving DecidableEq

inductive NetworkProxyMode where
  | system
  | none
  deriving DecidableEq

inductive TemperaturePreset where
  | default
  | strict
  | balanced
  | general
  | creative
  deriving DecidableEq

inductive ModelThinking where
  | auto
  | enabled
  | disabled
  deriving DecidableEq

inductive VisionAnalyzeBackend where
  | deepseek
  | external
  deriving DecidableEq

inductive VisionImageDetail where
  | auto
  | low
  | original
  deriving DecidableEq

def modelFlash : Text := "deepseek-v4-flash"

/-- The labels that name a preset of the model override. -/
def presetLabels : List Text := ["", "default", "flash", modelFlash, "pro", modelPro]

/-- A pin on another model carries a label that names no preset. -/
inductive UpstreamModelOverride where
  | default
  | flash
  | pro
  | custom (slug : Text) (h : slug.toAsciiLowercase ∉ presetLabels)
  deriving DecidableEq

namespace UpstreamModelOverride

def fromLabel (value : Text) : UpstreamModelOverride :=
  if h : value.trim.toAsciiLowercase ∉ presetLabels then .custom value.trim h
  else if value.trim.toAsciiLowercase ∈ (["", "default"] : List Text) then .default
  else if value.trim.toAsciiLowercase ∈ ([("flash" : Text), modelFlash] : List Text) then .flash
  else .pro

def label : UpstreamModelOverride → Text
  | default => "default"
  | flash => "flash"
  | pro => "pro"
  | custom slug _ => slug

theorem label_ne_of_custom {slug : Text} (h : slug.toAsciiLowercase ∉ presetLabels) :
    slug ≠ label default ∧ slug ≠ label flash ∧ slug ≠ label pro := by
  refine ⟨?_, ?_, ?_⟩ <;>
  · intro heq
    subst heq
    exact h (by decide)

theorem label_injective : Function.Injective label := by
  intro a b h
  cases a with
  | custom slug hslug =>
    obtain ⟨hdefault, hflash, hpro⟩ := label_ne_of_custom hslug
    cases b with
    | custom other hother =>
      have heq : slug = other := h
      subst heq
      rfl
    | default => exact absurd h hdefault
    | flash => exact absurd h hflash
    | pro => exact absurd h hpro
  | _ =>
    cases b with
    | custom other hother =>
      obtain ⟨hdefault, hflash, hpro⟩ := label_ne_of_custom hother
      first | exact absurd h.symm hdefault | exact absurd h.symm hflash | exact absurd h.symm hpro
    | _ => first | rfl | exact absurd h (by decide)

end UpstreamModelOverride

/-- The lower-case label that a parser of settings compares. -/
def settingLabel (value : Text) : Text := value.trim.toAsciiLowercase

def parseModelThinking (value : Text) : Option ModelThinking :=
  if settingLabel value ∈ (["", "auto", "default"] : List Text) then some .auto
  else if settingLabel value ∈ (["enabled", "on", "enable"] : List Text) then some .enabled
  else if settingLabel value ∈ (["disabled", "off", "disable"] : List Text) then some .disabled
  else none

def parseReasoningSummaryMode (value : Text) : Option ReasoningSummaryMode :=
  if settingLabel value ∈ (["none", "off", "disabled"] : List Text) then some .none
  else if settingLabel value ∈ (["smart", "intelligent"] : List Text) then some .smart
  else if settingLabel value ∈ (["fixed", "trimmed", "truncate"] : List Text) then some .fixed
  else if settingLabel value ∈ (["full", "complete"] : List Text) then some .full
  else none

def parseUpstreamTransport (value : Text) : Option UpstreamTransport :=
  if settingLabel value ∈ (["", "native", "native_responses", "responses"] : List Text) then
    some .nativeResponses
  else if settingLabel value ∈ (["chat", "chat_compat", "compat"] : List Text) then
    some .chatCompat
  else none

def parseNetworkProxyMode (value : Text) : Option NetworkProxyMode :=
  if settingLabel value ∈ (["none", "no_proxy", "direct"] : List Text) then some .none
  else if settingLabel value ∈ (["system", "follow_system", "default", ""] : List Text) then
    some .system
  else none

def parseCredentialSource (value : Text) : Option UpstreamCredentialSource :=
  if settingLabel value ∈ (["", "auto", "default"] : List Text) then some .auto
  else if settingLabel value ∈ (["request", "client", "passthrough", "inbound"] : List Text) then
    some .request
  else if settingLabel value ∈ (["env", "environment", "deepseek_api_key"] : List Text) then
    some .env
  else if settingLabel value ∈ (["codex_auth", "codex-auth", "auth", "auth_json"] : List Text) then
    some .codexAuth
  else if settingLabel value ∈
      (["secret", "secret_store", "credential_store", "keyring"] : List Text) then
    some .secret
  else none

/-! ## The file -/

structure UserProxyConfig where
  host : Option Text := none
  port : Option UInt16 := none

structure UserUpstreamConfig where
  transport : Option UpstreamTransport := none
  credential : Option UpstreamCredentialSource := none
  apiKey : Option Text := none
  timeoutMs : Option UInt64 := none

structure UserModelConfig where
  overrideMode : Option UpstreamModelOverride := none
  temperature : Option TemperaturePreset := none
  thinking : Option Text := none

structure UserExperimentalConfig where
  reasoningSummaryMode : Option Text := none

structure UserCatalogConfig where
  sourceUrl : Option Text := none
  remoteEnabled : Option Bool := none

structure UserCatalogModelConfig where
  displayName : Option Text := none
  shortDisplayName : Option Text := none
  description : Option Text := none
  contextWindow : Option UInt64 := none
  effectiveContextWindowPercent : Option UInt8 := none
  upstreamSlug : Option Text := none
  aliases : Option (List Text) := none
  pricingGroup : Option Text := none
  isDefault : Option Bool := none
  hidden : Option Bool := none

structure UserNetworkConfig where
  proxy : Option NetworkProxyMode := none

structure UserUiConfig where
  theme : Option Text := none
  language : Option Text := none
  autoStart : Option Bool := none
  codexAppModelListInjection : Option Bool := none
  closeBehavior : Option Text := none
  logRetentionDays : Option UInt16 := none
  logVerbosity : Option Text := none

structure UserModelRatesConfig where
  cachedInput : Option Float64 := none
  cacheMissInput : Option Float64 := none
  output : Option Float64 := none

structure UserBillingConfig where
  peakValleyEnabled : Option Bool := none
  peakMultiplier : Option Float64 := none
  peakWindows : Option (List Text) := none
  timezone : Option Text := none
  currency : Option Text := none
  unit : Option Text := none
  rates : Option (BTreeMap Text UserModelRatesConfig) := none
  flashCachedInputCny : Option Float64 := none
  flashCacheMissInputCny : Option Float64 := none
  flashOutputCny : Option Float64 := none
  proCachedInputCny : Option Float64 := none
  proCacheMissInputCny : Option Float64 := none
  proOutputCny : Option Float64 := none
  visionCachedInputCny : Option Float64 := none
  visionCacheMissInputCny : Option Float64 := none
  visionOutputCny : Option Float64 := none

structure UserWebSearchToolConfig where
  proxy : Option NetworkProxyMode := none
  backend : Option WebSearchBackend := none

/-- The fields from `generateUrl` on are read from older files. -/
structure UserVisionToolConfig where
  backend : Option VisionAnalyzeBackend := none
  imageDetail : Option VisionImageDetail := none
  deepseekModel : Option Text := none
  analyzeUrl : Option Text := none
  analyzeModel : Option Text := none
  generateUrl : Option Text := none
  generateModel : Option Text := none
  apiKey : Option Text := none
  analyzeApiKey : Option Text := none

structure UserVisionGenerateToolConfig where
  generateUrl : Option Text := none
  generateModel : Option Text := none
  apiKey : Option Text := none

structure UserToolsConfig where
  capabilitySchemaVersion : Option UInt8 := none
  enabled : Option (List Text) := none
  webSearch : Option UserWebSearchToolConfig := none
  visionAnalyze : Option UserVisionToolConfig := none
  visionGenerate : Option UserVisionGenerateToolConfig := none
  settings : Option (BTreeMap Text Text) := none

structure UserConfig where
  proxy : Option UserProxyConfig := none
  upstream : Option UserUpstreamConfig := none
  model : Option UserModelConfig := none
  experimental : Option UserExperimentalConfig := none
  models : Option (BTreeMap Text UserCatalogModelConfig) := none
  catalog : Option UserCatalogConfig := none
  network : Option UserNetworkConfig := none
  ui : Option UserUiConfig := none
  billing : Option UserBillingConfig := none
  tools : Option UserToolsConfig := none

/-! ## The configuration in use -/

structure UpstreamConfig extends Upstream.UpstreamConfig where
  transport : UpstreamTransport
  timeoutMs : UInt64

/-- `CatalogModelOverride` has the fields of `UserCatalogModelConfig`, and its `From` copies
each of them. -/
abbrev CatalogModelOverride := UserCatalogModelConfig

structure CatalogOverrides where
  models : BTreeMap Text CatalogModelOverride := .empty
  pricing : Option Value := none

def CatalogOverrides.isEmpty (overrides : CatalogOverrides) : Bool :=
  overrides.models.entries.isEmpty && overrides.pricing.isNone

structure AppConfig where
  dataDir : Text
  host : Text
  port : UInt16
  upstream : UpstreamConfig
  modelOverride : UpstreamModelOverride
  temperature : TemperaturePreset
  thinking : ModelThinking
  networkProxy : NetworkProxyMode
  webSearchBackend : WebSearchBackend
  catalogSourceUrl : Option Text
  catalogRemoteEnabled : Bool
  catalogOverrides : CatalogOverrides
  catalogRemote : Option CatalogDocument
  catalogCache : Option CatalogDocument
  reasoningSummaryMode : ReasoningSummaryMode
  codexConfigPath : Option Text
  codexConfigResolve : Bool

/-! ## The file as JSON -/

def optionValue {α : Type} (toValue : α → Value) : Option α → Value
  | some value => toValue value
  | none => .null

def u64Value (n : UInt64) : Value := .number (.posInt n)

def textsValue (texts : List Text) : Value := .array (texts.map .string)

def mapValue {α : Type} (toValue : α → Value) (map : BTreeMap Text α) : Value :=
  .object (map.entries.map fun entry => (entry.1, toValue entry.2))

def TemperaturePreset.label : TemperaturePreset → Text
  | default => "default"
  | strict => "strict"
  | balanced => "balanced"
  | general => "general"
  | creative => "creative"

def NetworkProxyMode.label : NetworkProxyMode → Text
  | system => "system"
  | none => "none"

def WebSearchBackend.label : WebSearchBackend → Text
  | local_ => "local"
  | official => "official"

def UpstreamTransport.label : UpstreamTransport → Text
  | nativeResponses => "native_responses"
  | chatCompat => "chat_compat"

def credentialLabel : UpstreamCredentialSource → Text
  | .auto => "auto"
  | .request => "request"
  | .env => "env"
  | .codexAuth => "codex_auth"
  | .secret => "secret"

def VisionAnalyzeBackend.label : VisionAnalyzeBackend → Text
  | deepseek => "deepseek"
  | external => "external"

def VisionImageDetail.label : VisionImageDetail → Text
  | auto => "auto"
  | low => "low"
  | original => "original"

def UserModelConfig.toValue (model : UserModelConfig) : Value :=
  .object [
    ("override", optionValue (fun mode => .string mode.label) model.overrideMode),
    ("temperature", optionValue (fun preset => .string preset.label) model.temperature),
    ("thinking", optionValue .string model.thinking)]

def UserCatalogConfig.toValue (catalog : UserCatalogConfig) : Value :=
  .object [
    ("remote_enabled", optionValue .bool catalog.remoteEnabled),
    ("source_url", optionValue .string catalog.sourceUrl)]

def UserCatalogModelConfig.toValue (model : UserCatalogModelConfig) : Value :=
  .object [
    ("aliases", optionValue textsValue model.aliases),
    ("context_window", optionValue u64Value model.contextWindow),
    ("description", optionValue .string model.description),
    ("display_name", optionValue .string model.displayName),
    ("effective_context_window_percent",
      optionValue (fun n => u64Value n.toUInt64) model.effectiveContextWindowPercent),
    ("hidden", optionValue .bool model.hidden),
    ("is_default", optionValue .bool model.isDefault),
    ("pricing_group", optionValue .string model.pricingGroup),
    ("short_display_name", optionValue .string model.shortDisplayName),
    ("upstream_slug", optionValue .string model.upstreamSlug)]

def UserUiConfig.toValue (ui : UserUiConfig) : Value :=
  .object [
    ("auto_start", optionValue .bool ui.autoStart),
    ("close_behavior", optionValue .string ui.closeBehavior),
    ("codex_app_model_list_injection", optionValue .bool ui.codexAppModelListInjection),
    ("language", optionValue .string ui.language),
    ("log_retention_days", optionValue (fun n => u64Value n.toUInt64) ui.logRetentionDays),
    ("log_verbosity", optionValue .string ui.logVerbosity),
    ("theme", optionValue .string ui.theme)]

def UserModelRatesConfig.toValue (rates : UserModelRatesConfig) : Value :=
  .object [
    ("cache_miss_input", optionValue Float64.toValue rates.cacheMissInput),
    ("cached_input", optionValue Float64.toValue rates.cachedInput),
    ("output", optionValue Float64.toValue rates.output)]

def UserBillingConfig.toValue (billing : UserBillingConfig) : Value :=
  .object [
    ("currency", optionValue .string billing.currency),
    ("flash_cache_miss_input_cny", optionValue Float64.toValue billing.flashCacheMissInputCny),
    ("flash_cached_input_cny", optionValue Float64.toValue billing.flashCachedInputCny),
    ("flash_output_cny", optionValue Float64.toValue billing.flashOutputCny),
    ("peak_multiplier", optionValue Float64.toValue billing.peakMultiplier),
    ("peak_valley_enabled", optionValue .bool billing.peakValleyEnabled),
    ("peak_windows", optionValue textsValue billing.peakWindows),
    ("pro_cache_miss_input_cny", optionValue Float64.toValue billing.proCacheMissInputCny),
    ("pro_cached_input_cny", optionValue Float64.toValue billing.proCachedInputCny),
    ("pro_output_cny", optionValue Float64.toValue billing.proOutputCny),
    ("rates", optionValue (mapValue UserModelRatesConfig.toValue) billing.rates),
    ("timezone", optionValue .string billing.timezone),
    ("unit", optionValue .string billing.unit),
    ("vision_cache_miss_input_cny", optionValue Float64.toValue billing.visionCacheMissInputCny),
    ("vision_cached_input_cny", optionValue Float64.toValue billing.visionCachedInputCny),
    ("vision_output_cny", optionValue Float64.toValue billing.visionOutputCny)]

def UserWebSearchToolConfig.toValue (webSearch : UserWebSearchToolConfig) : Value :=
  .object [
    ("backend", optionValue (fun backend => .string backend.label) webSearch.backend),
    ("proxy", optionValue (fun mode => .string mode.label) webSearch.proxy)]

def UserVisionToolConfig.toValue (vision : UserVisionToolConfig) : Value :=
  .object [
    ("analyze_api_key", optionValue .string vision.analyzeApiKey),
    ("analyze_model", optionValue .string vision.analyzeModel),
    ("analyze_url", optionValue .string vision.analyzeUrl),
    ("api_key", optionValue .string vision.apiKey),
    ("backend", optionValue (fun backend => .string backend.label) vision.backend),
    ("deepseek_model", optionValue .string vision.deepseekModel),
    ("generate_model", optionValue .string vision.generateModel),
    ("generate_url", optionValue .string vision.generateUrl),
    ("image_detail", optionValue (fun detail => .string detail.label) vision.imageDetail)]

def UserVisionGenerateToolConfig.toValue (vision : UserVisionGenerateToolConfig) : Value :=
  .object [
    ("api_key", optionValue .string vision.apiKey),
    ("generate_model", optionValue .string vision.generateModel),
    ("generate_url", optionValue .string vision.generateUrl)]

def UserToolsConfig.toValue (tools : UserToolsConfig) : Value :=
  .object [
    ("capability_schema_version",
      optionValue (fun n => u64Value n.toUInt64) tools.capabilitySchemaVersion),
    ("enabled", optionValue textsValue tools.enabled),
    ("settings", optionValue (mapValue .string) tools.settings),
    ("vision_analyze", optionValue UserVisionToolConfig.toValue tools.visionAnalyze),
    ("vision_generate", optionValue UserVisionGenerateToolConfig.toValue tools.visionGenerate),
    ("web_search", optionValue UserWebSearchToolConfig.toValue tools.webSearch)]

/-! ## The price list of a user -/

/-- `text.parse::<u32>().ok()` -/
def parseU32 (text : Text) : Option ℕ :=
  (Text.parseDigits (match text with | '+' :: digits => digits | digits => digits)).filter (· < 2 ^ 32)

def parseHhmm (value : Text) : Option ℕ := do
  let (hour, minute) ← Text.splitOnce ":" value.trim
  let hour ← parseU32 hour.trim
  let minute ← parseU32 minute.trim
  if hour > 23 ∨ minute > 59 then none else some (hour * 60 + minute)

/-- `{:02}` of a number below a hundred. -/
def twoDigits (n : ℕ) : Text := if n < 10 then '0' :: Text.ofNat n else Text.ofNat n

def minuteToHhmm (minute : ℕ) : Text :=
  twoDigits (minute / 60) ++ ':' :: twoDigits (minute % 60)

def parsePeakWindowSpec (value : Text) : Option Value := do
  let raw := value.trim
  let (start, stop) ← ((Text.splitOnce "-" raw).or (Text.splitOnce ".." raw)).or
    (Text.splitOnce "~" raw)
  let start ← parseHhmm start
  let stop ← parseHhmm stop
  if start ≥ stop then none
  else some (.object [("from", .string (minuteToHhmm start)), ("to", .string (minuteToHhmm stop))])

/-- The value under the key, when there is one. -/
def insertSome (key : Text) (value : Option Value) (fields : List (Text × Value)) :
    List (Text × Value) :=
  match value with
  | some value => insertField key value fields
  | none => fields

/-- `text.map(str::trim).filter(|text| !text.is_empty())` -/
def nonEmptyTrimmed (text : Option Text) : Option Text := (text.map Text.trim).filter (· ≠ [])

/-- Rates that lack a value have zero for it. -/
def ratesValue (cached cacheMiss output : Option Float64) : Option Value :=
  let values := [cached.getD .zero, cacheMiss.getD .zero, output.getD .zero]
  if values.all Float64.isFiniteNonNegative then
    some (.object [("cache_miss_input", (cacheMiss.getD .zero).toValue),
      ("cached_input", (cached.getD .zero).toValue), ("output", (output.getD .zero).toValue)])
  else none

def legacyRate (slug : Text) (cached cacheMiss output : Option Float64) : List (Text × Value) :=
  if cached.isNone && cacheMiss.isNone && output.isNone then []
  else match ratesValue cached cacheMiss output with
    | some rates => [(slug, rates)]
    | none => []

/-- The rate fields of older files, under the built-in slugs. -/
def legacyBillingRates (billing : UserBillingConfig) : List (Text × Value) :=
  legacyRate modelFlash billing.flashCachedInputCny billing.flashCacheMissInputCny
      billing.flashOutputCny ++
    legacyRate modelPro billing.proCachedInputCny billing.proCacheMissInputCny
      billing.proOutputCny ++
    legacyRate "deepseek-v4-flash-vision-exp" billing.visionCachedInputCny
      billing.visionCacheMissInputCny billing.visionOutputCny

def configuredRate (rates : List (Text × Value)) (entry : Text × UserModelRatesConfig) :
    List (Text × Value) :=
  if entry.1.trim = [] then rates
  else insertSome entry.1.trim
    (ratesValue entry.2.cachedInput entry.2.cacheMissInput entry.2.output) rates

/-- `rates.entry(slug).or_insert(legacy)` -/
def orInsertField (rates : List (Text × Value)) (entry : Text × Value) : List (Text × Value) :=
  if (rates.lookup entry.1).isSome then rates else insertField entry.1 entry.2 rates

def billingRates (billing : UserBillingConfig) : List (Text × Value) :=
  let configured := ((billing.rates.map BTreeMap.entries).getD []).foldl configuredRate []
  (legacyBillingRates billing).foldl orInsertField configured

def pricingOverrideFromUserBilling (billing : UserBillingConfig) : Option Value :=
  let windows := (billing.peakWindows.map (·.filterMap parsePeakWindowSpec)).filter (· ≠ [])
  let rates := billingRates billing
  let fields := insertSome "peak_valley_enabled" (billing.peakValleyEnabled.map .bool) []
  let fields := insertSome "peak_multiplier" (billing.peakMultiplier.map Float64.toValue) fields
  let fields := insertSome "timezone" ((nonEmptyTrimmed billing.timezone).map .string) fields
  let fields := insertSome "currency" ((nonEmptyTrimmed billing.currency).map .string) fields
  let fields := insertSome "unit" ((nonEmptyTrimmed billing.unit).map .string) fields
  let fields := insertSome "peak_windows" (windows.map .array) fields
  let fields := if rates = [] then fields else insertField "rates" (.object rates) fields
  if fields = [] then none else some (.object fields)

/-! ## Laying a file over a configuration -/

/-- The process environment, the path of Codex's file when it is looked up, and the crates
that read texts. -/
structure Environment where
  var : Text → Option Text
  resolveCodexConfigPath : Option Text
  toml : Toml
  urls : UrlCrate
  /-- `toml::from_str::<UserConfig>(text).ok()` -/
  parseUserConfig : Text → Option UserConfig

/-- A setting of the file counts where its environment variable is not set. -/
def Environment.choose {α : Type} (env : Environment) (name : Text) (setting : Option α)
    (current : α) : α :=
  if (env.var name).isNone then setting.getD current else current

def catalogModelOverrides (models : BTreeMap Text UserCatalogModelConfig) :
    BTreeMap Text CatalogModelOverride :=
  models.entries.foldl (fun overrides entry =>
    if entry.1.trim = [] then overrides else overrides.insert entry.1.trim entry.2) .empty

def catalogOverridesOf (user : UserConfig) : CatalogOverrides where
  models := (user.models.map catalogModelOverrides).getD .empty
  pricing := user.billing.bind pricingOverrideFromUserBilling

def userNetworkProxy (user : UserConfig) : Option NetworkProxyMode :=
  (user.network.bind (·.proxy)).or
    ((user.tools.bind (·.webSearch)).bind (·.proxy))

def applyUserConfig (env : Environment) (config : AppConfig) (user : UserConfig) : AppConfig :=
  let remoteEnabled := env.choose "CODESEEX_CATALOG_REMOTE"
    (user.catalog.bind (·.remoteEnabled)) config.catalogRemoteEnabled
  { config with
    host := env.choose "CODESEEX_HOST"
      ((user.proxy.bind (·.host)).filter fun host => !host.isBlank) config.host
    port := env.choose "CODESEEX_PORT" (user.proxy.bind (·.port)) config.port
    upstream := { config.upstream with
      transport := env.choose "DEEPSEEK_TRANSPORT"
        (user.upstream.bind (·.transport)) config.upstream.transport
      credential := env.choose "DEEPSEEK_CREDENTIAL_SOURCE"
        (user.upstream.bind (·.credential)) config.upstream.credential
      timeoutMs := env.choose "UPSTREAM_REQUEST_TIMEOUT_MS"
        (user.upstream.bind (·.timeoutMs)) config.upstream.timeoutMs }
    modelOverride := env.choose "UPSTREAM_MODEL_OVERRIDE"
      (user.model.bind (·.overrideMode)) config.modelOverride
    temperature := env.choose "DEEPSEEK_TEMPERATURE_PRESET"
      (user.model.bind (·.temperature)) config.temperature
    thinking := env.choose "DEEPSEEK_THINKING"
      ((user.model.bind (·.thinking)).bind parseModelThinking) config.thinking
    catalogSourceUrl := env.choose "CODESEEX_CATALOG_URL"
      ((nonEmptyTrimmed (user.catalog.bind (·.sourceUrl))).map some) config.catalogSourceUrl
    catalogRemoteEnabled := remoteEnabled
    catalogOverrides := catalogOverridesOf user
    catalogRemote := if remoteEnabled then config.catalogRemote else none
    catalogCache := if remoteEnabled then config.catalogCache else none
    networkProxy :=
      if (env.var "NETWORK_PROXY_MODE").isNone ∧ (env.var "WEB_SEARCH_PROXY_MODE").isNone then
        (userNetworkProxy user).getD config.networkProxy
      else config.networkProxy
    webSearchBackend := env.choose "WEB_SEARCH_BACKEND"
      ((user.tools.bind (·.webSearch)).bind (·.backend)) config.webSearchBackend
    reasoningSummaryMode :=
      ((user.experimental.bind (·.reasoningSummaryMode)).bind parseReasoningSummaryMode).getD
        config.reasoningSummaryMode }

/-- `if let Ok(user_config) = UserConfig::read_from(path) { config.apply_user_config(user_config) }` -/
def applyRead (env : Environment) (user : Option UserConfig) (config : AppConfig) : AppConfig :=
  match user with
  | some user => applyUserConfig env config user
  | none => config

/-- `UserConfig::read_from`; a file that is not there has no settings. -/
def readFrom (env : Environment) : ConfigFile → Option UserConfig
  | .missing => some {}
  | .text text => env.parseUserConfig (stripMark text)
  | .unreadable _ => none

/-- A blank variable is not an override. -/
def envBaseUrlIsConfigured (env : Environment) : Bool :=
  (env.var "DEEPSEEK_BASE_URL").any fun value => !value.isBlank

/-- The path of Codex's file, looked up where the configuration asks for it. -/
def codexPath (env : Environment) (config : AppConfig) : Option Text :=
  if config.codexConfigPath.isNone ∧ config.codexConfigResolve then env.resolveCodexConfigPath
  else config.codexConfigPath

/-- `AppConfig::apply_codex_config`; `codex` gives the file at a path. -/
def applyCodexConfig (env : Environment) (codex : Text → ConfigFile) (config : AppConfig) :
    AppConfig :=
  if envBaseUrlIsConfigured env then config
  else match codexPath env config with
    | none => config
    | some path =>
        { config with
          codexConfigPath := some path
          upstream := { config.upstream with
            baseUrl := normalizeBaseUrl env.urls
              ((readUpstreamBaseUrlFrom env.toml (codex path)).getD []) } }

end CodeSeeX.Config
