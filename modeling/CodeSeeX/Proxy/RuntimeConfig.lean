import CodeSeeX.Core.CatalogLayers

/-!
# The configuration of a running proxy

A refresh builds the configuration anew from the files and the catalog document. Digests of
hand-listed parts decide whether the new one takes effect and whether its subscribers hear
of it.
-/
namespace CodeSeeX.RuntimeConfig
open Catalog CodexConfig Config

inductive RuntimeConfigChangeSource where
  | proxyStartup
  | managerSave
  | configFile
  | systemProxy
  | catalogRefresh
  deriving DecidableEq

inductive RuntimeConfigChangeKind where
  | networkProxy
  | upstream
  | model
  | tools
  | ui
  | billing
  | proxyEndpoint
  deriving DecidableEq

/-- The process: its environment, the hasher of the standard library over a JSON text, and
the system proxy with its credentials redacted. -/
structure Process extends Environment where
  defaultHash : Text → UInt64
  systemProxyUrl : Option Text

def proxyCacheKey (process : Process) : NetworkProxyMode → Text
  | .system => "system:" ++ process.systemProxyUrl.getD "direct"
  | .none => "none"

def stablePayloadHash (process : Process) (value : Value) : Text :=
  Text.hex16 (process.defaultHash value.print)

/-! ## Snapshots -/

structure RuntimeConfigSnapshot where
  config : AppConfig
  configSignature : Text
  networkProxySignature : Text
  upstreamSignature : Text
  modelSignature : Text
  toolsSignature : Text
  uiSignature : Text
  billingSignature : Text
  proxyEndpointSignature : Text

/-- A section of the file; an unreadable file has none. -/
def sectionValue {α : Type} (user : Option UserConfig) (part : UserConfig → Option α)
    (toValue : α → Value) : Value :=
  optionValue toValue (user.bind part)

variable (user : Option UserConfig)

def modelSection : Value :=
  sectionValue user (·.model) UserModelConfig.toValue

def toolsSection : Value :=
  sectionValue user (·.tools) UserToolsConfig.toValue

def uiSection : Value :=
  sectionValue user (·.ui) UserUiConfig.toValue

def billingSection : Value :=
  sectionValue user (·.billing) UserBillingConfig.toValue

def modelsSection : Value :=
  sectionValue user (·.models) (mapValue UserCatalogModelConfig.toValue)

def catalogSection : Value :=
  sectionValue user (·.catalog) UserCatalogConfig.toValue

def upstreamValue (config : AppConfig) : Value :=
  .object [
    ("base_url", .string config.upstream.baseUrl),
    ("credential", .string (credentialLabel config.upstream.credential)),
    ("timeout_ms", u64Value config.upstream.timeoutMs),
    ("transport", .string config.upstream.transport.label)]

def endpointValue (config : AppConfig) : Value :=
  .object [("host", .string config.host), ("port", u64Value config.port.toUInt64)]

variable (process : Process)

def userConfigSectionSignature (value : Value) : Value :=
  .string (stablePayloadHash process value)

def modelValue (user : Option UserConfig) (config : AppConfig) : Value :=
  .object [
    ("override", .string config.modelOverride.label),
    ("temperature", .string config.temperature.label),
    ("user_model", userConfigSectionSignature process (modelSection user))]

def configValue (user : Option UserConfig) (config : AppConfig) : Value :=
  .object [
    ("billing", userConfigSectionSignature process (billingSection user)),
    ("catalog", .object [
      ("enabled", .bool config.catalogRemoteEnabled),
      ("models", userConfigSectionSignature process (modelsSection user)),
      ("revision", optionValue (fun document => .string document.revision) config.catalogRemote),
      ("source_url", optionValue .string config.catalogSourceUrl),
      ("user_catalog", userConfigSectionSignature process (catalogSection user))]),
    ("data_dir", .string config.dataDir),
    ("host", .string config.host),
    ("model", userConfigSectionSignature process (modelSection user)),
    ("model_override", .string config.modelOverride.label),
    ("network_proxy", .string config.networkProxy.label),
    ("network_proxy_signature", .string (proxyCacheKey process config.networkProxy)),
    ("port", u64Value config.port.toUInt64),
    ("temperature", .string config.temperature.label),
    ("tools", .object [
      ("config", userConfigSectionSignature process (toolsSection user)),
      ("web_search_backend", .string config.webSearchBackend.label)]),
    ("ui", userConfigSectionSignature process (uiSection user)),
    ("upstream", upstreamValue config)]

def fromConfig (user : Option UserConfig) (config : AppConfig) : RuntimeConfigSnapshot where
  config := config
  configSignature := stablePayloadHash process (configValue process user config)
  networkProxySignature := proxyCacheKey process config.networkProxy
  upstreamSignature := stablePayloadHash process (upstreamValue config)
  modelSignature := stablePayloadHash process (modelValue process user config)
  toolsSignature := stablePayloadHash process (toolsSection user)
  uiSignature := stablePayloadHash process (uiSection user)
  billingSignature := stablePayloadHash process (billingSection user)
  proxyEndpointSignature := stablePayloadHash process (endpointValue config)

/-- One kind, where its two signatures differ. -/
def changedKind (kind : RuntimeConfigChangeKind) (previous next : Text) :
    List RuntimeConfigChangeKind :=
  if previous ≠ next then [kind] else []

def changedKinds (previous next : RuntimeConfigSnapshot) : List RuntimeConfigChangeKind :=
  changedKind .networkProxy previous.networkProxySignature next.networkProxySignature ++
  changedKind .upstream previous.upstreamSignature next.upstreamSignature ++
  changedKind .model previous.modelSignature next.modelSignature ++
  changedKind .tools previous.toolsSignature next.toolsSignature ++
  changedKind .ui previous.uiSignature next.uiSignature ++
  changedKind .billing previous.billingSignature next.billingSignature ++
  changedKind .proxyEndpoint previous.proxyEndpointSignature next.proxyEndpointSignature

structure RuntimeConfigChange where
  source : RuntimeConfigChangeSource
  kinds : List RuntimeConfigChangeKind
  snapshot : RuntimeConfigSnapshot
  previous : Option RuntimeConfigSnapshot

/-! ## The service -/

/-- CodeSeeX's file and the files that may be Codex's, by their paths. -/
structure Files where
  user : ConfigFile
  codex : Text → ConfigFile

/-- `sent` lists the changes sent so far, the first one first. -/
structure RuntimeConfigService where
  base : AppConfig
  catalog : Option CatalogDocument
  snapshot : RuntimeConfigSnapshot
  sent : List RuntimeConfigChange

def buildConfig (base : AppConfig) (files : Files) (catalog : Option CatalogDocument) : AppConfig :=
  applyCodexConfig process.toEnvironment files.codex
    (applyRead process.toEnvironment (readFrom process.toEnvironment files.user)
      { base with catalogRemote := catalog })

def buildSnapshot (base : AppConfig) (files : Files) (catalog : Option CatalogDocument) :
    RuntimeConfigSnapshot :=
  fromConfig process (readFrom process.toEnvironment files.user)
    (buildConfig process base files catalog)

def RuntimeConfigService.new (base : AppConfig) (files : Files) : RuntimeConfigService where
  base := base
  catalog := base.catalogRemote
  snapshot := buildSnapshot process base files base.catalogRemote
  sent := []

/-- Whether `refresh` keeps the snapshot in use. -/
def sameSignatures (current next : RuntimeConfigSnapshot) : Bool :=
  current.configSignature = next.configSignature ∧
    current.networkProxySignature = next.networkProxySignature

def refreshKinds (source : RuntimeConfigChangeSource) (previous next : RuntimeConfigSnapshot) :
    List RuntimeConfigChangeKind :=
  let kinds := changedKinds previous next
  if source = .systemProxy ∧ .networkProxy ∉ kinds ∧
      previous.networkProxySignature ≠ next.networkProxySignature then
    kinds ++ [.networkProxy]
  else kinds

def refresh (files : Files) (source : RuntimeConfigChangeSource) (service : RuntimeConfigService) :
    RuntimeConfigService :=
  let next := buildSnapshot process service.base files service.catalog
  if sameSignatures service.snapshot next then service
  else
    let previous := service.snapshot
    let kinds := refreshKinds source previous next
    if kinds = [] then { service with snapshot := next }
    else
      { service with
        snapshot := next
        sent := service.sent ++
          [{ source := source, kinds := kinds, snapshot := next, previous := some previous }] }

def documentUnchanged : Option CatalogDocument → Option CatalogDocument → Bool
  | some current, some next => current.revision = next.revision
  | none, none => true
  | _, _ => false

def setCatalogDocument (files : Files) (document : Option CatalogDocument)
    (service : RuntimeConfigService) : RuntimeConfigService × Bool :=
  if documentUnchanged service.catalog document then (service, false)
  else (refresh process files .catalogRefresh { service with catalog := document }, true)

def activeConfig (service : RuntimeConfigService) : AppConfig := service.snapshot.config

end CodeSeeX.RuntimeConfig
