import CodeSeeX.Core.CatalogMerge
import CodeSeeX.General.Runs
import CodeSeeX.Proxy.RuntimeConfig

/-!
# What a refresh leaves out

The digests of a refresh cover some of the settings of a user. A change of the others alone
is not applied, or is applied and not announced.
-/
namespace CodeSeeX.RuntimeConfig
open Catalog CodexConfig Config List

variable (env : Environment) (embedded : CatalogDocument)

/-! ## Settings -/

/-- The fields of a configuration that `apply_user_config` can set. -/
structure Settings where
  host : Text
  port : UInt16
  transport : UpstreamTransport
  credential : Upstream.UpstreamCredentialSource
  timeoutMs : UInt64
  modelOverride : UpstreamModelOverride
  temperature : TemperaturePreset
  thinking : ModelThinking
  networkProxy : NetworkProxyMode
  webSearchBackend : WebSearchBackend
  catalogSourceUrl : Option Text
  catalogRemoteEnabled : Bool
  catalogOverrides : CatalogOverrides
  catalogRemote : Option CatalogDocument
  catalogCache : Option CatalogDocument
  reasoningSummaryMode : ReasoningSummaryMode

def settings (config : AppConfig) : Settings where
  host := config.host
  port := config.port
  transport := config.upstream.transport
  credential := config.upstream.credential
  timeoutMs := config.upstream.timeoutMs
  modelOverride := config.modelOverride
  temperature := config.temperature
  thinking := config.thinking
  networkProxy := config.networkProxy
  webSearchBackend := config.webSearchBackend
  catalogSourceUrl := config.catalogSourceUrl
  catalogRemoteEnabled := config.catalogRemoteEnabled
  catalogOverrides := config.catalogOverrides
  catalogRemote := config.catalogRemote
  catalogCache := config.catalogCache
  reasoningSummaryMode := config.reasoningSummaryMode

theorem settings_applyCodexConfig (codex : Text → ConfigFile) (config : AppConfig) :
    settings (applyCodexConfig env codex config) = settings config := by
  unfold applyCodexConfig
  split_ifs
  · rfl
  · split <;> rfl

/-- The prices in effect are those of the catalog fields. -/
theorem pricingTable_of_settings {a b : AppConfig} (h : settings a = settings b) :
    a.pricingTable embedded = b.pricingTable embedded := by
  have hremote : a.catalogRemote = b.catalogRemote := congrArg Settings.catalogRemote h
  have hoverrides : a.catalogOverrides = b.catalogOverrides :=
    congrArg Settings.catalogOverrides h
  simp only [AppConfig.pricingTable, AppConfig.catalogDocument, hremote, hoverrides]

/-! ## Runs -/

/-- What a snapshot is built from. -/
structure Inputs where
  files : Files
  catalog : Option CatalogDocument

/-- The files and the service. `applied` is what the snapshot in use was built from, which the
code does not keep. -/
structure World where
  files : Files
  service : RuntimeConfigService
  applied : Inputs

inductive Action where
  | write (files : Files)
  | refresh (source : RuntimeConfigChangeSource)
  | setCatalogDocument (document : Option CatalogDocument)

/-- The world with the service that a call leaves. -/
def World.accept (world : World) (service : RuntimeConfigService) : World where
  files := world.files
  service := service
  applied :=
    if sameSignatures world.service.snapshot service.snapshot then world.applied
    else ⟨world.files, service.catalog⟩

section
variable (process : Process)

def World.start (base : AppConfig) (files : Files) : World where
  files := files
  service := .new process base files
  applied := ⟨files, base.catalogRemote⟩

def step (world : World) : Action → World
  | .write files => { world with files := files }
  | .refresh source => world.accept (refresh process world.files source world.service)
  | .setCatalogDocument document =>
      world.accept (setCatalogDocument process world.files document world.service).1

/-- The files and the document that are there once the action has set its document. -/
def Action.inputs (world : World) : Action → Inputs
  | .setCatalogDocument document => ⟨world.files, document⟩
  | _ => ⟨world.files, world.service.catalog⟩

/-- Whether the action makes a refresh. -/
def Action.Refreshes (world : World) : Action → Prop
  | .write _ => False
  | .refresh _ => True
  | .setCatalogDocument document => documentUnchanged world.service.catalog document = false

def configOf (base : AppConfig) (inputs : Inputs) : AppConfig :=
  buildConfig process base inputs.files inputs.catalog

def snapshotOf (base : AppConfig) (inputs : Inputs) : RuntimeConfigSnapshot :=
  buildSnapshot process base inputs.files inputs.catalog

/-- The prices or a field that a file can set. -/
def Changed (embedded : CatalogDocument) (a b : AppConfig) : Prop :=
  a.pricingTable embedded ≠ b.pricingTable embedded ∨ settings a ≠ settings b

/-- A refresh leaves the settings of the files and the document in effect, and its subscribers
hear of a change of them. -/
def RefreshesExactly (embedded : CatalogDocument) (world : World) (action : Action) : Prop :=
  action.Refreshes world →
    settings (activeConfig (step process world action).service) =
        settings (configOf process world.service.base (action.inputs world)) ∧
      (Changed embedded (activeConfig world.service)
          (activeConfig (step process world action).service) →
        ∃ change, (step process world action).service.sent = world.service.sent ++ [change])

/-! ## The condition -/

/-- What a kind of change is about. -/
structure AnnouncedSettings where
  networkProxyKey : Text
  baseUrl : Text
  transport : UpstreamTransport
  credential : Upstream.UpstreamCredentialSource
  timeoutMs : UInt64
  modelOverride : UpstreamModelOverride
  temperature : TemperaturePreset
  model : Value
  tools : Value
  ui : Value
  billing : Value
  host : Text
  port : UInt16

def userOf (inputs : Inputs) : Option UserConfig :=
  readFrom process.toEnvironment inputs.files.user

def announced (base : AppConfig) (inputs : Inputs) : AnnouncedSettings :=
  let config := configOf process base inputs
  let user := userOf process inputs
  { networkProxyKey := proxyCacheKey process config.networkProxy
    baseUrl := config.upstream.baseUrl
    transport := config.upstream.transport
    credential := config.upstream.credential
    timeoutMs := config.upstream.timeoutMs
    modelOverride := config.modelOverride
    temperature := config.temperature
    model := modelSection user
    tools := toolsSection user
    ui := uiSection user
    billing := billingSection user
    host := config.host
    port := config.port }

/-- The settings that no kind of change is about. -/
structure SilentSettings where
  catalogSourceUrl : Option Text
  catalogRemoteEnabled : Bool
  catalogOverrides : CatalogOverrides
  catalogRemote : Option CatalogDocument
  catalogCache : Option CatalogDocument
  reasoningSummaryMode : ReasoningSummaryMode

def silent (config : AppConfig) : SilentSettings where
  catalogSourceUrl := config.catalogSourceUrl
  catalogRemoteEnabled := config.catalogRemoteEnabled
  catalogOverrides := config.catalogOverrides
  catalogRemote := config.catalogRemote
  catalogCache := config.catalogCache
  reasoningSummaryMode := config.reasoningSummaryMode

/-- A refresh comes with a change that a kind is about, or without a change of the settings that
no kind is about. -/
def Covered (world : World) (action : Action) : Prop :=
  action.Refreshes world →
    announced process world.service.base world.applied ≠
        announced process world.service.base (action.inputs world) ∨
      silent (configOf process world.service.base world.applied) =
        silent (configOf process world.service.base (action.inputs world))

/-- The values whose digests are compared. -/
def digested (base : AppConfig) (inputs : Inputs) : List Value :=
  let config := configOf process base inputs
  let user := userOf process inputs
  [configValue process user config, upstreamValue config, modelValue process user config,
    endpointValue config, modelSection user, toolsSection user, uiSection user,
    billingSection user]

/-- Two values that share a digest only when they are the same. -/
def Apart (v w : Value) : Prop := stablePayloadHash process v = stablePayloadHash process w → v = w

def DigestsApart (base : AppConfig) (a b : Inputs) : Prop :=
  ∀ pair ∈ (digested process base a).zip (digested process base b), Apart process pair.1 pair.2

def TellsApart (world : World) (action : Action) : Prop :=
  action.Refreshes world →
    DigestsApart process world.service.base world.applied (action.inputs world)

/-! ## What the digests cover -/

theorem UpstreamTransport.label_injective : Function.Injective UpstreamTransport.label := by
  intro a b h
  cases a <;> cases b <;> first | rfl | exact absurd h (by decide)

theorem TemperaturePreset.label_injective : Function.Injective TemperaturePreset.label := by
  intro a b h
  cases a <;> cases b <;> first | rfl | exact absurd h (by decide)

theorem WebSearchBackend.label_injective : Function.Injective WebSearchBackend.label := by
  intro a b h
  cases a <;> cases b <;> first | rfl | exact absurd h (by decide)

theorem credentialLabel_injective : Function.Injective credentialLabel := by
  intro a b h
  cases a <;> cases b <;> first | rfl | exact absurd h (by decide)

theorem proxyCacheKey_injective : Function.Injective (proxyCacheKey process) := by
  have hne : proxyCacheKey process .system ≠ proxyCacheKey process .none := by
    intro h
    have hhead := congrArg head? h
    exact absurd hhead (by simp [proxyCacheKey, Text.lit])
  intro a b h
  cases a <;> cases b <;> first | rfl | exact absurd h hne | exact absurd h.symm hne

section
variable {process} {base : AppConfig} {a b : Inputs}

variable {c d : AppConfig}

theorem upstream_of_value (h : upstreamValue c = upstreamValue d) :
    c.upstream.baseUrl = d.upstream.baseUrl ∧ c.upstream.transport = d.upstream.transport ∧
      c.upstream.credential = d.upstream.credential ∧
      c.upstream.timeoutMs = d.upstream.timeoutMs := by
  simp only [upstreamValue, u64Value, Value.object.injEq, cons.injEq, Prod.mk.injEq,
    Value.string.injEq, Value.number.injEq, Number.posInt.injEq, true_and, and_true] at h
  obtain ⟨hurl, hcredential, htimeout, htransport⟩ := h
  exact ⟨hurl, UpstreamTransport.label_injective htransport, credentialLabel_injective hcredential,
    htimeout⟩

theorem endpoint_of_value (h : endpointValue c = endpointValue d) :
    c.host = d.host ∧ c.port = d.port := by
  simp only [endpointValue, u64Value, Value.object.injEq, cons.injEq, Prod.mk.injEq,
    Value.string.injEq, Value.number.injEq, Number.posInt.injEq, true_and, and_true] at h
  obtain ⟨hhost, hport⟩ := h
  exact ⟨hhost, UInt16.toUInt64_inj.mp hport⟩

variable {user other : Option UserConfig}

theorem model_of_value (h : modelValue process user c = modelValue process other d) :
    c.modelOverride = d.modelOverride ∧ c.temperature = d.temperature ∧
      stablePayloadHash process (modelSection user) =
        stablePayloadHash process (modelSection other) := by
  simp only [modelValue, userConfigSectionSignature, Value.object.injEq, cons.injEq,
    Prod.mk.injEq, Value.string.injEq, true_and, and_true] at h
  obtain ⟨hoverride, htemperature, hsection⟩ := h
  exact ⟨UpstreamModelOverride.label_injective hoverride,
    TemperaturePreset.label_injective htemperature, hsection⟩

theorem config_of_value (h : configValue process user c = configValue process other d) :
    stablePayloadHash process (modelSection user) =
        stablePayloadHash process (modelSection other) ∧
      stablePayloadHash process (toolsSection user) =
        stablePayloadHash process (toolsSection other) ∧
      stablePayloadHash process (uiSection user) = stablePayloadHash process (uiSection other) ∧
      stablePayloadHash process (billingSection user) =
        stablePayloadHash process (billingSection other) ∧
      c.modelOverride = d.modelOverride ∧ c.temperature = d.temperature ∧
      c.host = d.host ∧ c.port = d.port ∧ upstreamValue c = upstreamValue d := by
  simp only [configValue, userConfigSectionSignature, u64Value, Value.object.injEq,
    cons.injEq, Prod.mk.injEq, Value.string.injEq, Value.number.injEq, Number.posInt.injEq,
    Value.bool.injEq, true_and, and_true] at h
  obtain ⟨hbilling, -, -, hhost, hmodel, hoverride, -, -, hport, htemperature, ⟨htools, -⟩, hui,
    hupstream⟩ := h
  exact ⟨hmodel, htools, hui, hbilling, UpstreamModelOverride.label_injective hoverride,
    TemperaturePreset.label_injective htemperature, hhost, UInt16.toUInt64_inj.mp hport, hupstream⟩

/-- The parts that the kinds are about, from the values that are digested for them. -/
theorem announced_eq
    (hproxy : proxyCacheKey process (configOf process base a).networkProxy =
      proxyCacheKey process (configOf process base b).networkProxy)
    (hupstream : upstreamValue (configOf process base a) = upstreamValue (configOf process base b))
    (hmodel : modelSection (userOf process a) = modelSection (userOf process b) ∧
      (configOf process base a).modelOverride = (configOf process base b).modelOverride ∧
      (configOf process base a).temperature = (configOf process base b).temperature)
    (htools : toolsSection (userOf process a) = toolsSection (userOf process b))
    (hui : uiSection (userOf process a) = uiSection (userOf process b))
    (hbilling : billingSection (userOf process a) = billingSection (userOf process b))
    (hendpoint : (configOf process base a).host = (configOf process base b).host ∧
      (configOf process base a).port = (configOf process base b).port) :
    announced process base a = announced process base b := by
  obtain ⟨hurl, htransport, hcredential, htimeout⟩ := upstream_of_value hupstream
  obtain ⟨hsection, hoverride, htemperature⟩ := hmodel
  obtain ⟨hhost, hport⟩ := hendpoint
  simp only [announced, hproxy, hurl, htransport, hcredential, htimeout, hsection, hoverride,
    htemperature, htools, hui, hbilling, hhost, hport]

theorem sameSignatures_iff {current next : RuntimeConfigSnapshot} :
    sameSignatures current next = true ↔ current.configSignature = next.configSignature ∧
      current.networkProxySignature = next.networkProxySignature := by
  simp [sameSignatures]

theorem announced_of_sameSignatures (hapart : DigestsApart process base a b)
    (h : sameSignatures (snapshotOf process base a) (snapshotOf process base b) = true) :
    announced process base a = announced process base b := by
  simp only [DigestsApart, digested, zip_cons_cons, forall_mem_cons] at hapart
  obtain ⟨hconfig, -, -, -, hmodel, htools, hui, hbilling, -⟩ := hapart
  obtain ⟨hsignature, hproxy⟩ := sameSignatures_iff.mp h
  obtain ⟨hms, hts, hus, hbs, hoverride, htemperature, hhost, hport, hupstream⟩ :=
    config_of_value (hconfig hsignature)
  exact announced_eq hproxy hupstream ⟨hmodel hms, hoverride, htemperature⟩ (htools hts) (hui hus)
    (hbilling hbs) ⟨hhost, hport⟩

theorem changedKind_eq_nil {kind : RuntimeConfigChangeKind} {previous next : Text} :
    changedKind kind previous next = [] ↔ previous = next := by
  unfold changedKind
  split_ifs with h <;> simp_all

theorem changedKinds_eq_nil {previous next : RuntimeConfigSnapshot} :
    changedKinds previous next = [] ↔
      previous.networkProxySignature = next.networkProxySignature ∧
      previous.upstreamSignature = next.upstreamSignature ∧
      previous.modelSignature = next.modelSignature ∧
      previous.toolsSignature = next.toolsSignature ∧
      previous.uiSignature = next.uiSignature ∧
      previous.billingSignature = next.billingSignature ∧
      previous.proxyEndpointSignature = next.proxyEndpointSignature := by
  simp only [changedKinds, append_eq_nil_iff, changedKind_eq_nil, and_assoc]

/-- The kind that a system proxy watcher adds is there already. -/
theorem refreshKinds_eq (source : RuntimeConfigChangeSource)
    (previous next : RuntimeConfigSnapshot) :
    refreshKinds source previous next = changedKinds previous next := by
  unfold refreshKinds
  rw [if_neg]
  intro h
  obtain ⟨-, hnot, hne⟩ := h
  apply hnot
  simp [changedKinds, changedKind, hne]

theorem announced_of_changedKinds (hapart : DigestsApart process base a b)
    (h : changedKinds (snapshotOf process base a) (snapshotOf process base b) = []) :
    announced process base a = announced process base b := by
  simp only [DigestsApart, digested, zip_cons_cons, forall_mem_cons] at hapart
  obtain ⟨-, hupstream, hmodel, hendpoint, hsection, htools, hui, hbilling, -⟩ := hapart
  rw [changedKinds_eq_nil] at h
  obtain ⟨hproxy, hus, hms, hts, huis, hbs, hes⟩ := h
  obtain ⟨hoverride, htemperature, hdigest⟩ := model_of_value (hmodel hms)
  exact announced_eq hproxy (hupstream hus) ⟨hsection hdigest, hoverride, htemperature⟩
    (htools hts) (hui huis) (hbilling hbs) (endpoint_of_value (hendpoint hes))

theorem changedKinds_of_announced (h : announced process base a = announced process base b) :
    changedKinds (snapshotOf process base a) (snapshotOf process base b) = [] := by
  simp only [announced, AnnouncedSettings.mk.injEq] at h
  obtain ⟨hproxy, hurl, htransport, hcredential, htimeout, hoverride, htemperature, hmodel, htools,
    hui, hbilling, hhost, hport⟩ := h
  have hus : upstreamValue (configOf process base a) = upstreamValue (configOf process base b) := by
    simp only [upstreamValue, hurl, htransport, hcredential, htimeout]
  have hms : modelValue process (userOf process a) (configOf process base a) =
      modelValue process (userOf process b) (configOf process base b) := by
    simp only [modelValue, hoverride, htemperature, hmodel]
  have hes : endpointValue (configOf process base a) = endpointValue (configOf process base b) := by
    simp only [endpointValue, hhost, hport]
  have hash {v w : Value} (h : v = w) : stablePayloadHash process v = stablePayloadHash process w :=
    congrArg _ h
  exact changedKinds_eq_nil.mpr
    ⟨hproxy, hash hus, hash hms, hash htools, hash hui, hash hbilling, hash hes⟩

theorem optionValue_string_injective : Function.Injective (optionValue Value.string) := by
  intro v w h
  cases v <;> cases w <;> simp_all [optionValue]

/-- A field that an object determines is determined by the object or its absence. -/
theorem bind_of_optionValue {σ β : Type} (toValue : σ → Value) {field : σ → Option β}
    (hobject : ∀ s, toValue s ≠ .null) (hfield : ∀ s t, toValue s = toValue t → field s = field t)
    {v w : Option σ} (h : optionValue toValue v = optionValue toValue w) :
    v.bind field = w.bind field := by
  cases v with
  | none =>
    cases w with
    | none => rfl
    | some w => exact absurd h.symm (hobject w)
  | some v =>
    cases w with
    | none => exact absurd h (hobject v)
    | some w => exact hfield v w h

theorem thinking_of_modelSection (h : modelSection user = modelSection other) :
    (user.bind (·.model)).bind (·.thinking) = (other.bind (·.model)).bind (·.thinking) := by
  refine bind_of_optionValue UserModelConfig.toValue (fun _ => nofun) ?_ h
  intro model other h
  simp only [UserModelConfig.toValue, Value.object.injEq, cons.injEq, Prod.mk.injEq, true_and,
    and_true] at h
  exact optionValue_string_injective h.2.2

theorem backend_of_webSearch {webSearch other : Option UserWebSearchToolConfig}
    (h : optionValue UserWebSearchToolConfig.toValue webSearch =
      optionValue UserWebSearchToolConfig.toValue other) :
    webSearch.bind (·.backend) = other.bind (·.backend) := by
  refine bind_of_optionValue UserWebSearchToolConfig.toValue (fun _ => nofun) ?_ h
  intro webSearch other h
  simp only [UserWebSearchToolConfig.toValue, Value.object.injEq, cons.injEq, Prod.mk.injEq,
    true_and, and_true] at h
  obtain ⟨hbackend, -⟩ := h
  cases hw : webSearch.backend <;> cases ho : other.backend <;> simp_all [optionValue]
  exact WebSearchBackend.label_injective hbackend

theorem backend_of_toolsSection (h : toolsSection user = toolsSection other) :
    ((user.bind (·.tools)).bind (·.webSearch)).bind (·.backend) =
      ((other.bind (·.tools)).bind (·.webSearch)).bind (·.backend) := by
  have hbind : ∀ config : Option UserConfig,
      ((config.bind (·.tools)).bind (·.webSearch)).bind (·.backend) =
        (config.bind (·.tools)).bind fun tools => tools.webSearch.bind (·.backend) :=
    fun _ => Option.bind_assoc ..
  rw [hbind, hbind]
  refine bind_of_optionValue UserToolsConfig.toValue (fun _ => nofun) ?_ h
  intro tools other h
  simp only [UserToolsConfig.toValue, Value.object.injEq, cons.injEq, Prod.mk.injEq, true_and,
    and_true] at h
  obtain ⟨-, -, -, -, -, hwebSearch⟩ := h
  exact backend_of_webSearch hwebSearch

/-- The settings of a configuration, whose environment and file the two functions read. -/
theorem settings_configOf (inputs : Inputs) :
    settings (configOf process base inputs) =
      settings (applyRead process.toEnvironment (userOf process inputs)
        { base with catalogRemote := inputs.catalog }) := by
  unfold configOf buildConfig
  rw [settings_applyCodexConfig]
  rfl

theorem choose_none {α : Type} (name : Text) (current : α) :
    env.choose name none current = current := by
  unfold Environment.choose
  split_ifs <;> rfl

theorem thinking_configOf (inputs : Inputs) : (configOf process base inputs).thinking =
    process.toEnvironment.choose "DEEPSEEK_THINKING"
      ((((userOf process inputs).bind (·.model)).bind (·.thinking)).bind parseModelThinking)
      base.thinking := by
  have h := congrArg Settings.thinking (@settings_configOf process base inputs)
  cases huser : userOf process inputs with
  | none =>
    rw [huser] at h
    exact h.trans (choose_none _ _ _).symm
  | some user =>
    rw [huser] at h
    exact h

theorem webSearchBackend_configOf (inputs : Inputs) :
    (configOf process base inputs).webSearchBackend =
      process.toEnvironment.choose "WEB_SEARCH_BACKEND"
        ((((userOf process inputs).bind (·.tools)).bind (·.webSearch)).bind (·.backend))
        base.webSearchBackend := by
  have h := congrArg Settings.webSearchBackend (@settings_configOf process base inputs)
  cases huser : userOf process inputs with
  | none =>
    rw [huser] at h
    exact h.trans (choose_none _ _ _).symm
  | some user =>
    rw [huser] at h
    exact h

/-- The two lists together cover every setting. -/
theorem settings_of_announced_silent (h : announced process base a = announced process base b)
    (hsilent : silent (configOf process base a) = silent (configOf process base b)) :
    settings (configOf process base a) = settings (configOf process base b) := by
  simp only [announced, AnnouncedSettings.mk.injEq] at h
  obtain ⟨hproxy, -, htransport, hcredential, htimeout, hoverride, htemperature, hmodel, htools,
    -, -, hhost, hport⟩ := h
  simp only [silent, SilentSettings.mk.injEq] at hsilent
  obtain ⟨hurl, henabled, hoverrides, hremote, hcache, hmode⟩ := hsilent
  have hthinking : (configOf process base a).thinking = (configOf process base b).thinking := by
    rw [thinking_configOf, thinking_configOf, thinking_of_modelSection hmodel]
  have hbackend :
      (configOf process base a).webSearchBackend = (configOf process base b).webSearchBackend := by
    rw [webSearchBackend_configOf, webSearchBackend_configOf, backend_of_toolsSection htools]
  simp only [settings, proxyCacheKey_injective process hproxy, htransport, hcredential, htimeout,
    hoverride, htemperature, hthinking, hbackend, hhost, hport, hurl, henabled, hoverrides,
    hremote, hcache, hmode]

theorem silent_of_settings (h : settings c = settings d) : silent c = silent d := by
  simp only [settings, Settings.mk.injEq] at h
  simp only [silent, h]

end

/-! ## One step -/

variable {process}

theorem refresh_cases (files : Files) (source : RuntimeConfigChangeSource)
    (service : RuntimeConfigService) :
    let next := buildSnapshot process service.base files service.catalog
    (sameSignatures service.snapshot next = true ∧
        refresh process files source service = service) ∨
      (sameSignatures service.snapshot next = false ∧ changedKinds service.snapshot next = [] ∧
        refresh process files source service = { service with snapshot := next }) ∨
      (sameSignatures service.snapshot next = false ∧ changedKinds service.snapshot next ≠ [] ∧
        ∃ change, refresh process files source service =
          { service with snapshot := next, sent := service.sent ++ [change] }) := by
  intro next
  unfold refresh
  by_cases hsame : sameSignatures service.snapshot next = true
  · exact .inl ⟨hsame, if_pos hsame⟩
  · have hdiffer : sameSignatures service.snapshot next = false := by simpa using hsame
    right
    simp only [refreshKinds_eq]
    by_cases hkinds : changedKinds service.snapshot next = []
    · refine .inl ⟨hdiffer, hkinds, ?_⟩
      rw [if_neg hsame, if_pos hkinds]
    · refine .inr ⟨hdiffer, hkinds,
        ⟨source, changedKinds service.snapshot next, next, some service.snapshot⟩, ?_⟩
      rw [if_neg hsame, if_neg hkinds]

/-- The snapshot in use was built from what was applied. -/
def Built (process : Process) (world : World) : Prop :=
  world.service.snapshot = snapshotOf process world.service.base world.applied

theorem built_start (base : AppConfig) (files : Files) :
    Built process (World.start process base files) := rfl

theorem sameSignatures_self (snapshot : RuntimeConfigSnapshot) :
    sameSignatures snapshot snapshot = true := by
  rw [sameSignatures_iff]
  exact ⟨rfl, rfl⟩

/-- The service of a refreshing action before its refresh: its document is set. -/
def Action.prepared (action : Action) (world : World) : RuntimeConfigService :=
  { world.service with catalog := (action.inputs world).catalog }

theorem step_of_refreshes {world : World} {action : Action} (h : action.Refreshes world) :
    ∃ source, step process world action =
      world.accept (refresh process world.files source (action.prepared world)) := by
  cases action with
  | write files => exact h.elim
  | refresh source => exact ⟨source, rfl⟩
  | setCatalogDocument document =>
    refine ⟨.catalogRefresh, ?_⟩
    have hchanged : documentUnchanged world.service.catalog document = false := h
    simp only [step, setCatalogDocument, hchanged]
    rfl

theorem step_of_not_refreshes {world : World} {action : Action} (h : ¬ action.Refreshes world) :
    (step process world action).service = world.service ∧
      (step process world action).applied = world.applied := by
  cases action with
  | write files => exact ⟨rfl, rfl⟩
  | refresh source => exact absurd trivial h
  | setCatalogDocument document =>
    have hsame : documentUnchanged world.service.catalog document = true := by
      simpa [Action.Refreshes] using h
    simp [step, setCatalogDocument, hsame, World.accept, sameSignatures_self]

/-- What a refreshing action does: the snapshot stays, or the new one takes its place without
or with a change that is sent. -/
theorem refreshing_cases {world : World} {action : Action} (hbuilt : Built process world)
    (h : action.Refreshes world) :
    let current := snapshotOf process world.service.base world.applied
    let next := snapshotOf process world.service.base (action.inputs world)
    let after := step process world action
    after.service.base = world.service.base ∧
    ((sameSignatures current next = true ∧ after.service.snapshot = current ∧
        after.service.sent = world.service.sent ∧ after.applied = world.applied) ∨
      (sameSignatures current next = false ∧ changedKinds current next = [] ∧
        after.service.snapshot = next ∧ after.service.sent = world.service.sent ∧
        after.applied = action.inputs world) ∨
      (sameSignatures current next = false ∧ changedKinds current next ≠ [] ∧
        after.service.snapshot = next ∧
        (∃ change, after.service.sent = world.service.sent ++ [change]) ∧
        after.applied = action.inputs world)) := by
  intro current next after
  obtain ⟨source, hstep⟩ := @step_of_refreshes process world action h
  have hcurrent : (action.prepared world).snapshot = current := hbuilt
  have hinputs : (⟨world.files, (action.inputs world).catalog⟩ : Inputs) = action.inputs world := by
    cases action <;> rfl
  have hnext : buildSnapshot process (action.prepared world).base world.files
      (action.prepared world).catalog = next := by
    show snapshotOf process world.service.base ⟨world.files, (action.inputs world).catalog⟩ = next
    rw [hinputs]
  have hcases := @refresh_cases process world.files source (action.prepared world)
  simp only [hnext, hcurrent] at hcases
  obtain ⟨hsame, hrefresh⟩ | ⟨hdiffer, hkinds, hrefresh⟩ | ⟨hdiffer, hkinds, change, hrefresh⟩ :=
    hcases
  · have hafter : after = world.accept (action.prepared world) := by rw [← hrefresh]; exact hstep
    rw [hafter]
    refine ⟨rfl, .inl ⟨hsame, hcurrent, rfl, ?_⟩⟩
    exact if_pos (sameSignatures_self _)
  · have hafter : after = world.accept { action.prepared world with snapshot := next } := by
      rw [← hrefresh]; exact hstep
    rw [hafter]
    refine ⟨rfl, .inr (.inl ⟨hdiffer, hkinds, rfl, rfl, ?_⟩)⟩
    have hsignatures : sameSignatures world.service.snapshot next = false := by
      rw [hbuilt]; exact hdiffer
    simp only [World.accept, hsignatures, Bool.false_eq_true, if_false]
    exact hinputs
  · have hafter : after = world.accept { action.prepared world with
        snapshot := next, sent := (action.prepared world).sent ++ [change] } := by
      rw [← hrefresh]; exact hstep
    rw [hafter]
    refine ⟨rfl, .inr (.inr ⟨hdiffer, hkinds, rfl, ⟨change, rfl⟩, ?_⟩)⟩
    have hsignatures : sameSignatures world.service.snapshot next = false := by
      rw [hbuilt]; exact hdiffer
    simp only [World.accept, hsignatures, Bool.false_eq_true, if_false]
    exact hinputs

theorem built_step (world : World) (action : Action) (h : Built process world) :
    Built process (step process world action) := by
  by_cases hrefreshes : action.Refreshes world
  · obtain ⟨hbase, ⟨-, hsnapshot, -, happlied⟩ | ⟨-, -, hsnapshot, -, happlied⟩ |
      ⟨-, -, hsnapshot, -, happlied⟩⟩ := refreshing_cases h hrefreshes <;>
    · unfold Built
      rw [hsnapshot, hbase, happlied]
  · obtain ⟨hservice, happlied⟩ := @step_of_not_refreshes process world action hrefreshes
    unfold Built
    rw [hservice, happlied]
    exact h

/-- A refresh is exact just when it comes with a change that a kind is about, or the settings
that no kind is about stay as they are. -/
theorem refreshesExactly_iff {world : World} {action : Action} (hbuilt : Built process world)
    (hapart : TellsApart process world action) :
    RefreshesExactly process embedded world action ↔ Covered process world action := by
  unfold RefreshesExactly Covered
  refine forall_congr' fun hrefreshes => ?_
  have hdigests := hapart hrefreshes
  have hactive : activeConfig world.service =
      configOf process world.service.base world.applied := congrArg (·.config) hbuilt
  obtain ⟨-, hcases⟩ := refreshing_cases hbuilt hrefreshes
  have hconfig (inputs : Inputs) : (snapshotOf process world.service.base inputs).config =
    configOf process world.service.base inputs := rfl
  rw [hactive]
  constructor
  · rintro ⟨hsettings, hhears⟩
    by_cases hannounced : announced process world.service.base world.applied =
      announced process world.service.base (action.inputs world)
    · right
      have hkinds := changedKinds_of_announced hannounced
      obtain ⟨-, hsnapshot, -, -⟩ | ⟨-, -, hsnapshot, hsent, -⟩ | ⟨-, hne, -, -, -⟩ := hcases
      · rw [activeConfig, hsnapshot, hconfig] at hsettings
        exact silent_of_settings hsettings
      · apply silent_of_settings
        by_contra hchanged
        rw [activeConfig, hsnapshot, hconfig] at hhears
        obtain ⟨change, hmore⟩ := hhears (.inr hchanged)
        rw [hsent] at hmore
        simp at hmore
      · exact absurd hkinds hne
    · exact .inl hannounced
  · intro hcovered
    have hsame (heq : announced process world.service.base world.applied =
        announced process world.service.base (action.inputs world)) :
        settings (configOf process world.service.base world.applied) =
          settings (configOf process world.service.base (action.inputs world)) := by
      obtain hne | hsilent := hcovered
      · exact absurd heq hne
      · exact settings_of_announced_silent heq hsilent
    obtain ⟨hsignatures, hsnapshot, -, -⟩ | ⟨-, hkinds, hsnapshot, -, -⟩ |
      ⟨-, -, hsnapshot, hsent, -⟩ := hcases
    · have heq := hsame (announced_of_sameSignatures hdigests hsignatures)
      rw [activeConfig, hsnapshot, hconfig]
      refine ⟨heq, fun hchanged => ?_⟩
      obtain hprices | hsettings := hchanged
      · exact absurd rfl hprices
      · exact absurd rfl hsettings
    · have heq := hsame (announced_of_changedKinds hdigests hkinds)
      rw [activeConfig, hsnapshot, hconfig]
      refine ⟨rfl, fun hchanged => ?_⟩
      obtain hprices | hsettings := hchanged
      · exact absurd (pricingTable_of_settings embedded heq) hprices
      · exact absurd heq hsettings
    · rw [activeConfig, hsnapshot, hconfig]
      exact ⟨rfl, fun _ => hsent⟩

/-! ## Every run -/

/-- Along a run every refresh leaves the settings of the files and the document in effect and
announces their changes, just when every refresh of the run is covered. -/
theorem every_refresh_exact_iff (process : Process) (embedded : CatalogDocument) (base : AppConfig)
    (files : Files) (actions : List Action)
    (hapart : Runs.Along (step process) (TellsApart process) (World.start process base files)
      actions) :
    Runs.Along (step process) (RefreshesExactly process embedded)
        (World.start process base files) actions ↔
      Runs.Along (step process) (Covered process) (World.start process base files) actions :=
  Runs.along_iff (@built_step process)
    (fun _ _ hbuilt hapart => refreshesExactly_iff embedded hbuilt hapart)
    (built_start base files) hapart

end

namespace OneSetting

def fullSummaries : Text := "[experimental]\nreasoning_summary_mode = \"full\"\n"

def strictTemperature : Text := "[model]\ntemperature = \"strict\"\n"

/-- A process without variables that reads files with one of two settings. -/
def process : Process where
  var := fun _ => none
  resolveCodexConfigPath := none
  toml := Plain.toml
  urls := Plain.urls
  parseUserConfig text :=
    if text = fullSummaries then
      some { experimental := some { reasoningSummaryMode := some ("full" : Text) } }
    else if text = strictTemperature then some { model := some { temperature := some .strict } }
    else none
  defaultHash text := text.foldl (fun hash c => hash * 31 + c.val.toUInt64) 7
  systemProxyUrl := none

def base : AppConfig where
  dataDir := "/home/user/.codeseex"
  host := "127.0.0.1"
  port := 8787
  upstream := {
    baseUrl := "https://api.deepseek.com"
    credential := .auto
    apiKey := none
    transport := .nativeResponses
    timeoutMs := 120000 }
  modelOverride := .default
  temperature := .default
  thinking := .auto
  networkProxy := .system
  webSearchBackend := .local_
  catalogSourceUrl := none
  catalogRemoteEnabled := true
  catalogOverrides := {}
  catalogRemote := none
  catalogCache := none
  reasoningSummaryMode := .smart
  codexConfigPath := none
  codexConfigResolve := false

def filesWith (user : ConfigFile) : Files := ⟨user, fun _ => .missing⟩

/-- The file is written and its watcher refreshes. -/
def rewrite (text : Text) : List Action := [.write (filesWith (.text text)), .refresh .configFile]

def started : World := .start process base (filesWith .missing)

end OneSetting

open OneSetting in
theorem digestsApart_strict : DigestsApart process base ⟨filesWith .missing, none⟩
    ⟨filesWith (.text strictTemperature), none⟩ := by
  simp only [DigestsApart, digested, zip_cons_cons, forall_mem_cons, zip_nil_left,
    not_mem_nil, false_imp_iff, implies_true, and_true]
  refine ⟨fun h => absurd h (by decide +kernel), fun _ => rfl,
    fun h => absurd h (by decide +kernel), fun _ => rfl, fun h => absurd h (by decide +kernel),
    fun _ => rfl, fun _ => rfl, fun _ => rfl⟩

open OneSetting in
theorem announced_strict : announced process base ⟨filesWith .missing, none⟩ ≠
    announced process base ⟨filesWith (.text strictTemperature), none⟩ := by
  intro h
  exact absurd (congrArg AnnouncedSettings.temperature h) (by decide +kernel)

open OneSetting in
theorem every_refresh_exact_strict : Runs.Along (step process) (RefreshesExactly process
    ghostDocument) started (rewrite strictTemperature) :=
  (every_refresh_exact_iff process ghostDocument base (filesWith .missing)
    (rewrite strictTemperature)
    ⟨fun h => h.elim, fun _ => digestsApart_strict, trivial⟩).mpr
    ⟨fun h => h.elim, fun _ => .inl announced_strict, trivial⟩

open OneSetting in
/-- A new reasoning summary mode alone is not applied. -/
theorem summary_mode_not_applied : ¬ Runs.Along (step process) (RefreshesExactly process
    ghostDocument) started (rewrite fullSummaries) := by
  intro h
  obtain ⟨-, hrefresh, -⟩ := h
  obtain ⟨hsettings, -⟩ := hrefresh trivial
  exact absurd (congrArg Settings.reasoningSummaryMode hsettings) (by decide +kernel)

end CodeSeeX.RuntimeConfig
