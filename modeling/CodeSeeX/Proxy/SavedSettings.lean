import CodeSeeX.Proxy.VisionMigration

/-!
# What a payload leaves in the file

A setting of the payload is taken when the file then holds the value that its parser
accepts. The payload is applied first and the keys of the vision tools are taken out of the
result, which may drop a section. The places where a setting is lost are few.
-/
namespace CodeSeeX.Config
open Catalog Upstream List Option BTreeMap

variable {value : Value} {keys : List Text} (fields : List (Text × Value)) {key : Text}
  (model : List (Text × Value)) {entry : Text × Value} {slug : Text} {β : Type}
  (field : UserToolsConfig → β) (tools : UserToolsConfig)

/-! ## Settings that are taken -/

/-- If the payload has the key with an accepted value, the file holds that value. -/
def Taken {α : Type} (payload : Value) (key : Text) (parse : Value → Option α)
    (stored : Option α) : Prop :=
  ∀ value, payload.get key = some value → ∀ a, parse value = some a → stored = some a

/-- The last entry for a slug in a table that was sent. -/
def LastEntry (entries : List (Text × Value)) (slug : Text) (value : Value) : Prop :=
  ∃ before raw after, entries = before ++ (raw, value) :: after ∧ raw.trim = slug ∧ slug ≠ [] ∧
    ∀ entry ∈ after, entry.1.trim ≠ slug

section
variable (crates : PayloadCrates)

/-- The prices that were sent are those of the file: applying a part again changes nothing. -/
structure PricingTaken (fields : List (Text × Value)) (billing : UserBillingConfig) : Prop where
  plain : { applyCatalogPricingPayload crates fields billing with rates := billing.rates } = billing
  rates : ∀ rates, (fields.lookup ("rates" : Text)).bind Value.asObject = some rates →
    ∀ slug value, LastEntry rates slug value →
      (value = .null → (billing.rates.getD .empty).get slug = none) ∧
      ∀ rate, value = .object rate → (applyRate crates rate {}).isSome →
        ∃ stored, (billing.rates.getD .empty).get slug = some stored ∧
          applyRate crates rate stored = stored

/-- The models that were sent are those of the file. -/
def ModelsTaken (entries : List (Text × Value)) (models : BTreeMap Text UserCatalogModelConfig) :
    Prop :=
  ∀ slug model, LastEntry entries slug (.object model) →
    ∃ stored, models.get slug = some stored ∧ applyModelFields model stored = stored

def visionText (value : Value) : Option Text := nonEmptyTrimmed (valueToSettingString value)

def visionBackend (value : Value) : Option VisionAnalyzeBackend :=
  sentAnalyzeBackend (visionText value)

def visionDetail (value : Value) : Option VisionImageDetail := sentImageDetail (visionText value)

/-- Every part of the payload for the file is applied. -/
structure SettingsApplied (payload : Value) (config : UserConfig) : Prop where
  port : Taken payload "PROXY_PORT" valueU16 (config.proxy.bind (·.port))
  transport : Taken payload "DEEPSEEK_TRANSPORT" valueUpstreamTransport
    (config.upstream.bind (·.transport))
  credential : Taken payload "DEEPSEEK_CREDENTIAL_SOURCE" valueCredentialSource
    (config.upstream.bind (·.credential))
  modelOverride : Taken payload "UPSTREAM_MODEL_OVERRIDE" valueModelOverride
    (config.model.bind (·.overrideMode))
  temperature : Taken payload "DEEPSEEK_TEMPERATURE_PRESET" valueTemperature
    (config.model.bind (·.temperature))
  thinking : Taken payload "DEEPSEEK_THINKING" valueString (config.model.bind (·.thinking))
  theme : Taken payload "UI_THEME" valueString (config.ui.bind (·.theme))
  language : Taken payload "UI_LANGUAGE" valueString (config.ui.bind (·.language))
  autoStart : Taken payload "AUTO_START" valueBool (config.ui.bind (·.autoStart))
  modelListInjection : Taken payload "CODEX_APP_MODEL_LIST_INJECTION" valueBool
    (config.ui.bind (·.codexAppModelListInjection))
  closeBehavior : Taken payload "UI_CLOSE_BEHAVIOR" valueString (config.ui.bind (·.closeBehavior))
  logRetentionDays : Taken payload "LOG_RETENTION_DAYS" valueU16
    (config.ui.bind (·.logRetentionDays))
  logVerbosity : Taken payload "LOG_VERBOSITY" valueString (config.ui.bind (·.logVerbosity))
  reasoningSummaryMode : Taken payload "EXPERIMENT_REASONING_SUMMARY_MODE" valueString
    (config.experimental.bind (·.reasoningSummaryMode))
  peakValley : Taken payload "BILLING_PEAK_VALLEY_ENABLED" valueBool
    (config.billing.bind (·.peakValleyEnabled))
  flashCachedInput : Taken payload "BILLING_FLASH_CACHED_INPUT_CNY" (valueF64 crates)
    (config.billing.bind (·.flashCachedInputCny))
  flashCacheMissInput : Taken payload "BILLING_FLASH_CACHE_MISS_INPUT_CNY" (valueF64 crates)
    (config.billing.bind (·.flashCacheMissInputCny))
  flashOutput : Taken payload "BILLING_FLASH_OUTPUT_CNY" (valueF64 crates)
    (config.billing.bind (·.flashOutputCny))
  proCachedInput : Taken payload "BILLING_PRO_CACHED_INPUT_CNY" (valueF64 crates)
    (config.billing.bind (·.proCachedInputCny))
  proCacheMissInput : Taken payload "BILLING_PRO_CACHE_MISS_INPUT_CNY" (valueF64 crates)
    (config.billing.bind (·.proCacheMissInputCny))
  proOutput : Taken payload "BILLING_PRO_OUTPUT_CNY" (valueF64 crates)
    (config.billing.bind (·.proOutputCny))
  visionCachedInput : Taken payload "BILLING_VISION_CACHED_INPUT_CNY" (valueF64 crates)
    (config.billing.bind (·.visionCachedInputCny))
  visionCacheMissInput : Taken payload "BILLING_VISION_CACHE_MISS_INPUT_CNY" (valueF64 crates)
    (config.billing.bind (·.visionCacheMissInputCny))
  visionOutput : Taken payload "BILLING_VISION_OUTPUT_CNY" (valueF64 crates)
    (config.billing.bind (·.visionOutputCny))
  catalogUrl : Taken payload "CODESEEX_CATALOG_URL" valueString (config.catalog.bind (·.sourceUrl))
  catalogRemote : Taken payload "CODESEEX_CATALOG_REMOTE" valueBool
    (config.catalog.bind (·.remoteEnabled))
  catalogPricing : ∀ fields, (payload.get "CATALOG_PRICING").bind Value.asObject = some fields →
    ∃ billing, config.billing = some billing ∧ PricingTaken crates fields billing
  catalogModels : ∀ entries, (payload.get "CATALOG_MODELS").bind Value.asObject = some entries →
    ∃ models, config.models = some models ∧ ModelsTaken entries models
  networkProxy : Taken payload "NETWORK_PROXY_MODE" valueNetworkProxy
    (config.network.bind (·.proxy))
  webSearchProxy : Taken payload "WEB_SEARCH_PROXY_MODE" valueNetworkProxy
    (config.network.bind (·.proxy))
  webSearchBackend : Taken payload "WEB_SEARCH_BACKEND" valueWebSearchBackend
    ((config.tools.bind (·.webSearch)).bind (·.backend))
  enabledTools : Taken payload "ENABLED_TOOLS"
    (fun value => (valueStringList crates value).map configurableToolIds)
    (config.tools.bind (·.enabled))
  analyzeBackend : Taken payload analyzeBackendKey visionBackend
    ((config.tools.bind (·.visionAnalyze)).bind (·.backend))
  imageDetail : Taken payload imageDetailKey visionDetail
    ((config.tools.bind (·.visionAnalyze)).bind (·.imageDetail))
  deepseekModel : Taken payload analyzeDeepseekModelKey visionText
    ((config.tools.bind (·.visionAnalyze)).bind (·.deepseekModel))
  analyzeUrl : Taken payload analyzeUrlKey visionText
    ((config.tools.bind (·.visionAnalyze)).bind (·.analyzeUrl))
  analyzeModel : Taken payload analyzeModelKey visionText
    ((config.tools.bind (·.visionAnalyze)).bind (·.analyzeModel))
  generateUrl : Taken payload generateUrlKey visionText
    ((config.tools.bind (·.visionGenerate)).bind (·.generateUrl))
  generateModel : Taken payload generateModelKey visionText
    ((config.tools.bind (·.visionGenerate)).bind (·.generateModel))
  communityTools : ∀ key ∈ crates.communityToolConfigKeys, key ∉ visionConfigKeys →
    Taken payload key valueToSettingString
      ((config.tools.bind (·.settings)).bind fun settings => settings.get key)

end

/-! ## Plain settings -/

section
variable {α σ : Type} {payload : Value} {key : Text} {parse : Value → Option α}

theorem assign_of_present (h : payload.get key = some value) (slot : Option α) :
    assign payload key parse slot = parse value := by
  rw [assign, h]

theorem editSection_of_key {edit : σ → σ} {default : σ} {part : Option σ} (hkey : key ∈ keys)
    (h : payload.get key = some value) :
    editSection payload keys edit default part = some (edit (part.getD default)) := by
  rw [editSection, if_pos]
  exact any_eq_true.mpr ⟨key, hkey, by rw [present, h]; rfl⟩

/-- A setting whose key opens its section is taken. -/
theorem taken_editSection {edit : σ → σ} {default : σ} {part saved : Option σ}
    {field : σ → Option α} (hsaved : saved = editSection payload keys edit default part)
    (hkey : key ∈ keys := by simp [uiKeys, billingKeys])
    (hfield : ∀ s, field (edit s) = assign payload key parse (field s) := by exact fun _ => rfl) :
    Taken payload key parse (saved.bind field) := by
  intro value hvalue a ha
  rw [hsaved, editSection_of_key hkey hvalue, bind_some, hfield, assign_of_present hvalue, ha]

end

/-! ## Prices and models -/

section
variable {crates : PayloadCrates}

theorem editField_idem {α β : Type} (key : Text) (read : Value → Option α) (write : α → β)
    (slot : β) :
    editField fields key read write (editField fields key read write slot) =
      editField fields key read write slot := by
  unfold editField
  cases (fields.lookup key).bind read <;> rfl

theorem editField_of_sent {α β : Type} {fields : List (Text × Value)} {read : Value → Option α}
    {a : α} (h : (fields.lookup key).bind read = some a) (write : α → β) (slot : β) :
    editField fields key read write slot = write a := by
  rw [editField, h]

theorem setString_idem (key : Text) (slot : Option Text) :
    setString model key (setString model key slot) = setString model key slot := by
  unfold setString
  cases model.lookup key with
  | none => rfl
  | some value => cases value <;> rfl

theorem applyRate_idem (rate : List (Text × Value)) (entry : UserModelRatesConfig) :
    applyRate crates rate (applyRate crates rate entry) = applyRate crates rate entry := by
  simp only [applyRate, UserModelRatesConfig.mk.injEq]
  refine ⟨?_, ?_, ?_⟩
  · cases sentRate crates rate "cached_input" <;> rfl
  · cases sentRate crates rate "cache_miss_input" <;> rfl
  · cases sentRate crates rate "output" <;> rfl

theorem applyModelFields_idem (entry : UserCatalogModelConfig) :
    applyModelFields model (applyModelFields model entry) = applyModelFields model entry := by
  simp only [applyModelFields, setString_idem, editField_idem, UserCatalogModelConfig.mk.injEq,
    true_and, and_true]
  refine ⟨?_, ?_⟩
  · cases (((model.lookup ("context_window" : Text)).bind Value.asU64).filter (0 < ·)).map
      UInt64.ofNat <;> rfl
  · cases model.lookup ("aliases" : Text) with
    | none => rfl
    | some value => cases value <;> rfl

/-- A rate that sets a value does so over any entry. -/
theorem applyRate_isSome {rate : List (Text × Value)}
    (h : (applyRate crates rate {}).isSome) (entry : UserModelRatesConfig) :
    (applyRate crates rate entry).isSome := by
  simp only [applyRate, UserModelRatesConfig.isSome, or_none, Bool.or_eq_true,
    isSome_or] at h ⊢
  obtain (h | h) | h := h <;> simp [h]

theorem get_applyRateEntry_ne {resolved : BTreeMap Text UserModelRatesConfig}
    (h : entry.1.trim ≠ slug) :
    (applyRateEntry crates resolved entry).get slug = resolved.get slug := by
  unfold applyRateEntry
  simp only
  split_ifs
  · rfl
  · split
    · exact get_remove_ne h.symm
    · exact get_insert_ne _ h.symm
    · rfl

theorem get_applyModelEntry_ne {models : BTreeMap Text UserCatalogModelConfig}
    (h : entry.1.trim ≠ slug) :
    (applyModelEntry models entry).get slug = models.get slug := by
  unfold applyModelEntry
  simp only
  split_ifs
  · rfl
  · split
    · exact get_insert_ne _ h.symm
    · rfl

/-- What the steps behind the last entry for a slug leave of it. -/
theorem get_foldl_last {ν : Type} {step : BTreeMap Text ν → Text × Value → BTreeMap Text ν}
    (hstep : ∀ map entry, entry.1.trim ≠ slug → (step map entry).get slug = map.get slug)
    {entries : List (Text × Value)} (hlast : LastEntry entries slug value) (map : BTreeMap Text ν) :
    ∃ before raw, raw.trim = slug ∧ slug ≠ [] ∧
      (entries.foldl step map).get slug = (step before (raw, value)).get slug := by
  obtain ⟨before, raw, after, rfl, hraw, hslug, hafter⟩ := hlast
  refine ⟨before.foldl step map, raw, hraw, hslug, ?_⟩
  rw [foldl_append, foldl_cons]
  generalize step (before.foldl step map) (raw, value) = current
  induction after generalizing current with
  | nil => rfl
  | cons entry after ih =>
    rw [foldl_cons, ih (fun e he => hafter e (mem_cons_of_mem _ he)),
      hstep current entry (hafter entry mem_cons_self)]

theorem get_applyRates (rates : List (Text × Value))
    (stored : Option (BTreeMap Text UserModelRatesConfig)) (slug : Text) :
    ((applyRates crates rates stored).getD .empty).get slug =
      ((rates.foldl (applyRateEntry crates) (stored.getD .empty)).retain
        fun entry => entry.2.isSome).get slug := by
  unfold applyRates
  simp only
  split_ifs with hempty
  · have hnil := List.isEmpty_iff.mp hempty
    rw [getD_none, get_empty]
    simp only [BTreeMap.get, hnil, find?_nil, map_none]
  · rfl

/-- The rates that were sent are applied. -/
theorem applyRates_taken {rates : List (Text × Value)} {slug : Text} {value : Value}
    (hlast : LastEntry rates slug value) (stored : Option (BTreeMap Text UserModelRatesConfig)) :
    (value = .null → ((applyRates crates rates stored).getD .empty).get slug = none) ∧
    ∀ rate, value = .object rate → (applyRate crates rate {}).isSome →
      ∃ entry, ((applyRates crates rates stored).getD .empty).get slug = some entry ∧
        applyRate crates rate entry = entry := by
  obtain ⟨before, raw, hraw, hslug, hget⟩ := get_foldl_last
    (fun map entry => get_applyRateEntry_ne) hlast (stored.getD .empty)
  constructor
  · rintro rfl
    rw [get_applyRates, eq_none_iff_forall_ne_some]
    intro entry hentry
    have hfold := get_eq_some.mpr
      (mem_retain.mp (get_eq_some.mp hentry)).1
    rw [hget] at hfold
    simp only [applyRateEntry, hraw, if_neg hslug, get_remove_self, reduceCtorEq] at hfold
  · rintro rate rfl hsome
    refine ⟨applyRate crates rate ((before.get slug).getD {}), ?_, applyRate_idem rate _⟩
    rw [get_applyRates, get_eq_some, mem_retain]
    refine ⟨get_eq_some.mp ?_, applyRate_isSome hsome _⟩
    rw [hget]
    simp only [applyRateEntry, hraw, if_neg hslug, get_insert_self]

theorem pricingTaken (billing : UserBillingConfig) :
    PricingTaken crates fields (applyCatalogPricingPayload crates fields billing) where
  plain := by simp only [applyCatalogPricingPayload, editField_idem]
  rates := by
    intro rates hrates slug value hlast
    simp only [applyCatalogPricingPayload, editField_of_sent hrates]
    exact applyRates_taken hlast billing.rates

theorem modelsTaken (entries : List (Text × Value))
    (models : BTreeMap Text UserCatalogModelConfig) :
    ModelsTaken entries (applyCatalogModelsPayload entries models) := by
  intro slug model hlast
  obtain ⟨before, raw, hraw, hslug, hget⟩ := get_foldl_last
    (fun map entry => get_applyModelEntry_ne) hlast models
  refine ⟨applyModelFields model ((before.get slug).getD {}), ?_, applyModelFields_idem model _⟩
  rw [applyCatalogModelsPayload, hget]
  simp only [applyModelEntry, hraw, if_neg hslug, get_insert_self]

end

/-! ## Tool settings -/

section
variable {payload : Value}

/-- What the edits of the tool settings leave where one key alone writes. -/
theorem read_foldl_editToolSetting {parse : Value → β}
    (hself : ∀ tools value, payload.get key = some value →
      field (editToolSetting payload tools key) = parse value)
    (hother : ∀ tools other, other ≠ key →
      field (editToolSetting payload tools other) = field tools) (hkey : key ∈ keys)
    (hvalue : payload.get key = some value) (tools : UserToolsConfig) :
    field (keys.foldl (editToolSetting payload) tools) = parse value := by
  have hkeep : ∀ (keys : List Text) tools, field tools = parse value →
      field (keys.foldl (editToolSetting payload) tools) = parse value := by
    intro keys
    induction keys with
    | nil => exact fun _ h => h
    | cons first rest ih =>
      intro tools h
      refine ih _ ?_
      by_cases heq : first = key
      · rw [heq, hself tools value hvalue]
      · rw [hother tools first heq, h]
  induction keys generalizing tools with
  | nil => cases hkey
  | cons first rest ih =>
    obtain rfl | hrest := mem_cons.mp hkey
    · exact hkeep rest _ (hself tools value hvalue)
    · exact ih hrest _

theorem read_foldl_editToolSetting_absent (hnone : payload.get key = none)
    (hother : ∀ tools other, other ≠ key →
      field (editToolSetting payload tools other) = field tools) (keys : List Text)
    (tools : UserToolsConfig) :
    field (keys.foldl (editToolSetting payload) tools) = field tools := by
  induction keys generalizing tools with
  | nil => rfl
  | cons first rest ih =>
    rw [foldl_cons, ih]
    by_cases heq : first = key
    · rw [heq, editToolSetting, hnone]
    · exact hother tools first heq

/-- A field of the vision sections that one key alone sets. -/
structure VisionField {α : Type} (field : UserToolsConfig → Option α) (key : Text)
    (parse : Value → Option α) : Prop where
  self : ∀ tools value, field (setVisionToolSetting tools key (valueToSettingString value)) =
    parse value
  other : ∀ tools other value, other ≠ key →
    field (setVisionToolSetting tools other value) = field tools
  settings : ∀ (tools : UserToolsConfig) settings, field { tools with settings := settings } =
    field tools
  isVision : key ∈ visionConfigKeys

variable {α : Type} {field : UserToolsConfig → Option α} {key : Text} {parse : Value → Option α}

theorem VisionField.edit_other (h : VisionField field key parse) (tools : UserToolsConfig)
    {other : Text} (hne : other ≠ key) :
    field (editToolSetting payload tools other) = field tools := by
  unfold editToolSetting
  cases payload.get other with
  | none => rfl
  | some value =>
    simp only
    split_ifs
    · exact h.other tools other _ hne
    · cases valueToSettingString value with
      | some text => exact h.settings tools _
      | none => exact h.settings tools _

theorem VisionField.edited (h : VisionField field key parse) (hkey : key ∈ keys)
    (tools : UserToolsConfig) :
    field (keys.foldl (editToolSetting payload) tools) =
      assign payload key parse (field tools) := by
  cases hvalue : payload.get key with
  | some value =>
    rw [assign_of_present hvalue]
    refine read_foldl_editToolSetting field ?_ (fun tools other => h.edit_other tools) hkey hvalue
      tools
    intro tools value hvalue
    rw [editToolSetting, hvalue]
    simp only [if_pos h.isVision, h.self]
  | none =>
    rw [assign, hvalue]
    exact read_foldl_editToolSetting_absent field hvalue (fun tools other => h.edit_other tools)
      keys tools

end

def analyzeSection (tools : UserToolsConfig) : UserVisionToolConfig := tools.visionAnalyze.getD {}

def generateSection (tools : UserToolsConfig) : UserVisionGenerateToolConfig :=
  tools.visionGenerate.getD {}

theorem setVision_settings (key : Text) (value : Option Text) :
    (setVisionToolSetting tools key value).settings = tools.settings := by
  unfold setVisionToolSetting
  split_ifs <;> rfl

/-- A key that stands in one branch alone sets one field alone. -/
theorem VisionField.ofBranches {α : Type} {field : UserToolsConfig → Option α}
    {parse : Value → Option α}
    (hself : ∀ tools value, field (setVisionToolSetting tools key (valueToSettingString value)) =
      parse value := by exact fun _ _ => rfl) (hother : ∀ tools other value, other ≠ key →
        field (setVisionToolSetting tools other value) = field tools := by
      intro tools other value hne
      unfold setVisionToolSetting
      simp only [if_neg hne]
      split_ifs <;> rfl) (hsettings : ∀ (tools : UserToolsConfig) settings,
      field { tools with settings := settings } = field tools := by exact fun _ _ => rfl)
    (hvision : key ∈ visionConfigKeys := by simp [visionConfigKeys]) :
    VisionField field key parse :=
  ⟨hself, hother, hsettings, hvision⟩

theorem field_backend :
    VisionField (fun tools => (analyzeSection tools).backend) analyzeBackendKey visionBackend :=
  .ofBranches

theorem field_imageDetail :
    VisionField (fun tools => (analyzeSection tools).imageDetail) imageDetailKey visionDetail :=
  .ofBranches

theorem field_deepseekModel :
    VisionField (fun tools => (analyzeSection tools).deepseekModel) analyzeDeepseekModelKey
      visionText :=
  .ofBranches

theorem field_analyzeUrl :
    VisionField (fun tools => (analyzeSection tools).analyzeUrl) analyzeUrlKey visionText :=
  .ofBranches

theorem field_analyzeModel :
    VisionField (fun tools => (analyzeSection tools).analyzeModel) analyzeModelKey visionText :=
  .ofBranches

theorem field_generateUrl :
    VisionField (fun tools => (generateSection tools).generateUrl) generateUrlKey visionText :=
  .ofBranches

theorem field_generateModel :
    VisionField (fun tools => (generateSection tools).generateModel) generateModelKey visionText :=
  .ofBranches

/-! ## What the migration leaves -/

theorem migrateLegacy_settings :
    (migrateLegacyVisionTools tools).settings =
      nonEmptySettings ((tools.settings.getD .empty).retain
        fun entry => entry.1 ∉ movedVisionKeys) := by
  unfold migrateLegacyVisionTools
  simp only
  split <;> rfl

/-- The migration leaves the parts of the tools alone that are not about vision. -/
theorem migrate_others :
    (migrateVisionTools tools).tools.webSearch = tools.webSearch ∧
      (migrateVisionTools tools).tools.enabled = tools.enabled := by
  have hlegacy : ∀ tools, (migrateLegacyVisionTools tools).webSearch = tools.webSearch ∧
      (migrateLegacyVisionTools tools).enabled = tools.enabled := by
    intro tools
    unfold migrateLegacyVisionTools
    simp only
    split <;> exact ⟨rfl, rfl⟩
  have hshared : ∀ tools, (takeLegacySharedVisionKey tools).2.webSearch = tools.webSearch ∧
      (takeLegacySharedVisionKey tools).2.enabled = tools.enabled := by
    intro tools
    unfold takeLegacySharedVisionKey
    split <;> exact ⟨rfl, rfl⟩
  have hanalyze : ∀ tools, (takeVisionAnalyzeKey tools).2.webSearch = tools.webSearch ∧
      (takeVisionAnalyzeKey tools).2.enabled = tools.enabled := by
    intro tools
    unfold takeVisionAnalyzeKey
    split <;> exact ⟨rfl, rfl⟩
  have hgenerate : ∀ tools, (takeVisionGenerateKey tools).2.webSearch = tools.webSearch ∧
      (takeVisionGenerateKey tools).2.enabled = tools.enabled := by
    intro tools
    unfold takeVisionGenerateKey
    split <;> exact ⟨rfl, rfl⟩
  obtain ⟨hsearch, henabled⟩ := hlegacy tools
  constructor
  · rw [← hsearch]
    exact (hgenerate _).1.trans ((hanalyze _).1.trans (hshared _).1)
  · rw [← henabled]
    exact (hgenerate _).2.trans ((hanalyze _).2.trans (hshared _).2)

/-- A value that is looked up in optional settings. -/
def settingOf (settings : Option (BTreeMap Text Text)) (key : Text) : Option Text :=
  settings.bind fun settings => settings.get key

theorem settingOf_nonEmptySettings (settings : BTreeMap Text Text) (key : Text) :
    settingOf (nonEmptySettings settings) key = settings.get key := by
  unfold nonEmptySettings
  split_ifs with hempty
  · simp only [settingOf, bind_none, BTreeMap.get, List.isEmpty_iff.mp hempty,
      find?_nil, map_none]
  · rfl

theorem settingOf_getD (settings : Option (BTreeMap Text Text)) (key : Text) :
    (settings.getD .empty).get key = settingOf settings key := by
  cases settings <;> rfl

theorem movedVisionKeys_subset (h : key ∈ movedVisionKeys) :
    key ∈ visionConfigKeys := by
  simp only [movedVisionKeys, visionConfigKeys, mem_cons, not_mem_nil, or_false] at h ⊢
  obtain rfl | rfl | rfl | rfl | rfl | rfl | rfl | rfl := h <;> simp

/-- A setting of a community tool stays where it is. -/
theorem migrate_settingOf (hkey : key ∉ visionConfigKeys) :
    settingOf (migrateVisionTools tools).tools.settings key = settingOf tools.settings key := by
  have hmoved : key ∉ movedVisionKeys := fun h => hkey (movedVisionKeys_subset h)
  have hsecret : key ∉ [apiKeyKey, analyzeApiKeyKey, generateApiKeyKey] :=
    fun h => hkey (secretKeys_subset h)
  have hremoved : settingOf (removeVisionSecretSettings (migrateLegacyVisionTools tools)).settings
      key = settingOf (migrateLegacyVisionTools tools).settings key := by
    unfold removeVisionSecretSettings
    cases (migrateLegacyVisionTools tools).settings with
    | none => rfl
    | some settings =>
      rw [bind_some, settingOf_nonEmptySettings,
        get_retain_of_pos (fun value => by simp [hsecret])]
      rfl
  simp only [migrateVisionTools, takeGenerate_settings, takeAnalyze_settings,
    takeLegacyShared_settings, hremoved, migrateLegacy_settings, settingOf_nonEmptySettings]
  rw [get_retain_of_pos (fun value => by simp [hmoved]), settingOf_getD]

/-- No flat setting of a vision tool. -/
def NoFlatVision (tools : UserToolsConfig) : Prop :=
  ∀ key ∈ visionConfigKeys, (tools.settings.getD .empty).get key = none

/-- The section for analyzing as it is kept: with its defaults, and without keys. -/
def settledAnalyze (vision : UserVisionToolConfig) : UserVisionToolConfig :=
  { fillAnalyze .empty vision with apiKey := none, analyzeApiKey := none }

section
variable {tools : UserToolsConfig}

theorem setting_none (hflat : NoFlatVision tools) (hkey : key ∈ visionConfigKeys) :
    setting (tools.settings.getD .empty) key = none := by
  rw [setting, hflat key hkey]
  rfl

theorem fillAnalyze_noFlat (hflat : NoFlatVision tools)
    (vision : UserVisionToolConfig) :
    fillAnalyze (tools.settings.getD .empty) vision = fillAnalyze .empty vision := by
  have hempty : ∀ key, setting .empty key = none := fun _ => rfl
  have hnone : ∀ key ∈ visionConfigKeys, setting (tools.settings.getD .empty) key = none :=
    fun key => setting_none hflat
  simp only [fillAnalyze, hempty, hnone analyzeUrlKey (by simp [visionConfigKeys]),
    hnone analyzeModelKey (by simp [visionConfigKeys]),
    hnone analyzeBackendKey (by simp [visionConfigKeys]),
    hnone imageDetailKey (by simp [visionConfigKeys]),
    hnone analyzeApiKeyKey (by simp [visionConfigKeys])]

theorem migrateLegacy_analyze (hflat : NoFlatVision tools) :
    (migrateLegacyVisionTools tools).visionAnalyze =
      tools.visionAnalyze.map (fillAnalyze .empty) := by
  have hnone : hasAnalyzeSetting (tools.settings.getD .empty) = false := by
    have hkeys : ∀ key ∈ visionConfigKeys, setting (tools.settings.getD .empty) key = none :=
      fun key => setting_none hflat
    simp only [hasAnalyzeSetting, any_cons, any_nil,
      hkeys analyzeBackendKey (by simp [visionConfigKeys]),
      hkeys imageDetailKey (by simp [visionConfigKeys]),
      hkeys analyzeUrlKey (by simp [visionConfigKeys]),
      hkeys analyzeModelKey (by simp [visionConfigKeys]),
      hkeys analyzeApiKeyKey (by simp [visionConfigKeys]), isSome_none, Bool.or_self]
  unfold migrateLegacyVisionTools
  simp only [hnone, Bool.false_eq_true, if_false, or_none]
  cases hvision : tools.visionAnalyze with
  | none => rfl
  | some vision => simp only [map_some, fillAnalyze_noFlat hflat]

/-- The section for analyzing goes when it has no address and no model. -/
theorem migrate_analyze (hfree : KeyFree tools)
    (hflat : NoFlatVision tools) :
    (migrateVisionTools tools).tools.visionAnalyze = tools.visionAnalyze.bind fun vision =>
      if vision.analyzeUrl.isNone ∧ vision.analyzeModel.isNone then none
      else some (settledAnalyze vision) := by
  simp only [migrateVisionTools, takeGenerate_analyze]
  have hremoved : (removeVisionSecretSettings (migrateLegacyVisionTools tools)).visionAnalyze =
      tools.visionAnalyze.map (fillAnalyze .empty) := migrateLegacy_analyze hflat
  cases hvision : tools.visionAnalyze with
  | none =>
    rw [hvision, map_none] at hremoved
    simp only [takeLegacySharedVisionKey, hremoved, takeVisionAnalyzeKey, bind_none]
  | some vision =>
    obtain ⟨-, hown⟩ := hfree.analyze vision hvision
    rw [hvision, map_some] at hremoved
    have hbare : (fillAnalyze .empty vision).bare =
        (vision.analyzeUrl.isNone && vision.analyzeModel.isNone) := by
      simp [UserVisionToolConfig.bare, fillAnalyze, setting, nonEmptyTrimmed]
    have hkey : (fillAnalyze .empty vision).analyzeApiKey = none := by
      simp [fillAnalyze, setting, nonEmptyTrimmed, hown]
    have hshared : (takeLegacySharedVisionKey
        (removeVisionSecretSettings (migrateLegacyVisionTools tools))).2.visionAnalyze =
        if vision.analyzeUrl.isNone ∧ vision.analyzeModel.isNone then none
        else some { fillAnalyze .empty vision with apiKey := none } := by
      simp only [takeLegacySharedVisionKey, hremoved, hbare, hkey, isNone_none, and_true,
        Bool.and_eq_true]
    rw [bind_some]
    by_cases hdropped : vision.analyzeUrl.isNone = true ∧ vision.analyzeModel.isNone = true
    · rw [if_pos hdropped] at hshared ⊢
      simp only [takeVisionAnalyzeKey, hshared]
    · rw [if_neg hdropped] at hshared ⊢
      have hkept : ¬ (vision.analyzeUrl.isNone && vision.analyzeModel.isNone) = true := by
        rwa [Bool.and_eq_true]
      have hbareShared : ({ fillAnalyze .empty vision with
          apiKey := none } : UserVisionToolConfig).bare = false :=
        hbare.trans (Bool.not_eq_true _ ▸ hkept)
      simp only [takeVisionAnalyzeKey, hshared, hbareShared, Bool.false_eq_true, false_and,
        if_false, settledAnalyze]

/-- The section for generated images stays when it has an address or a model. -/
theorem migrate_generate {generation : UserVisionGenerateToolConfig}
    (h : tools.visionGenerate = some generation)
    (hkept : generation.generateUrl.isSome ∨ generation.generateModel.isSome) :
    ∃ kept, (migrateVisionTools tools).tools.visionGenerate = some kept ∧
      (∀ url, generation.generateUrl = some url → kept.generateUrl = some url) ∧
      ∀ model, generation.generateModel = some model → kept.generateModel = some model := by
  have hfill : ∀ url model apiKey, ∃ filled, fillGenerate url model apiKey (some generation) =
      some filled ∧ (∀ url, generation.generateUrl = some url → filled.generateUrl = some url) ∧
      ∀ model, generation.generateModel = some model → filled.generateModel = some model := by
    intro url model apiKey
    unfold fillGenerate
    split_ifs
    · refine ⟨_, rfl, ?_, ?_⟩
      · intro stored hstored
        simp [hstored]
      · intro stored hstored
        simp [hstored]
    · exact ⟨generation, rfl, fun _ h => h, fun _ h => h⟩
  obtain ⟨filled, hfilled, hurl, hmodel⟩ : ∃ filled,
      (migrateLegacyVisionTools tools).visionGenerate = some filled ∧
      (∀ url, generation.generateUrl = some url → filled.generateUrl = some url) ∧
      ∀ model, generation.generateModel = some model → filled.generateModel = some model := by
    unfold migrateLegacyVisionTools
    simp only [h]
    split
    · exact hfill _ _ _
    · exact hfill _ _ _
  have hbefore : (takeVisionAnalyzeKey (takeLegacySharedVisionKey
      (removeVisionSecretSettings (migrateLegacyVisionTools tools))).2).2.visionGenerate =
      some filled := by
    rw [takeAnalyze_generate, takeLegacyShared_generate]
    exact hfilled
  have hnotBare : ¬ (filled.generateUrl.isNone = true ∧ filled.generateModel.isNone = true) := by
    rintro ⟨hnoUrl, hnoModel⟩
    obtain hsome | hsome := hkept
    · obtain ⟨url, hstored⟩ := isSome_iff_exists.mp hsome
      rw [hurl url hstored] at hnoUrl
      cases hnoUrl
    · obtain ⟨model, hstored⟩ := isSome_iff_exists.mp hsome
      rw [hmodel model hstored] at hnoModel
      cases hnoModel
  refine ⟨{ filled with apiKey := none }, ?_, hurl, hmodel⟩
  simp only [migrateVisionTools, takeVisionGenerateKey, hbefore, if_neg hnotBare]

end

/-! ## The tools as they are saved -/

section
variable {crates : PayloadCrates} {payload : Value}

/-- The tools behind the edits, before they are cleaned up. -/
def editedTools (crates : PayloadCrates) (payload : Value) (tools : Option UserToolsConfig) :
    UserToolsConfig :=
  (toolConfigKeys crates).foldl (editToolSetting payload)
    (withEnabledTools crates payload (tools.getD {}))

theorem editTools_of_toolKey (hkey : key ∈ toolConfigKeys crates)
    (hvalue : payload.get key = some value) (tools : Option UserToolsConfig) :
    editTools crates payload tools = some (cleanupToolSettings (editedTools crates payload tools)) := by
  have hhas : hasToolSettings crates payload = true :=
    any_eq_true.mpr ⟨key, hkey, by rw [present, hvalue]; rfl⟩
  simp only [editTools, hhas, Bool.or_true, if_true]
  rfl

theorem mem_toolConfigKeys_vision (h : key ∈ visionConfigKeys) :
    key ∈ toolConfigKeys crates := mem_append_left _ h

/-- A part of the tools that no edit of a setting touches. -/
theorem read_editTools {field : UserToolsConfig → Option β} (hempty : field {} = none)
    (henabled : ∀ tools, field (withEnabledTools crates payload tools) = field tools)
    (hedit : ∀ tools key, field (editToolSetting payload tools key) = field tools)
    (hcleanup : ∀ tools, field (cleanupToolSettings tools) = field tools)
    (tools : Option UserToolsConfig) :
    (editTools crates payload tools).bind field = tools.bind field := by
  have hstart : field (tools.getD {}) = tools.bind field := by
    cases tools with
    | none => exact hempty
    | some tools => rfl
  have hfold : ∀ (keys : List Text) tools,
      field (keys.foldl (editToolSetting payload) tools) = field tools := by
    intro keys
    induction keys with
    | nil => exact fun _ => rfl
    | cons key keys ih =>
      intro tools
      rw [foldl_cons, ih, hedit]
  unfold editTools
  split_ifs
  · rw [bind_some, hcleanup, hfold, henabled, hstart]
  · rw [bind_some, henabled, hstart]
  · rfl

theorem setVision_webSearch (key : Text) (value : Option Text) :
    (setVisionToolSetting tools key value).webSearch = tools.webSearch ∧
      (setVisionToolSetting tools key value).enabled = tools.enabled := by
  unfold setVisionToolSetting
  split_ifs <;> exact ⟨rfl, rfl⟩

theorem editToolSetting_webSearch (key : Text) :
    (editToolSetting payload tools key).webSearch = tools.webSearch ∧
      (editToolSetting payload tools key).enabled = tools.enabled := by
  unfold editToolSetting
  cases payload.get key with
  | none => exact ⟨rfl, rfl⟩
  | some value =>
    simp only
    split_ifs
    · exact setVision_webSearch tools key _
    · cases valueToSettingString value <;> exact ⟨rfl, rfl⟩

theorem editTools_webSearch (tools : Option UserToolsConfig) :
    (editTools crates payload tools).bind (·.webSearch) = tools.bind (·.webSearch) :=
  read_editTools rfl (fun _ => rfl) (fun tools key => (editToolSetting_webSearch tools key).1)
    (fun _ => rfl) tools

theorem cleanup_enabled :
    (cleanupToolSettings tools).enabled = tools.enabled := rfl

theorem editTools_enabled {value : Value} (hvalue : payload.get "ENABLED_TOOLS" = some value)
    (tools : Option UserToolsConfig) :
    (editTools crates payload tools).bind (·.enabled) =
      (valueStringList crates value).map configurableToolIds := by
  have hfold : ∀ (keys : List Text) tools,
      (keys.foldl (editToolSetting payload) tools).enabled = tools.enabled := by
    intro keys
    induction keys with
    | nil => exact fun _ => rfl
    | cons key keys ih =>
      intro tools
      rw [foldl_cons, ih, (editToolSetting_webSearch tools key).2]
  have henabled : (withEnabledTools crates payload (tools.getD {})).enabled =
      (valueStringList crates value).map configurableToolIds := assign_of_present hvalue _
  have hpresent : present payload "ENABLED_TOOLS" = true := by rw [present, hvalue]; rfl
  unfold editTools
  simp only [hpresent, Bool.true_or, if_true, bind_some]
  split_ifs
  · rw [cleanup_enabled, hfold, henabled]
  · exact henabled

theorem noFlat_cleanup : NoFlatVision (cleanupToolSettings tools) := by
  intro key hkey
  rw [settingOf_getD]
  show settingOf (tools.settings.bind _) key = none
  cases tools.settings with
  | none => rfl
  | some settings =>
    rw [bind_some, settingOf_nonEmptySettings]
    exact get_retain_of_not fun value => by simp [hkey]

/-- The tools of the file before the keys are taken out of it. -/
def toolsBefore (payload : Value) (config : UserConfig) : Option UserToolsConfig :=
  editWebSearch payload config.tools

theorem sections_editWebSearch (payload : Value) (tools : Option UserToolsConfig) :
    analyzeSection ((editWebSearch payload tools).getD {}) = analyzeSection (tools.getD {}) ∧
      generateSection ((editWebSearch payload tools).getD {}) =
        generateSection (tools.getD {}) := by
  unfold editWebSearch editSection
  cases tools <;> split_ifs <;> exact ⟨rfl, rfl⟩

/-- The address and the model for analyzing that a save leaves. -/
def savedAnalyzeUrl (payload : Value) (config : UserConfig) : Option Text :=
  assign payload analyzeUrlKey visionText (analyzeSection (config.tools.getD {})).analyzeUrl

def savedAnalyzeModel (payload : Value) (config : UserConfig) : Option Text :=
  assign payload analyzeModelKey visionText (analyzeSection (config.tools.getD {})).analyzeModel

/-- The file as `save_config` writes it, from the settings without keys. -/
def savedConfig (crates : PayloadCrates) (payload : Value) (config : UserConfig) : UserConfig :=
  let user := userConfigFromPayload crates payload config
  { user with tools := user.tools.map fun tools => (migrateVisionTools tools).tools }

theorem savedConfig_tools (config : UserConfig) :
    (savedConfig crates payload config).tools =
      (editTools crates payload (toolsBefore payload config)).map
        fun tools => (migrateVisionTools tools).tools := rfl

variable {config : UserConfig} (hfree : ∀ tools ∈ config.tools, KeyFree tools)

/-- A field of a vision section behind the edits. -/
theorem edited_field {α : Type} {field : UserToolsConfig → Option α} {key : Text}
    {parse : Value → Option α} (hfield : VisionField field key parse)
    (hsections : ∀ tools other, analyzeSection tools = analyzeSection other →
      generateSection tools = generateSection other → field tools = field other) :
    field (editedTools crates payload (toolsBefore payload config)) =
      assign payload key parse (field (config.tools.getD {})) := by
  obtain ⟨hanalyze, hgenerate⟩ := sections_editWebSearch payload config.tools
  have hstart : field (withEnabledTools crates payload ((toolsBefore payload config).getD {})) =
      field (config.tools.getD {}) := hsections _ _ hanalyze hgenerate
  rw [← hstart]
  exact hfield.edited (mem_toolConfigKeys_vision hfield.isVision) _

include hfree in
theorem keyFree_edited : KeyFree (editedTools crates payload (toolsBefore payload config)) := by
  have hbefore := KeyFree.getD (@keyFree_editWebSearch payload _ hfree)
  refine foldlRecOn (motive := KeyFree) _ _ ?_ fun tools htools key _ =>
    htools.editToolSetting payload key
  exact ⟨hbefore.settings, hbefore.analyze, hbefore.generate⟩

include hfree in
/-- A setting for analyzing that was sent is kept with the address or the model alone. -/
theorem saved_analyze {α : Type} {field : UserVisionToolConfig → Option α}
    {parse : Value → Option α}
    (hfield : VisionField (fun tools => field (analyzeSection tools)) key parse)
    (hempty : field {} = none)
    (hsettled : ∀ vision a, field vision = some a → field (settledAnalyze vision) = some a) {a : α}
    (hvalue : payload.get key = some value) (ha : parse value = some a)
    (hfilled : ∀ vision, field vision = some a → vision.isEmpty = false) :
    (((savedConfig crates payload config).tools.bind (·.visionAnalyze)).bind field) =
      if (savedAnalyzeUrl payload config).isNone ∧ (savedAnalyzeModel payload config).isNone then
        none
      else some a := by
  have hread := @edited_field crates payload config _ _ key parse hfield
    fun _ _ h _ => congrArg field h
  have hurl := @edited_field crates payload config _ _ _ _ field_analyzeUrl
    fun _ _ h _ => congrArg _ h
  have hmodel := @edited_field crates payload config _ _ _ _ field_analyzeModel
    fun _ _ h _ => congrArg _ h
  rw [assign_of_present hvalue, ha] at hread
  obtain ⟨vision, hvision⟩ : ∃ vision, (editedTools crates payload
      (toolsBefore payload config)).visionAnalyze = some vision := by
    cases hvision : (editedTools crates payload (toolsBefore payload config)).visionAnalyze with
    | some vision => exact ⟨vision, rfl⟩
    | none =>
      rw [analyzeSection, hvision, getD_none, hempty] at hread
      cases hread
  rw [analyzeSection, hvision, getD_some] at hread hurl hmodel
  have hcleaned : (cleanupToolSettings (editedTools crates payload
      (toolsBefore payload config))).visionAnalyze = some vision := by
    show (editedTools crates payload (toolsBefore payload config)).visionAnalyze.filter _ = _
    rw [hvision, filter_some, if_pos (by rw [hfilled vision hread]; rfl)]
  rw [savedConfig_tools, editTools_of_toolKey (mem_toolConfigKeys_vision hfield.isVision) hvalue,
    map_some, bind_some,
    migrate_analyze (keyFree_edited hfree).cleanup (noFlat_cleanup _), hcleaned, bind_some,
    hurl, hmodel]
  show bind (if (savedAnalyzeUrl payload config).isNone ∧
    (savedAnalyzeModel payload config).isNone then none else some (settledAnalyze vision)) field = _
  split_ifs
  · rfl
  · exact hsettled vision a hread

theorem visionText_filled {text : Text} (h : visionText value = some text) :
    text.isBlank = false := by
  obtain ⟨hsome, hne⟩ := filter_eq_some_iff.mp h
  obtain ⟨raw, -, rfl⟩ := map_eq_some_iff.mp hsome
  rw [Text.isBlank, Secret.trim_idem]
  simpa using hne

/-- The edited section for generated images, with what was sent in it. -/
theorem saved_generate {field : UserVisionGenerateToolConfig → Option Text}
    (hfield : VisionField (fun tools => field (generateSection tools)) key visionText)
    (hcase : field = UserVisionGenerateToolConfig.generateUrl ∨
      field = UserVisionGenerateToolConfig.generateModel) {text : Text}
    (hvalue : payload.get key = some value) (htext : visionText value = some text) :
    (((savedConfig crates payload config).tools.bind (·.visionGenerate)).bind field) =
      some text := by
  have hread := @edited_field crates payload config _ _ key visionText hfield
    fun _ _ _ h => congrArg field h
  rw [assign_of_present hvalue, htext] at hread
  obtain ⟨generation, hgeneration⟩ : ∃ generation, (editedTools crates payload
      (toolsBefore payload config)).visionGenerate = some generation := by
    cases hgeneration : (editedTools crates payload (toolsBefore payload config)).visionGenerate with
    | some generation => exact ⟨generation, rfl⟩
    | none =>
      rw [generateSection, hgeneration, getD_none] at hread
      obtain rfl | rfl := hcase <;> cases hread
  rw [generateSection, hgeneration, getD_some] at hread
  have hblank := visionText_filled htext
  have hfilled : generation.isEmpty = false := by
    obtain rfl | rfl := hcase <;>
      simp [UserVisionGenerateToolConfig.isEmpty, isBlankSetting, hread, hblank]
  have hcleaned : (cleanupToolSettings (editedTools crates payload
      (toolsBefore payload config))).visionGenerate = some generation := by
    show (editedTools crates payload (toolsBefore payload config)).visionGenerate.filter _ = _
    rw [hgeneration, filter_some, if_pos (by rw [hfilled]; rfl)]
  obtain ⟨kept, hkept, hurl, hmodel⟩ := migrate_generate hcleaned (by
    obtain rfl | rfl := hcase <;> simp [hread])
  rw [savedConfig_tools, editTools_of_toolKey (mem_toolConfigKeys_vision hfield.isVision) hvalue,
    map_some, bind_some, hkept, bind_some]
  obtain rfl | rfl := hcase
  · exact hurl text hread
  · exact hmodel text hread

theorem saved_community (hkey : key ∈ crates.communityToolConfigKeys)
    (hother : key ∉ visionConfigKeys) :
    Taken payload key valueToSettingString
      (((savedConfig crates payload config).tools.bind (·.settings)).bind
        fun settings => settings.get key) := by
  intro value hvalue text htext
  have htool : key ∈ toolConfigKeys crates := mem_append_right _ hkey
  have hread : settingOf (editedTools crates payload (toolsBefore payload config)).settings key =
      valueToSettingString value := by
    refine read_foldl_editToolSetting (fun tools => settingOf tools.settings key) ?_ ?_ htool
      hvalue _
    · intro tools value hvalue
      simp only [editToolSetting, hvalue, if_neg hother]
      cases valueToSettingString value with
      | some text => exact get_insert_self _ _ _
      | none =>
        cases tools.settings with
        | none => rfl
        | some settings => exact get_remove_self _ _
    · intro tools other hne
      unfold editToolSetting
      cases payload.get other with
      | none => rfl
      | some value =>
        simp only
        split_ifs
        · rw [setVision_settings]
        · cases valueToSettingString value with
          | some text =>
            show (insert _ other text).get key = _
            rw [get_insert_ne _ hne.symm, settingOf_getD]
          | none =>
            cases tools.settings with
            | none => rfl
            | some settings => exact get_remove_ne hne.symm
  have hcleaned : settingOf (cleanupToolSettings (editedTools crates payload
      (toolsBefore payload config))).settings key = some text := by
    show settingOf ((editedTools crates payload (toolsBefore payload config)).settings.bind _) key = _
    rw [htext] at hread
    cases hsettings : (editedTools crates payload (toolsBefore payload config)).settings with
    | none => rw [hsettings] at hread; cases hread
    | some settings =>
      rw [bind_some, settingOf_nonEmptySettings,
        get_retain_of_pos (fun value => by simp [hother])]
      rw [hsettings] at hread
      exact hread
  rw [savedConfig_tools, editTools_of_toolKey htool hvalue, map_some, bind_some]
  exact (migrate_settingOf _ hother).trans hcleaned

end

/-! ## Where settings are lost -/

def sent {α : Type} (payload : Value) (key : Text) (parse : Value → Option α) : Option α :=
  (payload.get key).bind parse

/-- What a payload must be like for the file to take it: the verbosity of the log comes with
another setting of the section, two keys for one setting agree, and a tool for analyzing images
that is set up has an address or a model. -/
structure SettingsKept (payload : Value) (config : UserConfig) : Prop where
  logVerbosity : uiKeys.any (present payload) = false →
    Taken payload "LOG_VERBOSITY" valueString (config.ui.bind (·.logVerbosity))
  networkProxy : ∀ mode other, sent payload "NETWORK_PROXY_MODE" valueNetworkProxy = some mode →
    sent payload "WEB_SEARCH_PROXY_MODE" valueNetworkProxy = some other → mode = other
  peakValley : ∀ enabled fields other,
    sent payload "BILLING_PEAK_VALLEY_ENABLED" valueBool = some enabled →
    sent payload "CATALOG_PRICING" Value.asObject = some fields →
    (fields.lookup ("peak_valley_enabled" : Text)).bind Value.asBool = some other →
    enabled = other
  vision : (sent payload analyzeBackendKey visionBackend).isSome ∨
      (sent payload imageDetailKey visionDetail).isSome ∨
      (sent payload analyzeDeepseekModelKey visionText).isSome →
    (savedAnalyzeUrl payload config).isSome ∨ (savedAnalyzeModel payload config).isSome

section
variable {crates : PayloadCrates} {payload : Value} {config : UserConfig}

section
variable {α : Type} {key : Text} {parse : Value → Option α}

theorem sent_eq_some {a : α} :
    sent payload key parse = some a ↔ ∃ value, payload.get key = some value ∧ parse value = some a :=
  bind_eq_some_iff

theorem taken_iff {stored : Option α} :
    Taken payload key parse stored ↔ ∀ a, sent payload key parse = some a → stored = some a := by
  constructor
  · intro h a ha
    obtain ⟨value, hvalue, hparse⟩ := sent_eq_some.mp ha
    exact h value hvalue a hparse
  · intro h value hvalue a ha
    exact h a (sent_eq_some.mpr ⟨value, hvalue, ha⟩)

theorem savedConfig_billing : (savedConfig crates payload config).billing =
    ((payload.get "CATALOG_PRICING").bind Value.asObject).elim
      (editBilling crates payload config.billing) fun pricing =>
        some (applyCatalogPricingPayload crates pricing
          ((editBilling crates payload config.billing).getD {})) := by
  unfold savedConfig userConfigFromPayload
  dsimp only
  cases (payload.get "CATALOG_PRICING").bind Value.asObject <;> rfl

/-- Prices that are sent behind it leave a setting of the section as it is. -/
theorem taken_billing {field : UserBillingConfig → Option α}
    (hpricing : ∀ fields billing, field (applyCatalogPricingPayload crates fields billing) =
      field billing)
    (htaken : Taken payload key parse ((editBilling crates payload config.billing).bind field)) :
    Taken payload key parse ((savedConfig crates payload config).billing.bind field) := by
  intro value hvalue a ha
  have hstored := htaken value hvalue a ha
  rw [savedConfig_billing]
  cases hbilling : editBilling crates payload config.billing with
  | none => rw [hbilling] at hstored; cases hstored
  | some billing =>
    rw [hbilling] at hstored
    cases (payload.get "CATALOG_PRICING").bind Value.asObject with
    | none => exact hstored
    | some pricing =>
      rw [elim_some, bind_some, hpricing]
      exact hstored

end

theorem saved_peakValley :
    Taken payload "BILLING_PEAK_VALLEY_ENABLED" valueBool
        ((savedConfig crates payload config).billing.bind (·.peakValleyEnabled)) ↔
      ∀ enabled fields other,
        sent payload "BILLING_PEAK_VALLEY_ENABLED" valueBool = some enabled →
        sent payload "CATALOG_PRICING" Value.asObject = some fields →
        (fields.lookup ("peak_valley_enabled" : Text)).bind Value.asBool = some other →
        enabled = other := by
  have hedited : Taken payload "BILLING_PEAK_VALLEY_ENABLED" valueBool
      ((editBilling crates payload config.billing).bind (·.peakValleyEnabled)) :=
    taken_editSection rfl
  rw [taken_iff] at hedited ⊢
  constructor
  · intro h enabled fields other henabled hfields hother
    have hstored := h enabled henabled
    have hobject : (payload.get "CATALOG_PRICING").bind Value.asObject = some fields := hfields
    rw [savedConfig_billing, hobject] at hstored
    simp only [elim_some, bind_some, applyCatalogPricingPayload, editField_of_sent hother,
      some.injEq] at hstored
    exact hstored.symm
  · intro h enabled henabled
    have hstored := hedited enabled henabled
    cases hbilling : editBilling crates payload config.billing with
    | none => rw [hbilling] at hstored; cases hstored
    | some billing =>
      rw [hbilling, bind_some] at hstored
      rw [savedConfig_billing, hbilling]
      cases hfields : (payload.get "CATALOG_PRICING").bind Value.asObject with
      | none => exact hstored
      | some fields =>
        simp only [elim_some, bind_some, applyCatalogPricingPayload, getD_some]
        cases hother : (fields.lookup ("peak_valley_enabled" : Text)).bind Value.asBool with
        | none => rw [editField, hother]; exact hstored
        | some other => rw [editField_of_sent hother, h enabled fields other henabled hfields hother]

theorem saved_logVerbosity :
    Taken payload "LOG_VERBOSITY" valueString
        ((savedConfig crates payload config).ui.bind (·.logVerbosity)) ↔
      (uiKeys.any (present payload) = false →
        Taken payload "LOG_VERBOSITY" valueString (config.ui.bind (·.logVerbosity))) := by
  have hsaved : (savedConfig crates payload config).ui = editUi payload config.ui := rfl
  rw [hsaved]
  unfold editUi editSection
  cases hkeys : uiKeys.any (present payload) with
  | false => simp only [Bool.false_eq_true, if_false, forall_const]
  | true =>
    simp only [if_true, reduceCtorEq, false_implies, iff_true]
    intro value hvalue a ha
    rw [bind_some, assign_of_present hvalue, ha]

theorem saved_networkProxy {mode : NetworkProxyMode} (hkey : key ∈ networkProxyKeys)
    (hsent : sent payload key valueNetworkProxy = some mode) :
    ((savedConfig crates payload config).network.bind (·.proxy)) = sentNetworkProxy payload := by
  have hsaved : (savedConfig crates payload config).network = editNetwork payload config.network :=
    rfl
  obtain ⟨value, hvalue, -⟩ := sent_eq_some.mp hsent
  rw [hsaved, editNetwork, editSection_of_key hkey hvalue]
  rfl

theorem saved_webSearchBackend :
    Taken payload "WEB_SEARCH_BACKEND" valueWebSearchBackend
      ((((savedConfig crates payload config).tools.bind (·.webSearch))).bind (·.backend)) := by
  intro value hvalue backend hbackend
  have hedited : (toolsBefore payload config).bind (·.webSearch) = some
      { ((((if networkProxyKeys.any (present payload) then
          config.tools.map clearLegacyWebSearchProxy else config.tools)).getD {}).webSearch.getD {})
        with backend := (payload.get "WEB_SEARCH_BACKEND").bind valueWebSearchBackend } := by
    unfold toolsBefore editWebSearch
    rw [editSection_of_key (mem_singleton_self _) hvalue]
    rfl
  have hwebSearch := @editTools_webSearch crates payload (toolsBefore payload config)
  rw [hedited] at hwebSearch
  rw [savedConfig_tools]
  cases htools : editTools crates payload (toolsBefore payload config) with
  | none => rw [htools] at hwebSearch; cases hwebSearch
  | some tools =>
    rw [htools, bind_some] at hwebSearch
    rw [map_some, bind_some, (migrate_others tools).1, hwebSearch, bind_some, hvalue,
      bind_some, hbackend]

theorem saved_enabledTools :
    Taken payload "ENABLED_TOOLS" (fun value => (valueStringList crates value).map
      configurableToolIds) ((savedConfig crates payload config).tools.bind (·.enabled)) := by
  intro value hvalue ids hids
  have henabled := @editTools_enabled crates payload value hvalue (toolsBefore payload config)
  rw [show Option.map configurableToolIds (valueStringList crates value) = some ids from hids]
    at henabled
  rw [savedConfig_tools]
  cases htools : editTools crates payload (toolsBefore payload config) with
  | none => rw [htools] at henabled; cases henabled
  | some tools =>
    rw [htools, bind_some] at henabled
    rw [map_some, bind_some, (migrate_others tools).2, henabled]

/-- A setting for analyzing is taken exactly when it is not sent or the section stays. -/
theorem taken_analyze_iff (hfree : ∀ tools ∈ config.tools, KeyFree tools) {α : Type}
    {field : UserVisionToolConfig → Option α} {key : Text} {parse : Value → Option α}
    (hfield : VisionField (fun tools => field (analyzeSection tools)) key parse)
    (hempty : field {} = none)
    (hsettled : ∀ vision a, field vision = some a → field (settledAnalyze vision) = some a)
    (hfilled : ∀ value a vision, parse value = some a → field vision = some a →
      vision.isEmpty = false) :
    Taken payload key parse
        (((savedConfig crates payload config).tools.bind (·.visionAnalyze)).bind field) ↔
      ((sent payload key parse).isSome →
        (savedAnalyzeUrl payload config).isSome ∨ (savedAnalyzeModel payload config).isSome) := by
  have hsaved : ∀ value a, payload.get key = some value → parse value = some a →
      ((savedConfig crates payload config).tools.bind (·.visionAnalyze)).bind field =
        if (savedAnalyzeUrl payload config).isNone ∧ (savedAnalyzeModel payload config).isNone then
          none
        else some a :=
    fun value a hvalue ha => saved_analyze hfree hfield hempty hsettled hvalue ha
      fun vision hvision => hfilled value a vision ha hvision
  rw [taken_iff]
  constructor
  · intro h hsent
    obtain ⟨a, ha⟩ := isSome_iff_exists.mp hsent
    obtain ⟨value, hvalue, hparse⟩ := sent_eq_some.mp ha
    have hstored := h a ha
    rw [hsaved value a hvalue hparse] at hstored
    by_contra hnone
    rw [not_or, Bool.not_eq_true, Bool.not_eq_true, isSome_eq_false_iff,
      isSome_eq_false_iff] at hnone
    rw [if_pos hnone] at hstored
    cases hstored
  · intro h a ha
    obtain ⟨value, hvalue, hparse⟩ := sent_eq_some.mp ha
    have hkept := h (by rw [ha]; rfl)
    rw [hsaved value a hvalue hparse, if_neg]
    rintro ⟨hnoUrl, hnoModel⟩
    rw [isNone_iff_eq_none] at hnoUrl hnoModel
    rw [hnoUrl, hnoModel] at hkept
    simp at hkept

/-- The file takes every part of a payload exactly when nothing is lost in these four places. -/
theorem settingsApplied_iff (hfree : ∀ tools ∈ config.tools, KeyFree tools) :
    SettingsApplied crates payload (savedConfig crates payload config) ↔
      SettingsKept payload config := by
  have hbackend := @taken_analyze_iff crates payload config hfree _ _ _ _ field_backend rfl
    (fun vision a h => by simp [settledAnalyze, fillAnalyze, setting, nonEmptyTrimmed, h])
    (fun value a vision _ h => by simp [UserVisionToolConfig.isEmpty, h])
  have hdetail := @taken_analyze_iff crates payload config hfree _ _ _ _ field_imageDetail rfl
    (fun vision a h => by simp [settledAnalyze, fillAnalyze, setting, nonEmptyTrimmed, h])
    (fun value a vision _ h => by simp [UserVisionToolConfig.isEmpty, h])
  have hdeepseek := @taken_analyze_iff crates payload config hfree _ _ _ _ field_deepseekModel rfl
    (fun vision a h => h)
    (fun value a vision ha h => by
      simp [UserVisionToolConfig.isEmpty, isBlankSetting, h, visionText_filled ha])
  have hurl := @taken_analyze_iff crates payload config hfree _ _ _ _ field_analyzeUrl rfl
    (fun vision a h => by simp [settledAnalyze, fillAnalyze, h])
    (fun value a vision ha h => by
      simp [UserVisionToolConfig.isEmpty, isBlankSetting, h, visionText_filled ha])
  have hmodel := @taken_analyze_iff crates payload config hfree _ _ _ _ field_analyzeModel rfl
    (fun vision a h => by simp [settledAnalyze, fillAnalyze, h])
    (fun value a vision ha h => by
      simp [UserVisionToolConfig.isEmpty, isBlankSetting, h, visionText_filled ha])
  constructor
  · intro h
    refine ⟨saved_logVerbosity.mp h.logVerbosity, ?_, saved_peakValley.mp h.peakValley, ?_⟩
    · intro mode other hmode hother
      have hfirst := taken_iff.mp h.networkProxy mode hmode
      have hsecond := taken_iff.mp h.webSearchProxy other hother
      rw [hfirst] at hsecond
      exact some.inj hsecond
    · rintro (hsent | hsent | hsent)
      · exact hbackend.mp h.analyzeBackend hsent
      · exact hdetail.mp h.imageDetail hsent
      · exact hdeepseek.mp h.deepseekModel hsent
  · intro h
    have hproxy : (savedConfig crates payload config).proxy = editProxy payload config.proxy := rfl
    have hexperimental : (savedConfig crates payload config).experimental =
        editExperimental payload config.experimental := rfl
    have hupstream : (savedConfig crates payload config).upstream =
        editUpstream payload config.upstream := rfl
    have hmodelSection : (savedConfig crates payload config).model =
        editModel payload config.model := rfl
    have hui : (savedConfig crates payload config).ui = editUi payload config.ui := rfl
    have hcatalog : (savedConfig crates payload config).catalog =
        editCatalog payload config.catalog := rfl
    exact {
      port := taken_editSection hproxy
      transport := taken_editSection hupstream
      credential := taken_editSection hupstream
      modelOverride := taken_editSection hmodelSection
      temperature := taken_editSection hmodelSection
      thinking := taken_editSection hmodelSection
      theme := taken_editSection hui
      language := taken_editSection hui
      autoStart := taken_editSection hui
      modelListInjection := taken_editSection hui
      closeBehavior := taken_editSection hui
      logRetentionDays := taken_editSection hui
      logVerbosity := saved_logVerbosity.mpr h.logVerbosity
      reasoningSummaryMode := taken_editSection hexperimental
      peakValley := saved_peakValley.mpr h.peakValley
      flashCachedInput := taken_billing (fun _ _ => rfl) (taken_editSection rfl)
      flashCacheMissInput := taken_billing (fun _ _ => rfl) (taken_editSection rfl)
      flashOutput := taken_billing (fun _ _ => rfl) (taken_editSection rfl)
      proCachedInput := taken_billing (fun _ _ => rfl) (taken_editSection rfl)
      proCacheMissInput := taken_billing (fun _ _ => rfl) (taken_editSection rfl)
      proOutput := taken_billing (fun _ _ => rfl) (taken_editSection rfl)
      visionCachedInput := taken_billing (fun _ _ => rfl) (taken_editSection rfl)
      visionCacheMissInput := taken_billing (fun _ _ => rfl) (taken_editSection rfl)
      visionOutput := taken_billing (fun _ _ => rfl) (taken_editSection rfl)
      catalogUrl := taken_editSection hcatalog
      catalogRemote := taken_editSection hcatalog
      catalogPricing := by
        intro fields hfields
        refine ⟨_, ?_, pricingTaken fields ((editBilling crates payload config.billing).getD {})⟩
        rw [savedConfig_billing, hfields]
        rfl
      catalogModels := by
        intro entries hentries
        refine ⟨_, ?_, modelsTaken entries (config.models.getD .empty)⟩
        unfold savedConfig userConfigFromPayload
        dsimp only
        rw [hentries]
      networkProxy := by
        rw [taken_iff]
        intro mode hmode
        rw [saved_networkProxy (by simp [networkProxyKeys]) hmode, sentNetworkProxy]
        rw [show (payload.get "NETWORK_PROXY_MODE").bind valueNetworkProxy = some mode from hmode,
          some_or]
      webSearchProxy := by
        rw [taken_iff]
        intro other hother
        rw [saved_networkProxy (by simp [networkProxyKeys]) hother, sentNetworkProxy]
        cases hmode : (payload.get "NETWORK_PROXY_MODE").bind valueNetworkProxy with
        | none => exact hother
        | some mode => rw [some_or, h.networkProxy mode other hmode hother]
      webSearchBackend := saved_webSearchBackend
      enabledTools := saved_enabledTools
      analyzeBackend := hbackend.mpr fun hsent => h.vision (.inl hsent)
      imageDetail := hdetail.mpr fun hsent => h.vision (.inr (.inl hsent))
      deepseekModel := hdeepseek.mpr fun hsent => h.vision (.inr (.inr hsent))
      analyzeUrl := hurl.mpr fun hsent => by
        obtain ⟨a, ha⟩ := isSome_iff_exists.mp hsent
        obtain ⟨value, hvalue, hparse⟩ := sent_eq_some.mp ha
        left
        rw [savedAnalyzeUrl, assign_of_present hvalue, hparse]
        rfl
      analyzeModel := hmodel.mpr fun hsent => by
        obtain ⟨a, ha⟩ := isSome_iff_exists.mp hsent
        obtain ⟨value, hvalue, hparse⟩ := sent_eq_some.mp ha
        right
        rw [savedAnalyzeModel, assign_of_present hvalue, hparse]
        rfl
      generateUrl := fun value hvalue text htext =>
        saved_generate field_generateUrl (.inl rfl) hvalue htext
      generateModel := fun value hvalue text htext =>
        saved_generate field_generateModel (.inr rfl) hvalue htext
      communityTools := fun key hkey hother => saved_community hkey hother }

end

end CodeSeeX.Config
