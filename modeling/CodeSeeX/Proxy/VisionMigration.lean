import CodeSeeX.Proxy.ConfigPayload

/-!
# Keys of the vision tools

Older files hold the keys of the vision tools among the tool settings or in the sections of
the tools. A migration takes them out, and the settings page shows the rest under flat keys.
-/
namespace CodeSeeX.Config
open Option BTreeMap List

/-! ## Secrets -/

/-- A key as it is kept in the credential store: trimmed, and not blank. -/
structure Secret where
  text : Text
  isTrimmed : nonEmptyTrimmed (some text) = some text

namespace Secret

instance : DecidableEq Secret := fun a b =>
  decidable_of_iff (a.text = b.text) ⟨fun h => by cases a; cases b; cases h; rfl, fun h => h ▸ rfl⟩

theorem trim_idem (text : Text) : text.trim.trim = text.trim := by
  have hends := Text.trim_ends text
  exact (Text.trim_of_ends hends.1 hends.2).2

theorem nonEmptyTrimmed_idem {text trimmed : Text} (h : nonEmptyTrimmed (some text) = some trimmed) :
    nonEmptyTrimmed (some trimmed) = some trimmed := by
  obtain ⟨heq, hne⟩ : text.trim = trimmed ∧ trimmed ≠ [] := by
    simp only [nonEmptyTrimmed, map_some, filter_eq_some_iff, some.injEq,
      decide_eq_true_eq] at h
    exact h
  simp only [nonEmptyTrimmed, map_some, filter_eq_some_iff, decide_eq_true_eq,
    ← heq, trim_idem, true_and]
  rw [heq]
  exact hne

/-- `value.map(|value| value.trim().to_owned()).filter(|value| !value.is_empty())` -/
def ofText (value : Option Text) : Option Secret :=
  match h : nonEmptyTrimmed value with
  | some text => some ⟨text, by
      cases value with
      | none => cases h
      | some value => exact nonEmptyTrimmed_idem h⟩
  | none => none

@[simp] theorem ofText_none : ofText none = none := rfl

end Secret

/-! ## Taking keys out of the file -/

def setting (settings : BTreeMap Text Text) (key : Text) : Option Text :=
  nonEmptyTrimmed (settings.get key)

def parseLegacyVisionBackend (value : Text) : Option VisionAnalyzeBackend :=
  if settingLabel value = Text.lit "deepseek" then some .deepseek
  else if settingLabel value ∈ (["external", "custom"] : List Text) then some .external
  else none

def parseLegacyVisionDetail (value : Text) : Option VisionImageDetail :=
  if settingLabel value = Text.lit "auto" then some .auto
  else if settingLabel value = Text.lit "low" then some .low
  else if settingLabel value = Text.lit "original" then some .original
  else none

/-- The flat settings that move into the sections; the DeepSeek model and the shared key stay. -/
def movedVisionKeys : List Text :=
  [analyzeBackendKey, imageDetailKey, analyzeUrlKey, analyzeModelKey, generateUrlKey,
    generateModelKey, analyzeApiKeyKey, generateApiKeyKey]

/-- The section for generated images, made when there is something for it. -/
def fillGenerate (url model apiKey : Option Text)
    (generation : Option UserVisionGenerateToolConfig) : Option UserVisionGenerateToolConfig :=
  if url.isSome ∨ model.isSome ∨ apiKey.isSome then
    let generation := generation.getD {}
    some {
      generateUrl := generation.generateUrl.or url
      generateModel := generation.generateModel.or model
      apiKey := generation.apiKey.or apiKey }
  else generation

/-- The section of the analyzing tool with the flat settings in it. -/
def fillAnalyze (settings : BTreeMap Text Text) (vision : UserVisionToolConfig) :
    UserVisionToolConfig :=
  let analyzeUrl := vision.analyzeUrl.or (setting settings analyzeUrlKey)
  let analyzeModel := vision.analyzeModel.or (setting settings analyzeModelKey)
  let backend := ((setting settings analyzeBackendKey).bind parseLegacyVisionBackend).or
    vision.backend
  let imageDetail := ((setting settings imageDetailKey).bind parseLegacyVisionDetail).or
    vision.imageDetail
  { vision with
    backend := backend.or <| some <|
      if analyzeUrl.any (fun value => !value.isBlank) ∨
          analyzeModel.any (fun value => !value.isBlank) then .external
      else .deepseek
    imageDetail := imageDetail.or (some .auto)
    analyzeUrl := analyzeUrl
    analyzeModel := analyzeModel
    generateUrl := none
    generateModel := none
    analyzeApiKey := vision.analyzeApiKey.or (setting settings analyzeApiKeyKey) }

def hasAnalyzeSetting (settings : BTreeMap Text Text) : Bool :=
  [analyzeBackendKey, imageDetailKey, analyzeUrlKey, analyzeModelKey, analyzeApiKeyKey].any
    fun key => (setting settings key).isSome

variable (tools : UserToolsConfig)

def migrateLegacyVisionTools : UserToolsConfig :=
  let settings := tools.settings.getD .empty
  let remaining := nonEmptySettings (settings.retain fun entry => entry.1 ∉ movedVisionKeys)
  let generateUrl := setting settings generateUrlKey
  let generateModel := setting settings generateModelKey
  let generateApiKey := setting settings generateApiKeyKey
  match tools.visionAnalyze.or (if hasAnalyzeSetting settings then some {} else none) with
  | none =>
      { tools with
        settings := remaining
        visionGenerate := fillGenerate generateUrl generateModel generateApiKey
          tools.visionGenerate }
  | some vision =>
      { tools with
        settings := remaining
        visionAnalyze := some (fillAnalyze settings vision)
        visionGenerate := fillGenerate (vision.generateUrl.or generateUrl)
          (vision.generateModel.or generateModel) generateApiKey tools.visionGenerate }

def removeVisionSecretSettings : UserToolsConfig :=
  { tools with
    settings := tools.settings.bind fun settings =>
      nonEmptySettings (settings.retain fun entry =>
        entry.1 ∉ [apiKeyKey, analyzeApiKeyKey, generateApiKeyKey]) }

/-- A section that holds no address and no model is dropped, whatever else it holds. -/
def UserVisionToolConfig.bare (vision : UserVisionToolConfig) : Bool :=
  vision.analyzeUrl.isNone && vision.analyzeModel.isNone && vision.generateUrl.isNone &&
    vision.generateModel.isNone

def takeLegacySharedVisionKey : Option Secret × UserToolsConfig :=
  match tools.visionAnalyze with
  | none => (none, tools)
  | some vision =>
      (Secret.ofText vision.apiKey,
        { tools with
          visionAnalyze :=
            if vision.bare ∧ vision.analyzeApiKey.isNone then none
            else some { vision with apiKey := none } })

def takeVisionAnalyzeKey : Option Secret × UserToolsConfig :=
  match tools.visionAnalyze with
  | none => (none, tools)
  | some vision =>
      (Secret.ofText vision.analyzeApiKey,
        { tools with
          visionAnalyze :=
            if vision.bare ∧ vision.apiKey.isNone then none
            else some { vision with analyzeApiKey := none } })

def takeVisionGenerateKey : Option Secret × UserToolsConfig :=
  match tools.visionGenerate with
  | none => (none, tools)
  | some vision =>
      (Secret.ofText vision.apiKey,
        { tools with
          visionGenerate :=
            if vision.generateUrl.isNone ∧ vision.generateModel.isNone then none
            else some { vision with apiKey := none } })

def clearLegacyVisionKey : UserToolsConfig :=
  (takeVisionGenerateKey (takeLegacySharedVisionKey (takeVisionAnalyzeKey tools).2).2).2

/-- What the file gives a migration: its keys, and the tools without them. -/
structure VisionMigration where
  sharedKey : Option Secret
  analyzeKey : Option Secret
  generationKey : Option Secret
  tools : UserToolsConfig

def flatSecret (key : Text) : Option Secret :=
  Secret.ofText (tools.settings.bind (·.get key))

def migrateVisionTools : VisionMigration :=
  let migrated := migrateLegacyVisionTools tools
  let (sharedKey, withoutShared) := takeLegacySharedVisionKey (removeVisionSecretSettings migrated)
  let (analyzeKey, withoutAnalyze) := takeVisionAnalyzeKey withoutShared
  let (generationKey, withoutKeys) := takeVisionGenerateKey withoutAnalyze
  { sharedKey := sharedKey.or (flatSecret migrated apiKeyKey)
    analyzeKey := analyzeKey.or (flatSecret migrated analyzeApiKeyKey)
    generationKey := generationKey.or (flatSecret migrated generateApiKeyKey)
    tools := withoutKeys }

/-! ## Settings in effect -/

def insertToolSetting (settings : BTreeMap Text Text) (key : Text) (value : Option Text) :
    BTreeMap Text Text :=
  match nonEmptyTrimmed value with
  | some text => settings.insert key text
  | none => settings

def analyzeToolSettings (settings : BTreeMap Text Text) (vision : UserVisionToolConfig) :
    BTreeMap Text Text :=
  let backend := vision.backend.getD
    (if vision.analyzeUrl.isSome ∨ vision.analyzeModel.isSome then .external else .deepseek)
  let settings := insertToolSetting settings analyzeBackendKey (some backend.label)
  let settings := insertToolSetting settings imageDetailKey
    (some (vision.imageDetail.getD .auto).label)
  let settings := insertToolSetting settings analyzeDeepseekModelKey vision.deepseekModel
  let settings := insertToolSetting settings analyzeUrlKey vision.analyzeUrl
  let settings := insertToolSetting settings analyzeModelKey vision.analyzeModel
  let settings := insertToolSetting settings generateUrlKey vision.generateUrl
  let settings := insertToolSetting settings generateModelKey vision.generateModel
  let settings := insertToolSetting settings analyzeApiKeyKey vision.analyzeApiKey
  insertToolSetting settings apiKeyKey vision.apiKey

def generateToolSettings (settings : BTreeMap Text Text)
    (vision : UserVisionGenerateToolConfig) : BTreeMap Text Text :=
  let settings := insertToolSetting settings generateUrlKey vision.generateUrl
  let settings := insertToolSetting settings generateModelKey vision.generateModel
  insertToolSetting settings generateApiKeyKey vision.apiKey

def toolSettings : BTreeMap Text Text :=
  let settings := tools.settings.getD .empty
  let settings := match tools.visionAnalyze with
    | some vision => analyzeToolSettings settings vision
    | none => settings
  match tools.visionGenerate with
  | some vision => generateToolSettings settings vision
  | none => settings

def toolSettingsFromUserConfig (config : UserConfig) : BTreeMap Text Text :=
  match config.tools with
  | some tools => toolSettings tools
  | none => .empty

/-! ## Tools without keys -/

def secretKeys : List Text := [apiKeyKey, analyzeApiKeyKey, generateApiKeyKey]

/-- No key of a vision tool stands in the file. -/
structure KeyFree (tools : UserToolsConfig) : Prop where
  settings : ∀ settings, tools.settings = some settings → ∀ key ∈ secretKeys,
    settings.get key = none
  analyze : ∀ vision, tools.visionAnalyze = some vision →
    vision.apiKey = none ∧ vision.analyzeApiKey = none
  generate : ∀ vision, tools.visionGenerate = some vision → vision.apiKey = none

theorem keyFree_empty : KeyFree {} where
  settings := fun _ h => by cases h
  analyze := fun _ h => by cases h
  generate := fun _ h => by cases h

theorem get_nonEmptySettings {settings remaining : BTreeMap Text Text}
    (h : nonEmptySettings settings = some remaining) : remaining = settings := by
  unfold nonEmptySettings at h
  split_ifs at h
  exact (some.inj h).symm

variable {settings : BTreeMap Text Text} {key : Text}

theorem get_retain_of_not {p : Text × Text → Bool}
    (h : ∀ value, p (key, value) = false) : (settings.retain p).get key = none := by
  rw [eq_none_iff_forall_ne_some]
  intro value hvalue
  have hmem := (mem_retain.mp (get_eq_some.mp hvalue)).2
  rw [h value] at hmem
  cases hmem

theorem get_retain_of_pos {p : Text × Text → Bool}
    (h : ∀ value, p (key, value) = true) : (settings.retain p).get key = settings.get key := by
  ext value
  show (settings.retain p).get key = some value ↔ settings.get key = some value
  rw [get_eq_some, get_eq_some, mem_retain, h value]
  simp

/-! ### What each step leaves -/

theorem takeLegacyShared_settings :
    (takeLegacySharedVisionKey tools).2.settings = tools.settings := by
  unfold takeLegacySharedVisionKey
  split <;> rfl

theorem takeLegacyShared_generate :
    (takeLegacySharedVisionKey tools).2.visionGenerate = tools.visionGenerate := by
  unfold takeLegacySharedVisionKey
  split <;> rfl

theorem takeAnalyze_settings :
    (takeVisionAnalyzeKey tools).2.settings = tools.settings := by
  unfold takeVisionAnalyzeKey
  split <;> rfl

theorem takeAnalyze_generate :
    (takeVisionAnalyzeKey tools).2.visionGenerate = tools.visionGenerate := by
  unfold takeVisionAnalyzeKey
  split <;> rfl

theorem takeGenerate_settings :
    (takeVisionGenerateKey tools).2.settings = tools.settings := by
  unfold takeVisionGenerateKey
  split <;> rfl

theorem takeGenerate_analyze :
    (takeVisionGenerateKey tools).2.visionAnalyze = tools.visionAnalyze := by
  unfold takeVisionGenerateKey
  split <;> rfl

variable {tools} {vision : UserVisionToolConfig}

theorem takeLegacyShared_analyze
    (h : (takeLegacySharedVisionKey tools).2.visionAnalyze = some vision) :
    ∃ stored, tools.visionAnalyze = some stored ∧ vision = { stored with apiKey := none } := by
  unfold takeLegacySharedVisionKey at h
  split at h
  · next hnone => simp only [hnone, reduceCtorEq] at h
  · next stored hstored =>
    split_ifs at h
    exact ⟨stored, hstored, (some.inj h).symm⟩

theorem takeAnalyze_analyze (h : (takeVisionAnalyzeKey tools).2.visionAnalyze = some vision) :
    ∃ stored, tools.visionAnalyze = some stored ∧
      vision = { stored with analyzeApiKey := none } := by
  unfold takeVisionAnalyzeKey at h
  split at h
  · next hnone => simp only [hnone, reduceCtorEq] at h
  · next stored hstored =>
    split_ifs at h
    exact ⟨stored, hstored, (some.inj h).symm⟩

theorem takeGenerate_apiKey {vision : UserVisionGenerateToolConfig}
    (h : (takeVisionGenerateKey tools).2.visionGenerate = some vision) :
    vision.apiKey = none := by
  unfold takeVisionGenerateKey at h
  split at h
  · next hnone => simp only [hnone, reduceCtorEq] at h
  · simp only at h
    split_ifs at h
    exact (some.inj h) ▸ rfl

theorem removeSecrets_get (h : (removeVisionSecretSettings tools).settings = some settings) :
    ∀ key ∈ secretKeys, settings.get key = none := by
  intro key hkey
  obtain ⟨stored, -, hstored⟩ := bind_eq_some_iff.mp h
  rw [get_nonEmptySettings hstored]
  refine get_retain_of_not fun value => ?_
  have hmem : key ∈ [apiKeyKey, analyzeApiKeyKey, generateApiKeyKey] := hkey
  simp only [hmem, not_true_eq_false, decide_false]

/-- The migration leaves no key in the file. -/
theorem keyFree_migrateVisionTools (tools : UserToolsConfig) :
    KeyFree (migrateVisionTools tools).tools where
  settings := by
    intro settings h
    simp only [migrateVisionTools, takeGenerate_settings, takeAnalyze_settings,
      takeLegacyShared_settings] at h
    exact removeSecrets_get h
  analyze := by
    intro vision h
    simp only [migrateVisionTools, takeGenerate_analyze] at h
    obtain ⟨withoutShared, hwithout, rfl⟩ := takeAnalyze_analyze h
    obtain ⟨stored, -, rfl⟩ := takeLegacyShared_analyze hwithout
    exact ⟨rfl, rfl⟩
  generate := by
    intro vision h
    exact takeGenerate_apiKey h

theorem KeyFree.clear (h : KeyFree tools) : KeyFree (clearLegacyVisionKey tools) where
  settings := by
    intro settings hsettings
    simp only [clearLegacyVisionKey, takeGenerate_settings, takeAnalyze_settings,
      takeLegacyShared_settings] at hsettings
    exact h.settings settings hsettings
  analyze := by
    intro vision hvision
    simp only [clearLegacyVisionKey, takeGenerate_analyze] at hvision
    obtain ⟨withoutAnalyze, hwithout, rfl⟩ := takeLegacyShared_analyze hvision
    obtain ⟨stored, -, rfl⟩ := takeAnalyze_analyze hwithout
    exact ⟨rfl, rfl⟩
  generate := fun _ => takeGenerate_apiKey

/-! ### Edits keep the keys out -/

theorem KeyFree.withWebSearch (h : KeyFree tools)
    (webSearch : Option UserWebSearchToolConfig) : KeyFree { tools with webSearch := webSearch } :=
  ⟨h.settings, h.analyze, h.generate⟩

theorem KeyFree.getD {tools : Option UserToolsConfig} (h : ∀ stored ∈ tools, KeyFree stored) :
    KeyFree (tools.getD {}) := by
  cases tools with
  | none => exact keyFree_empty
  | some stored => exact h stored rfl

theorem keyFree_editWebSearch {payload : Value} {tools : Option UserToolsConfig}
    (h : ∀ stored ∈ tools, KeyFree stored) : ∀ stored ∈ editWebSearch payload tools,
      KeyFree stored := by
  have hcleared : ∀ stored ∈ (if networkProxyKeys.any (present payload) then
      tools.map clearLegacyWebSearchProxy else tools), KeyFree stored := by
    intro stored hstored
    split_ifs at hstored
    · obtain ⟨old, hold, rfl⟩ := mem_map.mp hstored
      exact (h old hold).withWebSearch none
    · exact h stored hstored
  intro stored hstored
  unfold editWebSearch at hstored
  obtain rfl | hstored := mem_editSection hstored
  · exact (KeyFree.getD hcleared).withWebSearch _
  · exact hcleared stored hstored

theorem secretKeys_subset (h : key ∈ secretKeys) : key ∈ visionConfigKeys := by
  simp only [secretKeys, visionConfigKeys, mem_cons, not_mem_nil, or_false] at h ⊢
  obtain rfl | rfl | rfl := h <;> simp

theorem KeyFree.setVision (h : KeyFree tools) (key : Text)
    (value : Option Text) : KeyFree (setVisionToolSetting tools key value) := by
  have hanalyze : (tools.visionAnalyze.getD {}).apiKey = none ∧
      (tools.visionAnalyze.getD {}).analyzeApiKey = none := by
    cases hvision : tools.visionAnalyze with
    | none => exact ⟨rfl, rfl⟩
    | some vision => exact h.analyze vision hvision
  have hgenerate : (tools.visionGenerate.getD {}).apiKey = none := by
    cases hvision : tools.visionGenerate with
    | none => rfl
    | some vision => exact h.generate vision hvision
  unfold setVisionToolSetting
  split_ifs
  case neg => exact h
  all_goals
    refine ⟨h.settings, ?_, ?_⟩
    · first
      | exact h.analyze
      | intro vision hvision
        exact (some.inj hvision) ▸ hanalyze
    · first
      | exact h.generate
      | intro vision hvision
        exact (some.inj hvision) ▸ hgenerate

theorem KeyFree.editToolSetting (h : KeyFree tools) (payload : Value)
    (key : Text) : KeyFree (editToolSetting payload tools key) := by
  unfold Config.editToolSetting
  cases payload.get key with
  | none => exact h
  | some value =>
    simp only
    split_ifs with hkey
    · exact h.setVision key _
    · have hne : ∀ secret ∈ secretKeys, secret ≠ key := by
        intro secret hsecret heq
        exact hkey (heq ▸ secretKeys_subset hsecret)
      cases valueToSettingString value with
      | some text =>
        refine ⟨?_, h.analyze, h.generate⟩
        intro settings hsettings secret hsecret
        rw [← some.inj hsettings, get_insert_ne _ (hne secret hsecret)]
        cases hold : tools.settings with
        | none => rfl
        | some old => exact h.settings old hold secret hsecret
      | none =>
        refine ⟨?_, h.analyze, h.generate⟩
        intro settings hsettings secret hsecret
        obtain ⟨old, hold, rfl⟩ := map_eq_some_iff.mp hsettings
        rw [get_remove_ne (hne secret hsecret)]
        exact h.settings old hold secret hsecret

theorem KeyFree.cleanup (h : KeyFree tools) : KeyFree (cleanupToolSettings tools) where
  settings := by
    intro settings hsettings key hkey
    obtain ⟨stored, -, hstored⟩ := bind_eq_some_iff.mp hsettings
    rw [get_nonEmptySettings hstored]
    refine get_retain_of_not fun value => ?_
    simp only [secretKeys_subset hkey, not_true_eq_false, decide_false]
  analyze := fun vision hvision => h.analyze vision (filter_eq_some_iff.mp hvision).1
  generate := fun vision hvision => h.generate vision (filter_eq_some_iff.mp hvision).1

theorem keyFree_editTools {crates : PayloadCrates} {payload : Value}
    {tools : Option UserToolsConfig} (h : ∀ stored ∈ tools, KeyFree stored) :
    ∀ stored ∈ editTools crates payload tools, KeyFree stored := by
  intro stored hstored
  unfold editTools at hstored
  have hbase := KeyFree.getD h
  split_ifs at hstored with hedit hsettings
  · rw [mem_some_iff] at hstored
    subst hstored
    refine KeyFree.cleanup ?_
    refine foldlRecOn (motive := KeyFree) _ _ ?_ fun tools htools key _ =>
      htools.editToolSetting payload key
    exact ⟨hbase.settings, hbase.analyze, hbase.generate⟩
  · rw [mem_some_iff] at hstored
    subst hstored
    exact ⟨hbase.settings, hbase.analyze, hbase.generate⟩
  · exact h stored hstored

/-! ### Keys of a file without keys -/

section
variable (h : KeyFree tools)
include h

theorem KeyFree.setting_none
    (hkey : key ∈ secretKeys) : (tools.settings.getD .empty).get key = none := by
  cases hsettings : tools.settings with
  | none => rfl
  | some settings => exact h.settings settings hsettings key hkey

theorem KeyFree.migrateLegacy : KeyFree (migrateLegacyVisionTools tools) := by
  have hremaining : ∀ settings, nonEmptySettings ((tools.settings.getD .empty).retain
      fun entry => entry.1 ∉ movedVisionKeys) = some settings → ∀ key ∈ secretKeys,
      settings.get key = none := by
    intro settings hsettings key hkey
    rw [get_nonEmptySettings hsettings, eq_none_iff_forall_ne_some]
    intro value hvalue
    have hold := get_eq_some.mpr (mem_retain.mp (get_eq_some.mp hvalue)).1
    rw [h.setting_none hkey] at hold
    cases hold
  have hanalyzeKey : setting (tools.settings.getD .empty) analyzeApiKeyKey = none := by
    rw [setting, h.setting_none (by simp [secretKeys])]
    rfl
  have hgenerateKey : setting (tools.settings.getD .empty) generateApiKeyKey = none := by
    rw [setting, h.setting_none (by simp [secretKeys])]
    rfl
  have hgenerate : ∀ url model vision,
      fillGenerate url model none tools.visionGenerate = some vision → vision.apiKey = none := by
    intro url model vision hvision
    unfold fillGenerate at hvision
    split_ifs at hvision
    · rw [← some.inj hvision]
      cases hstored : tools.visionGenerate with
      | none => rfl
      | some stored => simp [h.generate stored hstored]
    · exact h.generate vision hvision
  unfold migrateLegacyVisionTools
  simp only [hgenerateKey]
  split
  · next hnone =>
    refine ⟨hremaining, ?_, hgenerate _ _⟩
    intro vision hvision
    have hstored : tools.visionAnalyze = some vision := hvision
    rw [hstored, some_or] at hnone
    cases hnone
  · next vision hsome =>
    refine ⟨hremaining, ?_, hgenerate _ _⟩
    intro filled hfilled
    have hvision : vision.apiKey = none ∧ vision.analyzeApiKey = none := by
      cases hstored : tools.visionAnalyze with
      | some stored =>
        rw [hstored, some_or, some.injEq] at hsome
        exact hsome ▸ h.analyze stored hstored
      | none =>
        rw [hstored, none_or] at hsome
        split_ifs at hsome
        exact (some.inj hsome) ▸ ⟨rfl, rfl⟩
    rw [← some.inj hfilled]
    exact ⟨hvision.1, by simp only [fillAnalyze, hvision.2, hanalyzeKey, or_none]⟩

theorem KeyFree.removeSecrets : KeyFree (removeVisionSecretSettings tools) :=
  ⟨fun _ hsettings => removeSecrets_get hsettings, h.analyze, h.generate⟩

theorem KeyFree.shared_none : (takeLegacySharedVisionKey tools).1 = none := by
  unfold takeLegacySharedVisionKey
  split
  · rfl
  · next vision hvision => simp only [(h.analyze vision hvision).1, Secret.ofText_none]

theorem KeyFree.analyze_none : (takeVisionAnalyzeKey tools).1 = none := by
  unfold takeVisionAnalyzeKey
  split
  · rfl
  · next vision hvision => simp only [(h.analyze vision hvision).2, Secret.ofText_none]

theorem KeyFree.generate_none : (takeVisionGenerateKey tools).1 = none := by
  unfold takeVisionGenerateKey
  split
  · rfl
  · next vision hvision => simp only [h.generate vision hvision, Secret.ofText_none]

theorem KeyFree.flat_none (hkey : key ∈ secretKeys) : flatSecret tools key = none := by
  unfold flatSecret
  cases hsettings : tools.settings with
  | none => rfl
  | some settings => simp [h.settings settings hsettings key hkey]

theorem KeyFree.takeShared : KeyFree (takeLegacySharedVisionKey tools).2 where
  settings := by rw [takeLegacyShared_settings]; exact h.settings
  analyze := by
    intro vision hvision
    obtain ⟨stored, hstored, rfl⟩ := takeLegacyShared_analyze hvision
    exact ⟨rfl, (h.analyze stored hstored).2⟩
  generate := by rw [takeLegacyShared_generate]; exact h.generate

theorem KeyFree.takeAnalyze : KeyFree (takeVisionAnalyzeKey tools).2 where
  settings := by rw [takeAnalyze_settings]; exact h.settings
  analyze := by
    intro vision hvision
    obtain ⟨stored, hstored, rfl⟩ := takeAnalyze_analyze hvision
    exact ⟨(h.analyze stored hstored).1, rfl⟩
  generate := by rw [takeAnalyze_generate]; exact h.generate

/-- A file without keys gives a migration none. -/
theorem KeyFree.migrate_none :
    (migrateVisionTools tools).sharedKey = none ∧ (migrateVisionTools tools).analyzeKey = none ∧
      (migrateVisionTools tools).generationKey = none := by
  have hmigrated := h.migrateLegacy
  have hremoved := hmigrated.removeSecrets
  simp only [migrateVisionTools, hremoved.shared_none, hremoved.takeShared.analyze_none,
    hremoved.takeShared.takeAnalyze.generate_none, none_or]
  exact ⟨hmigrated.flat_none (by simp [secretKeys]), hmigrated.flat_none (by simp [secretKeys]),
    hmigrated.flat_none (by simp [secretKeys])⟩

end

@[simp] theorem insertToolSetting_none (settings : BTreeMap Text Text) (key : Text) :
    insertToolSetting settings key none = settings := rfl

theorem get_insertToolSetting_ne {key other : Text} {value : Option Text} (h : other ≠ key) :
    (insertToolSetting settings key value).get other = settings.get other := by
  unfold insertToolSetting
  split
  · exact get_insert_ne _ h
  · rfl

theorem get_analyzeToolSettings
    (hshared : vision.apiKey = none) (hown : vision.analyzeApiKey = none)
    (hkey : key ∈ secretKeys) :
    (analyzeToolSettings settings vision).get key = settings.get key := by
  simp only [secretKeys, mem_cons, not_mem_nil, or_false] at hkey
  obtain rfl | rfl | rfl := hkey <;>
    simp (disch := decide) only [analyzeToolSettings, hshared, hown, insertToolSetting_none,
      get_insertToolSetting_ne]

theorem get_generateToolSettings
    {vision : UserVisionGenerateToolConfig} (hown : vision.apiKey = none)
    (hkey : key ∈ secretKeys) :
    (generateToolSettings settings vision).get key = settings.get key := by
  simp only [secretKeys, mem_cons, not_mem_nil, or_false] at hkey
  obtain rfl | rfl | rfl := hkey <;>
    simp (disch := decide) only [generateToolSettings, hown, insertToolSetting_none,
      get_insertToolSetting_ne]

/-- Tools without keys have none among the settings in effect. -/
theorem KeyFree.toolSettings_none (h : KeyFree tools)
    (hkey : key ∈ secretKeys) : (toolSettings tools).get key = none := by
  have hanalyze : (match tools.visionAnalyze with
      | some vision => analyzeToolSettings (tools.settings.getD .empty) vision
      | none => tools.settings.getD .empty).get key = none := by
    split
    · next vision hvision =>
      obtain ⟨hshared, hown⟩ := h.analyze vision hvision
      rw [get_analyzeToolSettings hshared hown hkey, h.setting_none hkey]
    · exact h.setting_none hkey
  unfold toolSettings
  simp only
  split
  · next vision hvision =>
    rw [get_generateToolSettings (h.generate vision hvision) hkey]
    exact hanalyze
  · exact hanalyze

end CodeSeeX.Config
