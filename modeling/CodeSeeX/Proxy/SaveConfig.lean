import CodeSeeX.General.Fallible
import CodeSeeX.Proxy.ConfigEditors
import CodeSeeX.Proxy.SavedSettings

/-!
# One save, step by step

A save writes credentials, then Codex's file, then its own file, and returns on its first error.
What was written before stays, so a save that may fail late must not have changed anything.
-/
namespace CodeSeeX.Config

open Fallible Option List

/-! ## What a save finds -/

/-- The slots of the credential store. -/
@[ext] structure Vault where
  analyze : Option Secret
  generate : Option Secret
  legacy : Option Secret

namespace Vault

def withAnalyze (key : Option Secret) (v : Vault) : Vault := { v with analyze := key }
def withGenerate (key : Option Secret) (v : Vault) : Vault := { v with generate := key }
def withLegacy (key : Option Secret) (v : Vault) : Vault := { v with legacy := key }

end Vault

/-- CodeSeeX's config file. One that exists and cannot be read or parsed is unreadable. -/
inductive OwnFile where
  | missing
  | settings (config : UserConfig)
  | unreadable

/-- `UserConfig::read_from(path).unwrap_or_default()` -/
def OwnFile.read : OwnFile → UserConfig
  | .settings config => config
  | _ => {}

/-- Codex's file is none where its home cannot be resolved. -/
structure SaveWorld where
  file : OwnFile
  codex : Option CodexConfig.ConfigFile
  vault : Vault

variable (f : Vault → Vault) (b : Bool) {s : SaveWorld} (slot : Vault → Option Secret)
  (write : Option Secret → Vault → Vault) {E : SaveWorld → Prop} {Q : Unit → SaveWorld → Prop}

/-- The crates of a save, the version of its own file, and the printer of that file, which fails
for some settings. -/
structure SaveCrates where
  payload : PayloadCrates
  toml : CodexConfig.Toml
  urls : CodexConfig.UrlCrate
  version : Text
  serializes : UserConfig → Bool

inductive SaveError where
  | versionConflict
  | credential
  | codexConfig
  | configFile

/-! ## Its steps -/

abbrev Saving (α : Type) : Type := Fallible SaveWorld SaveError α

def onVault (f : Vault → Vault) (w : SaveWorld) : SaveWorld := { w with vault := f w.vault }

/-- A write or a deletion in the credential store. -/
def store (f : Vault → Vault) : Saving Unit := perform .credential (onVault f)

def runWhen (b : Bool) (m : Saving Unit) : Saving Unit := if b then m else pure ()

section Migration
variable (migrated : Option VisionMigration) (legacy : Option Secret)

/-- The shared key of the file, or that of the store. -/
def sharedFound : Option Secret := (migrated.bind (·.sharedKey)).or legacy

def analyzeFound : Option Secret := (migrated.bind (·.analyzeKey)).or (sharedFound migrated legacy)

def hasGeneration : Bool := migrated.any fun migration => migration.tools.visionGenerate.isSome

def generationFound : Option Secret :=
  (migrated.bind (·.generationKey)).or
    (if hasGeneration migrated then sharedFound migrated legacy else none)

end Migration

/-- A slot that a key is read from keeps it; a failing read is taken for an empty slot. -/
def moveKey (slot : Vault → Option Secret) (write : Option Secret → Vault → Vault)
    (key : Option Secret) : Saving Unit :=
  match key with
  | none => pure ()
  | some key => do
      let configured ← glimpse (fun w => (slot w.vault).isSome) false
      runWhen (!configured) (store (write (some key)))

/-- The moves of a migration, once the legacy key of the store was read. -/
def moveKeys (migrated : Option VisionMigration) (legacy : Option Secret) : Saving Unit := do
  moveKey Vault.analyze Vault.withAnalyze (analyzeFound migrated legacy)
  moveKey Vault.generate Vault.withGenerate
    (if hasGeneration migrated then generationFound migrated legacy else none)
  runWhen ((analyzeFound migrated legacy).isSome || (generationFound migrated legacy).isSome)
    (store (Vault.withLegacy none))

/-- The key of the store is read where the file has no shared key. -/
def readLegacy (migrated : Option VisionMigration) : Saving (Option Secret) :=
  match migrated.bind (·.sharedKey) with
  | some _ => pure none
  | none => glimpse (·.vault.legacy) none

/-- The settings that a migration leaves. -/
def migratedConfig (config : UserConfig) : UserConfig :=
  { config with tools := (config.tools.map migrateVisionTools).map (·.tools) }

def migrateLegacyVisionSecret (config : UserConfig) : Saving UserConfig := do
  let legacy ← readLegacy (config.tools.map migrateVisionTools)
  moveKeys (config.tools.map migrateVisionTools) legacy
  pure (migratedConfig config)

def payloadBool (payload : Value) (key : Text) : Bool :=
  match payload.get key with
  | some (.bool value) => value
  | some (.string value) => settingLabel value ∈ (["1", "true", "yes", "on", "enabled"] : List Text)
  | _ => false

def secretPayloadValue (payload : Value) (key : Text) : Option Secret :=
  Secret.ofText ((payload.get key).bind Value.asStr)

section Payload
variable (payload : Value)

def clearsAnalyze : Bool :=
  payloadBool payload "VISION_API_KEY_CLEAR" || payloadBool payload "VISION_ANALYZE_API_KEY_CLEAR"

def clearsGenerate : Bool :=
  payloadBool payload "VISION_API_KEY_CLEAR" || payloadBool payload "VISION_GENERATE_API_KEY_CLEAR"

/-- The key for analyzing; the shared key stands in for it. -/
def analyzeSent : Option Secret :=
  (secretPayloadValue payload analyzeApiKeyKey).or (secretPayloadValue payload apiKeyKey)

def generateSent : Option Secret := secretPayloadValue payload generateApiKeyKey

def dropsShared : Bool :=
  (secretPayloadValue payload apiKeyKey).isSome || payloadBool payload "VISION_API_KEY_CLEAR"

def putKey (write : Option Secret → Vault → Vault) (key : Option Secret) : Saving Unit :=
  match key with
  | none => pure ()
  | some key => store (write (some key))

/-- The settings behind the credentials of a payload. -/
def withoutShared (config : UserConfig) : UserConfig :=
  if dropsShared payload then { config with tools := config.tools.map clearLegacyVisionKey }
  else config

def applySecretPayload (config : UserConfig) : Saving UserConfig := do
  runWhen (clearsAnalyze payload) (store (Vault.withAnalyze none))
  runWhen (clearsAnalyze payload) (store (Vault.withLegacy none))
  runWhen (clearsGenerate payload) (store (Vault.withGenerate none))
  putKey Vault.withAnalyze (analyzeSent payload)
  putKey Vault.withGenerate (generateSent payload)
  runWhen (dropsShared payload) (attempt (onVault (Vault.withLegacy none)))
  pure (withoutShared payload config)

end Payload

section Save
variable (crates : SaveCrates) (payload : Value)

/-- The address of the upstream in a payload. -/
def sentUpstream : Option Text :=
  ((payload.get "DEEPSEEK_BASE_URL").bind Value.asStr).map fun raw =>
    if raw.trim = [] then [] else CodexConfig.normalizeBaseUrl crates.urls raw.trim

def upserted (file : CodexConfig.ConfigFile) (value : Text) :
    Except CodexConfig.UpsertError Bool × CodexConfig.ConfigFile :=
  CodexConfig.upsertUpstreamBaseUrl crates.toml crates.urls true file value

/-- A write that is needed may fail. -/
def saveUpstream : Option Text → Saving Unit
  | none => pure ()
  | some value => do
      let codex ← read (·.codex)
      match codex with
      | none => throw .codexConfig
      | some file =>
          match upserted crates file value with
          | (.error _, _) => throw .codexConfig
          | (.ok false, _) => pure ()
          | (.ok true, updated) =>
              perform .codexConfig fun w => { w with codex := some updated }

/-- `user_config.write_atomic(&config.config_path())` -/
def writeConfig (config : UserConfig) : Saving Unit :=
  if crates.serializes config then
    perform .configFile fun w => { w with file := .settings config }
  else throw .configFile

def clientVersion : Option Text :=
  ((payload.get "CONFIG_VERSION").or (payload.get "config_version")).bind Value.asStr

def saveConfig : Saving Unit :=
  if Editors.versionConflict (clientVersion payload) crates.version then throw .versionConflict
  else do
    let existing ← read (·.file.read)
    let existing ← migrateLegacyVisionSecret existing
    let existing ← applySecretPayload payload existing
    let user ← migrateLegacyVisionSecret (userConfigFromPayload crates.payload payload existing)
    saveUpstream crates (sentUpstream crates payload)
    writeConfig crates user

end Save

/-! ## What a save promises -/

section Effects
variable (file : OwnFile)

/-- A key that the file holds for a tool. -/
def fileKey (key : Text) : Option Secret :=
  match file with
  | .settings config => Secret.ofText ((toolSettingsFromUserConfig config).get key)
  | _ => none

def fileAnalyze : Option Secret := (fileKey file analyzeApiKeyKey).or (fileKey file apiKeyKey)

def fileGenerate : Option Secret := fileKey file generateApiKeyKey

end Effects

/-- The keys that the tools run with. -/
def analyzeInEffect (w : SaveWorld) : Option Secret :=
  (w.vault.analyze.or w.vault.legacy).or (fileAnalyze w.file)

def generateInEffect (w : SaveWorld) : Option Secret := w.vault.generate.or (fileGenerate w.file)

/-- Both files and the keys in effect are what they were. -/
structure Unchanged (w after : SaveWorld) : Prop where
  file : after.file = w.file
  codex : after.codex = w.codex
  analyze : analyzeInEffect after = analyzeInEffect w
  generate : generateInEffect after = generateInEffect w

/-- A key that is sent is in effect; one that is cleared and not sent is gone. -/
def KeyApplied (sent : Option Secret) (cleared : Bool) (inEffect : Option Secret) : Prop :=
  (∀ key ∈ sent, inEffect = some key) ∧ (sent = none → cleared → inEffect = none)

/-- Every part of the payload is applied. -/
structure SaveApplied (crates : SaveCrates) (payload : Value) (after : SaveWorld) : Prop where
  settings : ∃ config, after.file = .settings config ∧
    SettingsApplied crates.payload payload config
  upstream : ∀ value ∈ sentUpstream crates payload,
    after.codex.bind (CodexConfig.readUpstreamBaseUrlFrom crates.toml) =
      CodexConfig.expectedUpstream crates.urls value
  analyze : KeyApplied (analyzeSent payload) (clearsAnalyze payload) (analyzeInEffect after)
  generate : KeyApplied (generateSent payload) (clearsGenerate payload) (generateInEffect after)

/-- Whatever operations fail, an error leaves everything as it was, and a success applies the
whole payload and replaces no file that it could not read. -/
def SaveAtomic (crates : SaveCrates) (payload : Value) (w : SaveWorld) : Prop :=
  Always (saveConfig crates payload) (Unchanged w)
    (fun _ after => SaveApplied crates payload after ∧
      (w.file = .unreadable → after.file = .unreadable)) w

/-! ## When it keeps the promise -/

section Condition
variable (crates : SaveCrates) (payload : Value) (w : SaveWorld)

/-- What a migration finds in the file. -/
def foundInFile : Option VisionMigration := w.file.read.tools.map migrateVisionTools

/-- The settings that the payload is applied to. -/
def savedBase : UserConfig :=
  withoutShared payload (migratedConfig w.file.read)

/-- The settings behind the payload. -/
def savedUser : UserConfig := userConfigFromPayload crates.payload payload (savedBase payload w)

/-- Every key that the migration may move is the one in effect already, and the legacy key that it
deletes is not needed. -/
structure MigrationSafe : Prop where
  analyze : ∀ legacy ∈ [w.vault.legacy, none], ∀ key ∈ analyzeFound (foundInFile w) legacy,
    analyzeInEffect w = some key
  generate : hasGeneration (foundInFile w) → ∀ legacy ∈ [w.vault.legacy, none],
    ∀ key ∈ generationFound (foundInFile w) legacy, generateInEffect w = some key
  legacy : ∀ legacy ∈ [w.vault.legacy, none], analyzeFound (foundInFile w) legacy = none →
    (generationFound (foundInFile w) legacy).isSome →
    w.vault.analyze.or (fileAnalyze w.file) = analyzeInEffect w

/-- A key that is sent is in effect already, and a key that is cleared is that of the file. -/
structure SecretsSafe : Prop where
  clearAnalyze : clearsAnalyze payload → fileAnalyze w.file = analyzeInEffect w
  clearGenerate : clearsGenerate payload → fileGenerate w.file = generateInEffect w
  analyze : ∀ key ∈ analyzeSent payload, analyzeInEffect w = some key
  generate : ∀ key ∈ generateSent payload, generateInEffect w = some key

/-- The legacy key of the store may be left to the second migration, which then has a section for
generated images to move it to. -/
structure LegacyLeft (legacy : Secret) : Prop where
  stored : w.vault.legacy = some legacy
  noAnalyze : analyzeFound (foundInFile w) none = none
  noGeneration : generationFound (foundInFile w) none = none
  kept : clearsAnalyze payload = false
  section_ : hasGeneration ((savedUser crates payload w).tools.map migrateVisionTools)

/-- The edit of Codex's file succeeds, and the settings can be written. -/
structure ReachesFile : Prop where
  upstream : ∀ value ∈ sentUpstream crates payload, ∃ file ∈ w.codex, ∃ changed,
    (upserted crates file value).1 = .ok changed
  serializes : crates.serializes (savedConfig crates.payload payload (savedBase payload w))

/-- The file is written from settings that were read, and it takes the whole payload. -/
structure FileSafe : Prop where
  readable : w.file ≠ .unreadable
  settings : SettingsKept payload (savedBase payload w)
  upstream : ∀ value ∈ sentUpstream crates payload,
    w.codex.bind (CodexConfig.readUpstreamBaseUrlFrom crates.toml) =
      CodexConfig.expectedUpstream crates.urls value
  cleared : ∀ legacy, LegacyLeft crates payload w legacy → clearsGenerate payload →
    (generateSent payload).isSome

/-- No step in front of the last write changes anything that counts. -/
structure SaveSafe : Prop where
  migration : MigrationSafe w
  secrets : SecretsSafe payload w
  late : ∀ legacy, LegacyLeft crates payload w legacy → generateInEffect w = some legacy
  upstream : ∀ value ∈ sentUpstream crates payload, ∀ file ∈ w.codex,
    (upserted crates file value).2 = file
  file : ReachesFile crates payload w → FileSafe crates payload w

end Condition

/-! ## Steps on the credential store -/

def SaveWorld.withVault (w : SaveWorld) (v : Vault) : SaveWorld := { w with vault := v }

section Steps
variable {w : SaveWorld} {v : Vault} {α : Type} {E : SaveWorld → Prop}
  {Q : Unit → SaveWorld → Prop}

/-- The keys in effect with these slots are what they were. -/
structure Kept (w : SaveWorld) (v : Vault) : Prop where
  analyze : (v.analyze.or v.legacy).or (fileAnalyze w.file) = analyzeInEffect w
  generate : v.generate.or (fileGenerate w.file) = generateInEffect w

theorem kept_self (w : SaveWorld) : Kept w w.vault := ⟨rfl, rfl⟩

theorem unchanged_withVault : Unchanged w (w.withVault v) ↔ Kept w v := by
  constructor
  · exact fun h => ⟨h.analyze, h.generate⟩
  · exact fun h => ⟨rfl, rfl, h.analyze, h.generate⟩

theorem always_store :
    Always (store f) E Q (w.withVault v) ↔ E (w.withVault v) ∧ Q () (w.withVault (f v)) :=
  always_perform _ _

theorem always_runWhen (m : Saving Unit) :
    Always (runWhen b m) E Q s ↔ (b = true → Always m E Q s) ∧ (b = false → Q () s) := by
  cases b
  · simp [runWhen]
  · simp [runWhen]

theorem always_moveKey (write : Option Secret → Vault → Vault) (key : Secret) :
    Always (moveKey slot write (some key)) E Q (w.withVault v) ↔
      E (w.withVault v) ∧ Q () (w.withVault (write (some key) v)) ∧
        ((slot v).isSome → Q () (w.withVault v)) := by
  show Always (glimpse _ false >>= _) E Q (w.withVault v) ↔ _
  simp only [always_bind, always_glimpse, always_runWhen, always_store]
  rw [show (w.withVault v).vault = v from rfl]
  cases (slot v).isSome
  · simp
  · simp
    tauto

theorem idles_store : Idles (store f) := (failsAtOnce_perform _ _).idles

theorem idles_runWhen {m : Saving Unit} (h : Idles m) : Idles (runWhen b m) := by
  cases b
  · exact idles_pure ()
  · exact h

theorem idles_moveKey (write : Option Secret → Vault → Vault) (key : Option Secret) :
    Idles (moveKey slot write key) := by
  cases key with
  | none => exact idles_pure ()
  | some key => exact (idles_glimpse _ _).bind fun _ => idles_runWhen _ (idles_store _)

theorem idles_putKey (key : Option Secret) :
    Idles (putKey write key) := by
  cases key with
  | none => exact idles_pure ()
  | some key => exact idles_store _

end Steps

/-! ### Migrations -/

section Moves
variable {w : SaveWorld} {v v' : Vault} {migrated : Option VisionMigration}
  {legacy : Option Secret}

/-- What a migration does to the slots. -/
structure Moved (migrated : Option VisionMigration) (legacy : Option Secret) (v v' : Vault) :
    Prop where
  analyze : v'.analyze = v.analyze ∨
    ∃ key ∈ analyzeFound migrated legacy, v'.analyze = some key
  generate : v'.generate = v.generate ∨
    (hasGeneration migrated ∧ ∃ key ∈ generationFound migrated legacy, v'.generate = some key)
  legacy : v'.legacy = none ∨ (v'.legacy = v.legacy ∧ analyzeFound migrated legacy = none ∧
    generationFound migrated legacy = none)

/-- The slots when every move took place. -/
def moved (migrated : Option VisionMigration) (legacy : Option Secret) (v : Vault) : Vault where
  analyze := (analyzeFound migrated legacy).or v.analyze
  generate := (if hasGeneration migrated then generationFound migrated legacy else none).or
    v.generate
  legacy := if (analyzeFound migrated legacy).isSome || (generationFound migrated legacy).isSome
    then none else v.legacy

theorem moveKey_rule {slot : Vault → Option Secret} {write : Option Secret → Vault → Vault}
    {key : Option Secret} {P : Vault → Prop} (hkept : Kept w v)
    (hskip : key = none ∨ (slot v).isSome → P v) (hwrite : ∀ k ∈ key, P (write (some k) v)) :
    Always (moveKey slot write key) (Unchanged w) (fun _ after => ∃ v', after = w.withVault v' ∧
      P v') (w.withVault v) := by
  cases key with
  | none =>
    rw [moveKey, always_pure]
    exact ⟨v, rfl, hskip (.inl rfl)⟩
  | some key =>
    rw [always_moveKey]
    refine ⟨unchanged_withVault.mpr hkept, ⟨_, rfl, hwrite key rfl⟩, fun hslot => ?_⟩
    exact ⟨v, rfl, hskip (.inr hslot)⟩

theorem moveKeys_keeps (hkept : Kept w v)
    (hanalyze : ∀ key ∈ analyzeFound migrated legacy, analyzeInEffect w = some key)
    (hgenerate : hasGeneration migrated → ∀ key ∈ generationFound migrated legacy,
      generateInEffect w = some key)
    (hlegacy : analyzeFound migrated legacy = none → (generationFound migrated legacy).isSome →
      v.analyze.or (fileAnalyze w.file) = analyzeInEffect w) :
    Always (moveKeys migrated legacy) (Unchanged w)
      (fun _ after => ∃ v', after = w.withVault v' ∧ Kept w v' ∧ Moved migrated legacy v v')
      (w.withVault v) := by
  have hfirst := @moveKey_rule w v Vault.analyze Vault.withAnalyze
    (analyzeFound migrated legacy) (fun v1 => Kept w v1 ∧ v1.generate = v.generate ∧
      v1.legacy = v.legacy ∧
      ((v1.analyze = v.analyze ∧ (analyzeFound migrated legacy = none ∨ v.analyze.isSome)) ∨
        ∃ key ∈ analyzeFound migrated legacy, v1.analyze = some key)) hkept
    (fun hskip => ⟨hkept, rfl, rfl, .inl ⟨rfl, hskip⟩⟩)
    (fun key hkey => ⟨⟨(hanalyze key hkey).symm, hkept.generate⟩, rfl, rfl,
      .inr ⟨key, hkey, rfl⟩⟩)
  unfold moveKeys
  rw [always_bind]
  refine hfirst.imp (fun _ h => h) fun _ after hafter => ?_
  obtain ⟨v1, rfl, hkept1, hgenerate1, hlegacy1, hanalyze1⟩ := hafter
  have hsecond := @moveKey_rule w v1 Vault.generate Vault.withGenerate
    (if hasGeneration migrated then generationFound migrated legacy else none)
    (fun v2 => Kept w v2 ∧ v2.analyze = v1.analyze ∧ v2.legacy = v1.legacy ∧
      (v2.generate = v.generate ∨ (hasGeneration migrated ∧
        ∃ key ∈ generationFound migrated legacy, v2.generate = some key))) hkept1
    (fun _ => ⟨hkept1, rfl, rfl, .inl hgenerate1⟩)
    (fun key hkey => by
      split_ifs at hkey with hgeneration
      · exact ⟨⟨hkept1.analyze, (hgenerate hgeneration key hkey).symm⟩, rfl, rfl,
          .inr ⟨hgeneration, key, hkey, rfl⟩⟩
      · cases hkey)
  rw [always_bind]
  refine hsecond.imp (fun _ h => h) fun _ after hafter => ?_
  obtain ⟨v2, rfl, hkept2, hanalyze2, hlegacy2, hgenerate2⟩ := hafter
  have hanalyzeMoved : v2.analyze = v.analyze ∨
      ∃ key ∈ analyzeFound migrated legacy, v2.analyze = some key := by
    rw [hanalyze2]
    exact hanalyze1.imp_left And.left
  rw [always_runWhen]
  constructor
  · intro hfound
    rw [always_store]
    refine ⟨unchanged_withVault.mpr hkept2, _, rfl, ⟨?_, hkept2.generate⟩,
      hanalyzeMoved, hgenerate2, .inl rfl⟩
    -- The key in effect does not come from the slot that is deleted.
    show (v2.analyze.or none).or (fileAnalyze w.file) = analyzeInEffect w
    rw [or_none, hanalyze2]
    rcases hanalyze1 with ⟨hsame, hnone | hslot⟩ | ⟨key, hkey, hwritten⟩
    · rw [hsame]
      refine hlegacy hnone ?_
      rwa [hnone, isSome_none, Bool.false_or] at hfound
    · obtain ⟨key, hkey⟩ := isSome_iff_exists.mp hslot
      have heffect := hkept.analyze
      rw [hkey, some_or, some_or] at heffect
      rw [hsame, hkey, some_or, heffect]
    · rw [hwritten, some_or, hanalyze key hkey]
  · intro hfound
    rw [Bool.or_eq_false_iff, isSome_eq_false_iff, isSome_eq_false_iff,
      isNone_iff_eq_none, isNone_iff_eq_none] at hfound
    exact ⟨v2, rfl, hkept2, hanalyzeMoved, hgenerate2, .inr ⟨hlegacy2.trans hlegacy1, hfound⟩⟩

/-- The write that a move ends with when its slot is not read. -/
theorem always_moveKey_write {slot : Vault → Option Secret} {write : Option Secret → Vault → Vault}
    {key : Option Secret} (h : Always (moveKey slot write key) E Q (w.withVault v)) :
    (key = none → Q () (w.withVault v)) ∧ ∀ k ∈ key, Q () (w.withVault (write (some k) v)) := by
  cases key with
  | none =>
    rw [moveKey, always_pure] at h
    exact ⟨fun _ => h, fun k hk => by cases hk⟩
  | some key =>
    rw [always_moveKey] at h
    refine ⟨fun hnone => (by cases hnone), fun k hk => ?_⟩
    exact hk ▸ h.2.1

/-- What a migration must find for its errors to change nothing. -/
theorem moveKeys_needs (h : Always (moveKeys migrated legacy) (Unchanged w) Q (w.withVault v)) :
    (∀ key ∈ analyzeFound migrated legacy, analyzeInEffect w = some key) ∧
      (hasGeneration migrated → ∀ key ∈ generationFound migrated legacy,
        generateInEffect w = some key) ∧
      Q () (w.withVault (moved migrated legacy v)) := by
  unfold moveKeys at h
  rw [always_bind] at h
  have hfirst := always_moveKey_write h
  -- The slots behind the first move.
  have hanalyzed : Always (do
      moveKey Vault.generate Vault.withGenerate
        (if hasGeneration migrated then generationFound migrated legacy else none)
      runWhen ((analyzeFound migrated legacy).isSome || (generationFound migrated legacy).isSome)
        (store (Vault.withLegacy none))) (Unchanged w) Q
      (w.withVault { v with analyze := (analyzeFound migrated legacy).or v.analyze }) := by
    cases hkey : analyzeFound migrated legacy with
    | none =>
      rw [hkey] at hfirst
      exact hfirst.1 rfl
    | some key =>
      rw [hkey] at hfirst
      exact hfirst.2 key rfl
  generalize hv1 : ({ v with analyze := (analyzeFound migrated legacy).or v.analyze } : Vault) = v1
    at hanalyzed
  have hsecond := always_moveKey_write ((always_bind _ _).mp hanalyzed)
  have hgenerated : Always (runWhen ((analyzeFound migrated legacy).isSome ||
      (generationFound migrated legacy).isSome) (store (Vault.withLegacy none))) (Unchanged w) Q
      (w.withVault { v1 with generate := (if hasGeneration migrated then
        generationFound migrated legacy else none).or v1.generate }) := by
    cases hkey : (if hasGeneration migrated then generationFound migrated legacy else none) with
    | none =>
      rw [hkey] at hsecond
      exact hsecond.1 rfl
    | some key =>
      rw [hkey] at hsecond
      exact hsecond.2 key rfl
  generalize hv2 : ({ v1 with generate := (if hasGeneration migrated then
    generationFound migrated legacy else none).or v1.generate } : Vault) = v2 at hgenerated
  rw [always_runWhen] at hgenerated
  refine ⟨fun key hkey => ?_, fun hgeneration key hkey => ?_, ?_⟩
  · have hfound : ((analyzeFound migrated legacy).isSome ||
        (generationFound migrated legacy).isSome) = true := by
      rw [mem_def.mp hkey]
      rfl
    have hkept := unchanged_withVault.mp ((always_store _).mp (hgenerated.1 hfound)).1
    have heffect := hkept.analyze
    rw [← hv2, ← hv1, mem_def.mp hkey] at heffect
    exact heffect.symm
  · have hfound : ((analyzeFound migrated legacy).isSome ||
        (generationFound migrated legacy).isSome) = true := by
      rw [mem_def.mp hkey, isSome_some, Bool.or_true]
    have hkept := unchanged_withVault.mp ((always_store _).mp (hgenerated.1 hfound)).1
    have heffect := hkept.generate
    rw [← hv2, if_pos hgeneration, mem_def.mp hkey] at heffect
    exact heffect.symm
  · have hmoved : moved migrated legacy v = if ((analyzeFound migrated legacy).isSome ||
        (generationFound migrated legacy).isSome) then v2.withLegacy none else v2 := by
      rw [moved, ← hv2, ← hv1]
      split_ifs <;> rfl
    rw [hmoved]
    split_ifs with hfound
    · exact ((always_store _).mp (hgenerated.1 hfound)).2
    · exact hgenerated.2 (Bool.not_eq_true _ ▸ hfound)

theorem found_of_shared {migrated : Option VisionMigration} {key : Secret}
    (h : migrated.bind (·.sharedKey) = some key) (legacy : Option Secret) :
    analyzeFound migrated legacy = analyzeFound migrated none ∧
      generationFound migrated legacy = generationFound migrated none := by
  rw [analyzeFound, analyzeFound, generationFound, generationFound, sharedFound, sharedFound, h]
  exact ⟨rfl, rfl⟩

/-- The key of the store is read, or the reading fails. -/
theorem always_migrate {config : UserConfig} {Q : UserConfig → SaveWorld → Prop} :
    Always (migrateLegacyVisionSecret config) E Q (w.withVault v) ↔
      ∀ legacy ∈ [v.legacy, none],
        Always (moveKeys (config.tools.map migrateVisionTools) legacy) E
          (fun _ after => Q (migratedConfig config) after) (w.withVault v) := by
  have hvault : (w.withVault v).vault.legacy = v.legacy := rfl
  simp only [migrateLegacyVisionSecret, always_bind, always_pure]
  rw [readLegacy, forall_mem_cons, forall_mem_singleton]
  cases hshared : (config.tools.map migrateVisionTools).bind (·.sharedKey) with
  | none => rw [always_glimpse, hvault]
  | some key =>
    have hsame : moveKeys (config.tools.map migrateVisionTools) v.legacy =
        moveKeys (config.tools.map migrateVisionTools) none := by
      obtain ⟨hanalyze, hgeneration⟩ := found_of_shared hshared v.legacy
      rw [moveKeys, moveKeys, hanalyze, hgeneration]
    rw [always_pure, hsame, and_self_iff]

theorem idles_migrate (config : UserConfig) : Idles (migrateLegacyVisionSecret config) := by
  have hmoves : ∀ legacy, Idles (moveKeys (config.tools.map migrateVisionTools) legacy) := by
    intro legacy
    exact (idles_moveKey _ _ _).bind fun _ => (idles_moveKey _ _ _).bind fun _ =>
      idles_runWhen _ (idles_store _)
  refine Idles.bind ?_ fun legacy => (hmoves legacy).bind fun _ => idles_pure _
  rw [readLegacy]
  split
  · exact idles_pure _
  · exact idles_glimpse _ _

end Moves

/-! ### The keys of a payload -/

section Secrets
variable {w : SaveWorld} {v : Vault} {payload : Value} {config : UserConfig}

def onlyIf (b : Bool) (f : Vault → Vault) (v : Vault) : Vault := if b then f v else v

def written (write : Option Secret → Vault → Vault) (key : Option Secret) (v : Vault) : Vault :=
  match key with
  | none => v
  | some key => write (some key) v

/-- The slots behind the deletions of a payload. -/
def clearedVault (payload : Value) (v : Vault) : Vault :=
  onlyIf (clearsGenerate payload) (Vault.withGenerate none)
    (onlyIf (clearsAnalyze payload) (Vault.withLegacy none)
      (onlyIf (clearsAnalyze payload) (Vault.withAnalyze none) v))

/-- The slots behind the keys of a payload. -/
def writtenVault (payload : Value) (v : Vault) : Vault :=
  written Vault.withGenerate (generateSent payload)
    (written Vault.withAnalyze (analyzeSent payload) (clearedVault payload v))

variable {E : SaveWorld → Prop} {Q : Unit → SaveWorld → Prop}

theorem always_runStore (f : Vault → Vault) :
    Always (runWhen b (store f)) E Q (w.withVault v) ↔
      (b = true → E (w.withVault v)) ∧ Q () (w.withVault (onlyIf b f v)) := by
  cases b
  · simp [always_runWhen, onlyIf]
  · simp [always_runWhen, always_store, onlyIf]

theorem always_runAttempt (f : Vault → Vault) :
    Always (runWhen b (attempt (onVault f))) E Q (w.withVault v) ↔
      (b = true → Q () (w.withVault (f v))) ∧ Q () (w.withVault v) := by
  have hdone : onVault f (w.withVault v) = w.withVault (f v) := rfl
  cases b
  · simp [always_runWhen]
  · simp [always_runWhen, hdone, and_comm]

theorem always_putKey (key : Option Secret) :
    Always (putKey write key) E Q (w.withVault v) ↔
      (key.isSome → E (w.withVault v)) ∧ Q () (w.withVault (written write key v)) := by
  cases key with
  | none => simp [putKey, written]
  | some key => simp [putKey, written, always_store]

/-- The ends of the steps on the keys of a payload. -/
theorem always_apply {Q : UserConfig → SaveWorld → Prop} :
    Always (applySecretPayload payload config) E Q (w.withVault v) ↔
      (clearsAnalyze payload = true → E (w.withVault v)) ∧
      (clearsAnalyze payload = true →
        E (w.withVault (onlyIf (clearsAnalyze payload) (Vault.withAnalyze none) v))) ∧
      (clearsGenerate payload = true →
        E (w.withVault (onlyIf (clearsAnalyze payload) (Vault.withLegacy none)
          (onlyIf (clearsAnalyze payload) (Vault.withAnalyze none) v)))) ∧
      ((analyzeSent payload).isSome → E (w.withVault (clearedVault payload v))) ∧
      ((generateSent payload).isSome → E (w.withVault
        (written Vault.withAnalyze (analyzeSent payload) (clearedVault payload v)))) ∧
      (dropsShared payload = true → Q (withoutShared payload config)
        (w.withVault ((writtenVault payload v).withLegacy none))) ∧
      Q (withoutShared payload config) (w.withVault (writtenVault payload v)) := by
  simp only [applySecretPayload, always_bind, always_runStore, always_putKey, always_runAttempt,
    always_pure]
  exact Iff.rfl

/-- What the steps on the keys of a payload leave in the slots. -/
structure PayloadKeys (payload : Value) (v v' : Vault) : Prop where
  analyze : ∀ key ∈ analyzeSent payload, v'.analyze = some key
  analyzeCleared : analyzeSent payload = none → clearsAnalyze payload →
    v'.analyze = none ∧ v'.legacy = none
  generate : ∀ key ∈ generateSent payload, v'.generate = some key
  generateCleared : generateSent payload = none → clearsGenerate payload → v'.generate = none
  legacy : ∀ key ∈ v'.legacy, v.legacy = some key ∧ clearsAnalyze payload = false

section
variable (key : Option Secret) (v : Vault)

@[simp] theorem written_withAnalyze_generate :
    (written Vault.withAnalyze key v).generate = v.generate := by
  cases key <;> rfl

@[simp] theorem written_withAnalyze_legacy :
    (written Vault.withAnalyze key v).legacy = v.legacy := by
  cases key <;> rfl

@[simp] theorem written_withAnalyze_analyze :
    (written Vault.withAnalyze key v).analyze = key.or v.analyze := by
  cases key <;> rfl

@[simp] theorem written_withGenerate_generate :
    (written Vault.withGenerate key v).generate = key.or v.generate := by
  cases key <;> rfl

@[simp] theorem written_withGenerate_legacy :
    (written Vault.withGenerate key v).legacy = v.legacy := by
  cases key <;> rfl

@[simp] theorem written_withGenerate_analyze :
    (written Vault.withGenerate key v).analyze = v.analyze := by
  cases key <;> rfl

end

section
variable (payload : Value) (v : Vault)

@[simp] theorem clearedVault_analyze :
    (clearedVault payload v).analyze = if clearsAnalyze payload then none else v.analyze := by
  rw [clearedVault]
  cases clearsAnalyze payload <;> cases clearsGenerate payload <;> rfl

@[simp] theorem clearedVault_generate :
    (clearedVault payload v).generate = if clearsGenerate payload then none else v.generate := by
  rw [clearedVault]
  cases clearsAnalyze payload <;> cases clearsGenerate payload <;> rfl

@[simp] theorem clearedVault_legacy :
    (clearedVault payload v).legacy = if clearsAnalyze payload then none else v.legacy := by
  rw [clearedVault]
  cases clearsAnalyze payload <;> cases clearsGenerate payload <;> rfl

theorem payloadKeys_written :
    PayloadKeys payload v (writtenVault payload v) where
  analyze := by
    intro key hkey
    rw [writtenVault, written_withGenerate_analyze, written_withAnalyze_analyze,
      mem_def.mp hkey, some_or]
  analyzeCleared := by
    intro hsent hcleared
    simp [writtenVault, hsent, hcleared]
  generate := by
    intro key hkey
    rw [writtenVault, written_withGenerate_generate, mem_def.mp hkey, some_or]
  generateCleared := by
    intro hsent hcleared
    simp [writtenVault, hsent, hcleared]
  legacy := by
    intro key hkey
    rw [writtenVault, written_withGenerate_legacy, written_withAnalyze_legacy,
      clearedVault_legacy] at hkey
    cases hclears : clearsAnalyze payload with
    | true =>
      rw [hclears, if_pos rfl] at hkey
      cases hkey
    | false =>
      rw [hclears, if_neg Bool.false_ne_true] at hkey
      exact ⟨hkey, rfl⟩

end

theorem PayloadKeys.withoutLegacy {v v' : Vault} (h : PayloadKeys payload v v') :
    PayloadKeys payload v (v'.withLegacy none) where
  analyze := h.analyze
  analyzeCleared := fun hsent hcleared => ⟨(h.analyzeCleared hsent hcleared).1, rfl⟩
  generate := h.generate
  generateCleared := h.generateCleared
  legacy := fun key hkey => by cases hkey

/-- Where nothing that counts is changed before, the keys of the payload change nothing either. -/
theorem apply_keeps (hkept : Kept w v) (hlegacy : ∀ key ∈ v.legacy, analyzeInEffect w = some key)
    (hsafe : SecretsSafe payload w) :
    Always (applySecretPayload payload config) (Unchanged w)
      (fun result after => result = withoutShared payload config ∧
        ∃ v', after = w.withVault v' ∧ Kept w v' ∧ PayloadKeys payload v v') (w.withVault v) := by
  have hfirst : clearsAnalyze payload = true → Kept w (v.withAnalyze none) := by
    intro hclears
    refine ⟨?_, hkept.generate⟩
    show (or none v.legacy).or (fileAnalyze w.file) = analyzeInEffect w
    cases hstored : v.legacy with
    | none => exact hsafe.clearAnalyze hclears
    | some key => exact (hlegacy key hstored).symm
  have hanalyze : Kept w (onlyIf (clearsAnalyze payload) (Vault.withLegacy none)
      (onlyIf (clearsAnalyze payload) (Vault.withAnalyze none) v)) := by
    cases hclears : clearsAnalyze payload with
    | false => exact hkept
    | true => exact ⟨hsafe.clearAnalyze hclears, hkept.generate⟩
  have hcleared : Kept w (clearedVault payload v) := by
    rw [clearedVault]
    cases hclears : clearsGenerate payload with
    | false => exact hanalyze
    | true => exact ⟨hanalyze.analyze, hsafe.clearGenerate hclears⟩
  have hput : Kept w
      (written Vault.withAnalyze (analyzeSent payload) (clearedVault payload v)) := by
    cases hsent : analyzeSent payload with
    | none => exact hcleared
    | some key => exact ⟨(hsafe.analyze key hsent).symm, hcleared.generate⟩
  have hwritten : Kept w (writtenVault payload v) := by
    rw [writtenVault]
    cases hsent : generateSent payload with
    | none => exact hput
    | some key => exact ⟨hput.analyze, (hsafe.generate key hsent).symm⟩
  have hdropped : dropsShared payload = true →
      Kept w ((writtenVault payload v).withLegacy none) := by
    intro hdrops
    refine ⟨?_, hwritten.generate⟩
    show ((writtenVault payload v).analyze.or none).or (fileAnalyze w.file) = analyzeInEffect w
    rw [or_none]
    -- A shared key that is sent is written to the slot for analyzing, and the flag clears both.
    cases hsent : analyzeSent payload with
    | some key =>
      rw [(payloadKeys_written payload v).analyze key hsent, some_or,
        hsafe.analyze key hsent]
    | none =>
      have hclears : clearsAnalyze payload = true := by
        rw [analyzeSent, or_eq_none_iff] at hsent
        rw [dropsShared, hsent.2, isSome_none, Bool.false_or] at hdrops
        rw [clearsAnalyze, hdrops, Bool.true_or]
      rw [((payloadKeys_written payload v).analyzeCleared hsent hclears).1, none_or,
        hsafe.clearAnalyze hclears]
  rw [always_apply]
  refine ⟨fun _ => unchanged_withVault.mpr hkept, fun hclears => ?_,
    fun _ => unchanged_withVault.mpr hanalyze, fun _ => unchanged_withVault.mpr hcleared,
    fun _ => unchanged_withVault.mpr hput,
    fun hdrops => ⟨rfl, _, rfl, hdropped hdrops, (payloadKeys_written payload v).withoutLegacy⟩,
    rfl, _, rfl, hwritten, payloadKeys_written payload v⟩
  rw [hclears]
  exact unchanged_withVault.mpr (hfirst hclears)

/-- What the keys of a payload must be like for the errors behind them to change nothing. -/
theorem apply_needs {Q : UserConfig → SaveWorld → Prop}
    (hQ : ∀ result s, Q result s → Unchanged w s)
    (h : Always (applySecretPayload payload config) (Unchanged w) Q (w.withVault v)) :
    SecretsSafe payload w ∧
      Q (withoutShared payload config) (w.withVault (writtenVault payload v)) := by
  simp only [always_apply] at h
  obtain ⟨-, -, hclearGenerate, hputAnalyze, hputGenerate, -, hdone⟩ := h
  have hwritten := unchanged_withVault.mp (hQ _ _ hdone)
  have hput : Kept w
      (written Vault.withAnalyze (analyzeSent payload) (clearedVault payload v)) := by
    cases hsent : generateSent payload with
    | some key => exact unchanged_withVault.mp (hputGenerate (by rw [hsent]; rfl))
    | none =>
      rw [writtenVault, hsent] at hwritten
      exact hwritten
  have hcleared : Kept w (clearedVault payload v) := by
    cases hsent : analyzeSent payload with
    | some key => exact unchanged_withVault.mp (hputAnalyze (by rw [hsent]; rfl))
    | none =>
      rw [hsent] at hput
      exact hput
  refine ⟨⟨fun hclears => ?_, fun hclears => ?_, fun key hkey => ?_, fun key hkey => ?_⟩, hdone⟩
  · have heffect := hcleared.analyze
    rwa [clearedVault_analyze, clearedVault_legacy, if_pos hclears, if_pos hclears,
      none_or, none_or] at heffect
  · have heffect := hcleared.generate
    rwa [clearedVault_generate, if_pos hclears, none_or] at heffect
  · have heffect := hput.analyze
    rw [written_withAnalyze_analyze, mem_def.mp hkey] at heffect
    exact heffect.symm
  · have heffect := hwritten.generate
    rw [(payloadKeys_written payload v).generate key hkey] at heffect
    exact heffect.symm

theorem idles_apply (config : UserConfig) : Idles (applySecretPayload payload config) :=
  (idles_runWhen _ (idles_store _)).bind fun _ => (idles_runWhen _ (idles_store _)).bind fun _ =>
    (idles_runWhen _ (idles_store _)).bind fun _ => (idles_putKey _ _).bind fun _ =>
      (idles_putKey _ _).bind fun _ => (idles_runWhen _ (idles_attempt _)).bind fun _ =>
        idles_pure _

end Secrets

/-! ### The two files -/

section Files
variable {crates : SaveCrates} {payload : Value} {w : SaveWorld} {v : Vault} {user : UserConfig}
  {file : CodexConfig.ConfigFile} {value : Text}

/-- Without a write the file is what it was. -/
theorem upserted_unwritten (h : (upserted crates file value).1 ≠ .ok true) :
    (upserted crates file value).2 = file := by
  unfold upserted CodexConfig.upsertUpstreamBaseUrl at h ⊢
  dsimp only at h ⊢
  cases hparse : crates.toml.parse (CodexConfig.stripMark ((CodexConfig.readToString file).getD []))
  with
  | none => rfl
  | some document =>
    rw [hparse] at h
    dsimp only at h ⊢
    split_ifs at h ⊢ with hunchanged hremoves
    · rfl
    · exact absurd rfl h
    · cases hitem : document.lookup CodexConfig.TABLE with
      | some item =>
        rw [hitem] at h
        dsimp only at h ⊢
        cases hset : item.set CodexConfig.UPSTREAM_KEY
            (.string (CodexConfig.desiredUrl crates.urls value)) with
        | none => rfl
        | some updated =>
          rw [hset] at h
          exact absurd rfl h
      | none =>
        rw [hitem] at h
        cases hspliced : crates.toml.parse (CodexConfig.spliceTable crates.toml
            (CodexConfig.desiredUrl crates.urls value)
            ((CodexConfig.stripMark ((CodexConfig.readToString file).getD [])).take
              (CodexConfig.codeseexInsertOffset
                (CodexConfig.stripMark ((CodexConfig.readToString file).getD []))))
            ((CodexConfig.stripMark ((CodexConfig.readToString file).getD [])).drop
              (CodexConfig.codeseexInsertOffset
                (CodexConfig.stripMark ((CodexConfig.readToString file).getD []))))) with
        | none => rfl
        | some spliced =>
          rw [hspliced] at h
          exact absurd rfl h

def SaveWorld.withFile (w : SaveWorld) (config : UserConfig) : SaveWorld :=
  { w with file := .settings config }

variable {Q : Unit → SaveWorld → Prop}

theorem always_writeConfig :
    Always (writeConfig crates user) E Q s ↔
      E s ∧ (crates.serializes user = true → Q () (s.withFile user)) := by
  rw [writeConfig]
  split_ifs with hserializes
  · rw [always_perform, forall_prop_of_true hserializes]
    exact Iff.rfl
  · simp [hserializes]

theorem failsAtOnce_writeConfig : FailsAtOnce (writeConfig crates user) := by
  rw [writeConfig]
  split_ifs
  · exact failsAtOnce_perform _ _
  · exact failsAtOnce_throw _

theorem always_saveUpstream :
    Always (saveUpstream crates (some value)) E Q s ↔
      (s.codex = none → E s) ∧ ∀ file ∈ s.codex,
        ((∀ changed, (upserted crates file value).1 ≠ .ok changed) → E s) ∧
        ((upserted crates file value).1 = .ok false → Q () s) ∧
        ((upserted crates file value).1 = .ok true →
          E s ∧ Q () { s with codex := some (upserted crates file value).2 }) := by
  rw [saveUpstream, always_bind, always_read]
  cases s.codex with
  | none => simp
  | some file =>
    simp only [mem_some_iff, forall_eq', reduceCtorEq, false_imp_iff, true_and]
    rcases upserted crates file value with ⟨result, updated⟩
    rcases result with error | changed
    · simp
    · cases changed
      · simp
      · simp

theorem idles_saveUpstream (sent : Option Text) : Idles (saveUpstream crates sent) := by
  cases sent with
  | none => exact idles_pure ()
  | some value =>
    refine (idles_read _).bind fun codex => ?_
    cases codex with
    | none => exact (failsAtOnce_throw _).idles
    | some file =>
      dsimp only
      split
      · exact (failsAtOnce_throw _).idles
      · exact idles_pure ()
      · exact (failsAtOnce_perform _ _).idles

/-- Both writes leave what counts as it was exactly when Codex's file does not change. -/
theorem always_writes (hkept : Kept w v) (sent : Option Text) :
    Always (saveUpstream crates sent >>= fun _ => writeConfig crates user) (Unchanged w) Q
        (w.withVault v) ↔
      (∀ value ∈ sent, ∀ file ∈ w.codex, (upserted crates file value).2 = file) ∧
        ((∀ value ∈ sent, ∃ file ∈ w.codex, ∃ changed,
            (upserted crates file value).1 = .ok changed) → crates.serializes user = true →
          Q () ((w.withVault v).withFile user)) := by
  have hunchanged : Unchanged w (w.withVault v) := unchanged_withVault.mpr hkept
  rw [always_bind]
  cases sent with
  | none =>
    rw [saveUpstream, always_pure, always_writeConfig]
    simp [hunchanged]
  | some value =>
    rw [always_saveUpstream]
    simp only [always_writeConfig, mem_some_iff, forall_eq']
    have hcodex : (w.withVault v).codex = w.codex := rfl
    rw [hcodex]
    cases hfile : w.codex with
    | none => simp [hunchanged]
    | some file =>
      simp only [mem_some_iff, forall_eq', reduceCtorEq, true_and, exists_eq_left',
        hunchanged, implies_true]
      rcases hresult : upserted crates file value with ⟨error | changed, updated⟩
      · have hsame : updated = file := by
          have hunwritten := @upserted_unwritten crates file value (by rw [hresult]; simp)
          rwa [hresult] at hunwritten
        simp [hsame]
      · cases changed with
        | false =>
          have hsame : updated = file := by
            have hunwritten := @upserted_unwritten crates file value (by rw [hresult]; simp)
            rwa [hresult] at hunwritten
          simp [hsame]
        | true =>
          have hwritten : Unchanged w { w.withVault v with codex := some updated } ↔
              updated = file := by
            constructor
            · intro h
              have hcodex := h.codex
              rw [hfile] at hcodex
              exact some_inj.mp hcodex
            · rintro rfl
              exact ⟨rfl, hfile.symm, hkept.analyze, hkept.generate⟩
          have hstate : updated = file →
              ({ w.withVault v with codex := some updated } : SaveWorld) = w.withVault v := by
            rintro rfl
            rw [← hfile]
            rfl
          constructor
          · intro h
            obtain ⟨hsame, hQ⟩ := h.2 rfl
            rw [hwritten] at hsame
            rw [hstate hsame] at hQ
            exact ⟨hsame, fun _ => hQ⟩
          · rintro ⟨hsame, hQ⟩
            refine ⟨fun hfalse => (by cases hfalse), fun _ => ⟨hwritten.mpr hsame, ?_⟩⟩
            rw [hstate hsame]
            exact hQ ⟨true, rfl⟩

end Files

/-! ## The whole save -/

section Whole
variable {crates : SaveCrates} {payload : Value} {w : SaveWorld} {v : Vault}
  {config : UserConfig} {legacy : Option Secret}

theorem keyFree_savedBase : ∀ tools ∈ (savedBase payload w).tools, KeyFree tools := by
  have hmigrated : ∀ tools ∈ (migratedConfig w.file.read).tools, KeyFree tools := by
    intro tools htools
    obtain ⟨migration, hmigration, rfl⟩ := map_eq_some_iff.mp htools
    obtain ⟨stored, -, rfl⟩ := map_eq_some_iff.mp hmigration
    exact keyFree_migrateVisionTools stored
  intro tools htools
  rw [savedBase, withoutShared] at htools
  split_ifs at htools
  · obtain ⟨stored, hstored, rfl⟩ := map_eq_some_iff.mp htools
    exact (hmigrated stored hstored).clear
  · exact hmigrated tools htools

/-- Settings without keys leave a migration the key of the store only. -/
theorem found_of_keyFree {tools : Option UserToolsConfig} (h : ∀ stored ∈ tools, KeyFree stored)
    (legacy : Option Secret) :
    analyzeFound (tools.map migrateVisionTools) legacy = legacy ∧
      generationFound (tools.map migrateVisionTools) legacy =
        if hasGeneration (tools.map migrateVisionTools) then legacy else none := by
  cases tools with
  | none => exact ⟨rfl, rfl⟩
  | some stored =>
    obtain ⟨hshared, hanalyze, hgeneration⟩ := (h stored rfl).migrate_none
    simp [analyzeFound, generationFound, sharedFound, hshared, hanalyze, hgeneration]

theorem keyFree_savedUser : ∀ tools ∈ (savedUser crates payload w).tools, KeyFree tools :=
  keyFree_editTools (keyFree_editWebSearch keyFree_savedBase)

theorem migratedConfig_savedUser :
    migratedConfig (savedUser crates payload w) =
      savedConfig crates.payload payload (savedBase payload w) := by
  rw [migratedConfig, savedConfig, savedUser, Option.map_map]
  rfl

/-- The file that is written holds no key. -/
theorem fileKey_saved {key : Text} (hkey : key ∈ secretKeys) :
    fileKey (.settings (savedConfig crates.payload payload (savedBase payload w))) key = none := by
  rw [← migratedConfig_savedUser]
  show Secret.ofText ((toolSettingsFromUserConfig (migratedConfig _)).get key) = none
  rw [toolSettingsFromUserConfig, migratedConfig]
  cases (savedUser crates payload w).tools with
  | none => rfl
  | some tools =>
    dsimp only [map_some]
    rw [(keyFree_migrateVisionTools tools).toolSettings_none hkey, Secret.ofText_none]

theorem inEffect_saved :
    analyzeInEffect ((w.withVault v).withFile
        (savedConfig crates.payload payload (savedBase payload w))) = v.analyze.or v.legacy ∧
      generateInEffect ((w.withVault v).withFile
        (savedConfig crates.payload payload (savedBase payload w))) = v.generate := by
  have hnone : ∀ key ∈ secretKeys, fileKey ((w.withVault v).withFile
      (savedConfig crates.payload payload (savedBase payload w))).file key = none :=
    fun key hkey => fileKey_saved hkey
  constructor
  · show (v.analyze.or v.legacy).or (fileAnalyze _) = _
    rw [fileAnalyze, hnone _ (by simp [secretKeys]), hnone _ (by simp [secretKeys]),
      or_none, or_none]
  · show v.generate.or (fileGenerate _) = _
    rw [fileGenerate, hnone _ (by simp [secretKeys]), or_none]

/-- The steps behind the first migration. -/
def saveRest (crates : SaveCrates) (payload : Value) (existing : UserConfig) : Saving Unit := do
  let existing ← applySecretPayload payload existing
  let user ← migrateLegacyVisionSecret (userConfigFromPayload crates.payload payload existing)
  saveUpstream crates (sentUpstream crates payload)
  writeConfig crates user

theorem failsAtOnce_writes (user : UserConfig) : FailsAtOnce (do
    saveUpstream crates (sentUpstream crates payload)
    writeConfig crates user) :=
  (idles_saveUpstream _).bind_fails fun _ => failsAtOnce_writeConfig

theorem failsAtOnce_saveRest : FailsAtOnce (saveRest crates payload config) :=
  (idles_apply _).bind_fails fun _ => (idles_migrate _).bind_fails fun _ => failsAtOnce_writes _

theorem saveAtomic_iff_of_accepted
    (h : Editors.versionConflict (clientVersion payload) crates.version = false) :
    SaveAtomic crates payload w ↔
      Always (migrateLegacyVisionSecret w.file.read) (Unchanged w)
        (fun config s => Always (saveRest crates payload config) (Unchanged w)
          (fun _ after => SaveApplied crates payload after ∧
            (w.file = .unreadable → after.file = .unreadable)) s) (w.withVault w.vault) := by
  rw [SaveAtomic, saveConfig, h, if_neg Bool.false_ne_true, always_bind, always_read, always_bind]
  exact Iff.rfl

theorem SaveSafe.rest (h : SaveSafe crates payload w) {v : Vault} (hkept : Kept w v)
    (hlegacy : ∀ key ∈ v.legacy, w.vault.legacy = some key ∧
      analyzeFound (foundInFile w) none = none ∧ generationFound (foundInFile w) none = none) :
    Always (saveRest crates payload (migratedConfig w.file.read)) (Unchanged w)
      (fun _ after => SaveApplied crates payload after ∧
        (w.file = .unreadable → after.file = .unreadable)) (w.withVault v) := by
  have heffect : ∀ key ∈ w.vault.legacy, analyzeFound (foundInFile w) none = none →
      analyzeInEffect w = some key := by
    intro key hkey hnone
    refine h.migration.analyze w.vault.legacy mem_cons_self key ?_
    rw [analyzeFound, sharedFound, or_none, or_eq_none_iff] at hnone
    rw [mem_def, analyzeFound, sharedFound, hnone.1, hnone.2, none_or,
      none_or]
    exact hkey
  unfold saveRest
  rw [always_bind]
  refine (apply_keeps hkept (fun key hkey => heffect key (hlegacy key hkey).1
    (hlegacy key hkey).2.1) h.secrets).imp (fun _ h => h) fun existing after hafter => ?_
  obtain ⟨rfl, v2, rfl, hkept2, hkeys⟩ := hafter
  show Always (migrateLegacyVisionSecret (savedUser crates payload w) >>= _) _ _ _
  rw [always_bind, always_migrate]
  intro found hfound
  obtain ⟨hanalyzeFound, hgenerationFound⟩ :=
    found_of_keyFree (@keyFree_savedUser crates payload w) found
  -- A key that is found now is the legacy key, which was there all the time.
  have hleft : ∀ key ∈ found, hasGeneration ((savedUser crates payload w).tools.map
      migrateVisionTools) → LegacyLeft crates payload w key := by
    intro key hkey hsection
    have hstored : key ∈ v2.legacy := by
      rcases mem_pair.mp hfound with rfl | rfl
      · exact hkey
      · cases hkey
    obtain ⟨hv, hclears⟩ := hkeys.legacy key hstored
    obtain ⟨hw, hanalyze, hgeneration⟩ := hlegacy key hv
    exact ⟨hw, hanalyze, hgeneration, hclears, hsection⟩
  have hinEffect : ∀ key ∈ found, analyzeInEffect w = some key := by
    intro key hkey
    have hstored : key ∈ v2.legacy := by
      rcases mem_pair.mp hfound with rfl | rfl
      · exact hkey
      · cases hkey
    obtain ⟨hv, -⟩ := hkeys.legacy key hstored
    exact heffect key (hlegacy key hv).1 (hlegacy key hv).2.1
  refine (moveKeys_keeps hkept2 ?_ ?_ ?_).imp (fun _ h => h) fun _ after hafter => ?_
  · intro key hkey
    exact hinEffect key (hanalyzeFound ▸ hkey)
  · intro hsection key hkey
    rw [hgenerationFound, if_pos hsection] at hkey
    exact h.late key (hleft key hkey hsection)
  · intro hnone hsome
    rw [hanalyzeFound] at hnone
    rw [hgenerationFound, hnone, ite_self] at hsome
    cases hsome
  · obtain ⟨v3, rfl, hkept3, hmoved⟩ := hafter
    rw [always_writes hkept3, migratedConfig_savedUser]
    refine ⟨h.upstream, fun hreached hserializes => ?_⟩
    have hfile := h.file ⟨hreached, hserializes⟩
    obtain ⟨hanalyzeAfter, hgenerateAfter⟩ := @inEffect_saved crates payload w v3
    refine ⟨⟨⟨_, rfl, (settingsApplied_iff keyFree_savedBase).mpr hfile.settings⟩, hfile.upstream,
      ⟨fun key hkey => ?_, fun hsent hclears => ?_⟩, ⟨fun key hkey => ?_, fun hsent hclears => ?_⟩⟩,
      fun hunreadable => absurd hunreadable hfile.readable⟩
    · rw [hanalyzeAfter]
      rcases hmoved.analyze with hsame | ⟨other, hother, hwritten⟩
      · rw [hsame, hkeys.analyze key hkey, some_or]
      · have hother' := hinEffect other (hanalyzeFound ▸ hother)
        rw [h.secrets.analyze key hkey] at hother'
        rw [hwritten, some_or, hother']
    · obtain ⟨hnoAnalyze, hnoLegacy⟩ := hkeys.analyzeCleared hsent hclears
      have hnone : found = none := by
        rcases mem_pair.mp hfound with rfl | rfl
        · exact hnoLegacy
        · rfl
      have hlegacy3 : v3.legacy = none := by
        rcases hmoved.legacy with hgone | ⟨hsame, -⟩
        · exact hgone
        · exact hsame.trans hnoLegacy
      rw [hanalyzeAfter, hlegacy3, or_none]
      rcases hmoved.analyze with hsame | ⟨other, hother, -⟩
      · exact hsame.trans hnoAnalyze
      · rw [hanalyzeFound, hnone] at hother
        cases hother
    · rw [hgenerateAfter]
      rcases hmoved.generate with hsame | ⟨hsection, other, hother, hwritten⟩
      · rw [hsame, hkeys.generate key hkey]
      · rw [hgenerationFound, if_pos hsection] at hother
        have hlate := h.late other (hleft other hother hsection)
        rw [h.secrets.generate key hkey] at hlate
        rw [hwritten, hlate]
    · rw [hgenerateAfter]
      rcases hmoved.generate with hsame | ⟨hsection, other, hother, -⟩
      · rw [hsame, hkeys.generateCleared hsent hclears]
      · rw [hgenerationFound, if_pos hsection] at hother
        have hsome := hfile.cleared other (hleft other hother hsection) hclears
        rw [hsent] at hsome
        cases hsome

theorem SaveSafe.atomic (h : SaveSafe crates payload w)
    (haccepted : Editors.versionConflict (clientVersion payload) crates.version = false) :
    SaveAtomic crates payload w := by
  rw [saveAtomic_iff_of_accepted haccepted, always_migrate]
  intro found hfound
  refine (moveKeys_keeps (kept_self w) (h.migration.analyze found hfound)
    (fun hsection => h.migration.generate hsection found hfound)
    (h.migration.legacy found hfound)).imp (fun _ h => h) fun _ after hafter => ?_
  obtain ⟨v1, rfl, hkept1, hmoved⟩ := hafter
  refine h.rest hkept1 fun key hkey => ?_
  rcases hmoved.legacy with hgone | ⟨hsame, hanalyze, hgeneration⟩
  · rw [mem_def, hgone] at hkey
    cases hkey
  · have hstored : w.vault.legacy = some key := hsame.symm.trans hkey
    have hnone : found = none := by
      rcases mem_pair.mp hfound with rfl | rfl
      · rw [analyzeFound, sharedFound, hstored, or_eq_none_iff, or_eq_none_iff]
          at hanalyze
        cases hanalyze.2.2
      · rfl
    rw [hnone] at hanalyze hgeneration
    exact ⟨hstored, hanalyze, hgeneration⟩

/-- The ends of the steps behind the first migration that are needed below: the readings of the
second one give what they find, and its writes take place. -/
theorem saveRest_needs
    (h : Always (saveRest crates payload (migratedConfig w.file.read)) (Unchanged w) Q
      (w.withVault v)) :
    SecretsSafe payload w ∧
      ∀ found ∈ [(writtenVault payload v).legacy, none],
        (hasGeneration ((savedUser crates payload w).tools.map migrateVisionTools) →
          ∀ key ∈ found, generateInEffect w = some key) ∧
        Always (do
          saveUpstream crates (sentUpstream crates payload)
          writeConfig crates (savedConfig crates.payload payload (savedBase payload w)))
          (Unchanged w) Q (w.withVault (moved ((savedUser crates payload w).tools.map
            migrateVisionTools) found (writtenVault payload v))) := by
  unfold saveRest at h
  rw [always_bind] at h
  obtain ⟨hsecrets, hrest⟩ := apply_needs
    (fun config s hs => hs.of_failsAtOnce ((idles_migrate _).bind_fails fun _ =>
      failsAtOnce_writes _)) h
  refine ⟨hsecrets, fun found hfound => ?_⟩
  rw [show userConfigFromPayload crates.payload payload (withoutShared payload
    (migratedConfig w.file.read)) = savedUser crates payload w from rfl, always_bind,
    always_migrate] at hrest
  obtain ⟨-, hgenerate, hdone⟩ := moveKeys_needs (hrest found hfound)
  obtain ⟨-, hgenerationFound⟩ := found_of_keyFree (@keyFree_savedUser crates payload w) found
  refine ⟨fun hsection key hkey => ?_, ?_⟩
  · refine hgenerate hsection key ?_
    rw [hgenerationFound, if_pos hsection]
    exact hkey
  · rwa [migratedConfig_savedUser] at hdone

theorem saveSafe_of_atomic (h : SaveAtomic crates payload w)
    (haccepted : Editors.versionConflict (clientVersion payload) crates.version = false) :
    SaveSafe crates payload w := by
  rw [saveAtomic_iff_of_accepted haccepted, always_migrate] at h
  change ∀ legacy ∈ _, Always (moveKeys (foundInFile w) legacy) _ _ _ at h
  have hmoves := fun found hfound => moveKeys_needs (h found hfound)
  have hrest := fun found hfound => saveRest_needs (hmoves found hfound).2.2
  have hkept := fun found hfound => unchanged_withVault.mp
    ((hmoves found hfound).2.2.of_failsAtOnce failsAtOnce_saveRest)
  -- A reading that fails leaves the legacy key to the second migration.
  have hlate : ∀ legacy, LegacyLeft crates payload w legacy →
      (writtenVault payload (moved (foundInFile w) none w.vault)).legacy = some legacy := by
    intro legacy hleft
    rw [writtenVault, written_withGenerate_legacy, written_withAnalyze_legacy,
      clearedVault_legacy, hleft.kept, if_neg Bool.false_ne_true, moved, hleft.noAnalyze,
      hleft.noGeneration]
    exact hleft.stored
  have hwrites := fun found hfound => (hrest none (by simp)).2 found hfound
  have hend : ∀ found ∈ [(writtenVault payload (moved (foundInFile w) none w.vault)).legacy, none],
      Kept w (moved ((savedUser crates payload w).tools.map migrateVisionTools) found
        (writtenVault payload (moved (foundInFile w) none w.vault))) :=
    fun found hfound => unchanged_withVault.mp
      ((hwrites found hfound).2.of_failsAtOnce (failsAtOnce_writes _))
  refine {
    migration := ⟨fun legacy hlegacy => (hmoves legacy hlegacy).1,
      fun hsection legacy hlegacy => (hmoves legacy hlegacy).2.1 hsection,
      fun legacy hlegacy hnone hsome => ?_⟩
    secrets := (hrest none (by simp)).1
    late := fun legacy hleft => ?_
    upstream := ?_
    file := fun hreached => ?_ }
  · have heffect := (hkept legacy hlegacy).analyze
    rw [moved, hnone, hsome] at heffect
    simpa using heffect
  · exact (hwrites _ mem_cons_self).1 hleft.section_ legacy (hlate legacy hleft)
  · have hlast := (hwrites none (by simp)).2
    rw [always_writes (hend none (by simp))] at hlast
    exact hlast.1
  · have hlast := (hwrites none (by simp)).2
    rw [always_writes (hend none (by simp))] at hlast
    obtain ⟨happlied, hfile⟩ := hlast.2 hreached.upstream hreached.serializes
    refine ⟨fun hunreadable => ?_, ?_, happlied.upstream, fun legacy hleft hclears => ?_⟩
    · have hsame := hfile hunreadable
      cases hsame
    · obtain ⟨config, hconfig, hsettings⟩ := happlied.settings
      obtain rfl := OwnFile.settings.inj hconfig
      exact (settingsApplied_iff keyFree_savedBase).mp hsettings
    · -- The legacy key is moved to a slot that the payload cleared.
      by_contra hsent
      rw [Bool.not_eq_true, isSome_eq_false_iff, isNone_iff_eq_none] at hsent
      have hstored := hlate legacy hleft
      have hmoved := (hwrites _ mem_cons_self).2
      rw [always_writes (hend _ mem_cons_self)] at hmoved
      obtain ⟨hcleared, -⟩ := hmoved.2 hreached.upstream hreached.serializes
      have hgone := hcleared.generate.2 hsent hclears
      obtain ⟨-, hgenerationFound⟩ := found_of_keyFree (@keyFree_savedUser crates payload w)
        (writtenVault payload (moved (foundInFile w) none w.vault)).legacy
      rw [inEffect_saved.2, moved, if_pos hleft.section_, hgenerationFound, if_pos hleft.section_,
        hstored] at hgone
      cases hgone

end Whole

def plainCrates : SaveCrates where
  payload := { fromStr := fun _ => none, asF64 := fun _ => .zero, parseF64 := fun _ => none
               communityToolConfigKeys := [] }
  toml := CodexConfig.Plain.toml
  urls := CodexConfig.Plain.urls
  version := "0"
  serializes := fun _ => true

def darkTheme : Value := .object [("UI_THEME", .string "dark")]

def unreadableWorld : SaveWorld := ⟨.unreadable, none, ⟨none, none, none⟩⟩

end CodeSeeX.Config
