import CodeSeeX.Proxy.ConfigRefresh

/-!
# Several editors of one configuration

An editor reads the settings with a version of the config file and saves them later with
that version. Each step of `config_payload` and `save_config` on a file is a step of its
own, and other editors, outside writers and refreshes of the configuration in use may come in
between. An answer shows some settings as they are in use and not as the file has them. The
upstream URL stands in Codex's file, which the version does not cover.
-/
namespace CodeSeeX.Editors
open Option Text List Config

/-! ## Versions -/

/-- The modification time in nanoseconds and the length of a file. -/
abbrev Stamp := ℕ × ℕ

/-- Its settings as `UserConfig::read_from` has them, none where it cannot be read. -/
structure ConfigFile where
  settings : Option UserConfig
  stamp : Stamp

def stampText (stamp : Stamp) : Text := ofNat stamp.1 ++ '-' :: ofNat stamp.2

def configVersion : Option ConfigFile → Text
  | some file => stampText file.stamp
  | none => "0"

/-- A version that is blank is not compared. -/
def versionConflict (clientVersion : Option Text) (currentVersion : Text) : Bool :=
  match (clientVersion.map trim).filter (· ≠ []) with
  | some version => version ≠ currentVersion
  | none => false

theorem stampText_injective : Function.Injective stampText := by
  intro s t h
  have htime : ∀ stamp : Stamp, (stampText stamp).takeWhile (· ≠ '-') = ofNat stamp.1 := by
    intro stamp
    rw [stampText, takeWhile_append_of_pos]
    · simp
    · intro c hc
      have hne : c ≠ '-' := fun heq => notMem_ofNat (by decide) stamp.1 (heq ▸ hc)
      simpa using hne
  have hfirst : s.1 = t.1 := ofNat_injective (by rw [← htime s, ← htime t, h])
  have hsecond : s.2 = t.2 := by
    rw [stampText, stampText, hfirst] at h
    exact ofNat_injective (cons.inj (append_cancel_left h)).2
  exact Prod.ext hfirst hsecond

theorem stampText_ne_zero (stamp : Stamp) : stampText stamp ≠ "0" := by
  intro h
  have hmem : '-' ∈ stampText stamp := by simp [stampText]
  rw [h] at hmem
  revert hmem
  decide

theorem ofNat_ne_nil (n : ℕ) : ofNat n ≠ [] :=
  ne_nil_of_length_pos Nat.length_toDigits_pos

/-- A version is compared as it is. -/
theorem trim_configVersion (file : Option ConfigFile) :
    trim (configVersion file) = configVersion file := by
  cases file with
  | none =>
    show trim "0" = "0"
    decide
  | some file =>
    refine (trim_of_ends ?_ ?_).2
    · intro c hc
      cases hdigits : ofNat file.stamp.1 with
      | nil => exact absurd hdigits (ofNat_ne_nil _)
      | cons first rest =>
        simp only [configVersion, stampText, hdigits, cons_append, head?_cons,
          mem_some_iff] at hc
        subst hc
        exact isWhitespace_of_isDigit (digit_of_mem_ofNat (hdigits ▸ mem_cons_self))
    · intro c hc
      have hlast : (configVersion (some file)).getLast? = (ofNat file.stamp.2).getLast? := by
        rw [configVersion, stampText, getLast?_append_of_ne_nil _ (by simp),
          getLast?_cons, getLast?_eq_getLast_of_ne_nil (ofNat_ne_nil _)]
        simp
      rw [hlast] at hc
      exact isWhitespace_of_isDigit (digit_of_mem_ofNat (mem_of_getLast? hc))

/-! ## What an answer shows -/

/-- The settings that an answer takes from the configuration in use, always or where the file has
none. All others it reads from the file. -/
structure Shown where
  port : UInt16
  transport : UpstreamTransport
  modelOverride : UpstreamModelOverride
  temperature : TemperaturePreset
  thinking : ModelThinking
  networkProxy : NetworkProxyMode
  webSearchBackend : WebSearchBackend
  reasoningSummaryMode : ReasoningSummaryMode
  credential : Upstream.UpstreamCredentialSource
  catalogSourceUrl : Text
  catalogRemoteEnabled : Bool

/-- What `config_payload` shows of them before they get their labels. -/
def configPayload (config : AppConfig) (read : Option UserConfig) : Shown :=
  let user := read.getD {}
  { port := (user.proxy.bind (·.port)).getD config.port
    transport := (user.upstream.bind (·.transport)).getD config.upstream.transport
    modelOverride := config.modelOverride
    temperature := config.temperature
    thinking := config.thinking
    networkProxy := config.networkProxy
    webSearchBackend :=
      ((user.tools.bind (·.webSearch)).bind (·.backend)).getD config.webSearchBackend
    reasoningSummaryMode := config.reasoningSummaryMode
    credential := (user.upstream.bind (·.credential)).getD config.upstream.credential
    catalogSourceUrl := ((user.catalog.bind (·.sourceUrl)).or config.catalogSourceUrl).getD []
    catalogRemoteEnabled := config.catalogRemoteEnabled }

/-- The process, what a payload makes of the settings that are there, and the upstream URL that it
sets. -/
structure Editing (Payload : Type) where
  env : Environment
  base : AppConfig
  apply : Payload → UserConfig → UserConfig
  newUrl : Payload → Option Text

namespace Editing
variable {Payload : Type} (editing : Editing Payload)

/-- The configuration that a refresh builds, apart from the URL, which it has from Codex's file and
which no answer shows. -/
def buildConfig (read : Option UserConfig) (catalog : Option Catalog.CatalogDocument) : AppConfig :=
  applyRead editing.env read { editing.base with catalogRemote := catalog }

/-- What an answer shows that has nothing but the file behind it. -/
def shownOf (read : Option UserConfig) : Shown :=
  configPayload (editing.buildConfig read none) read

/-- A configuration that was built from the file shows what the file says. -/
theorem configPayload_buildConfig (read : Option UserConfig)
    (catalog : Option Catalog.CatalogDocument) :
    configPayload (editing.buildConfig read catalog) read = editing.shownOf read := by
  cases read <;> rfl

end Editing

/-! ## Files and editors -/

section
variable {ι Payload : Type} [DecidableEq ι]

/-- An answer of `config_payload` or `save_config`: its version, what it read of the config file,
what it showed, and the upstream URL. -/
structure Answer where
  version : Text
  config : Option UserConfig
  shown : Shown
  url : Text

/-- How far an editor is in an operation. A save keeps the answer whose version it carries. -/
inductive Activity (Payload : Type) where
  | idle
  | begun (config : AppConfig)
  | readConfig (config : AppConfig) (read : Option UserConfig)
  | readUrl (config : AppConfig) (read : Option UserConfig) (url : Text)
  | compared (payload : Payload) (carried : Option Answer)
  | loaded (payload : Payload) (carried : Option Answer) (existing : UserConfig)
      (pendingUrl : Option Text)
  | saved (config : UserConfig) (url : Text)

/-- The two files, the configuration in use and those that refreshes have built, the editors, the
answers so far, and the stamps that the file has had. -/
@[ext]
structure World (ι Payload : Type) where
  file : Option ConfigFile
  url : Text
  snapshot : AppConfig
  built : List AppConfig
  activity : ι → Activity Payload
  answers : List Answer
  stamps : List Stamp

namespace World

/-- A file that is missing has no settings. -/
def settings (w : World ι Payload) : Option UserConfig :=
  match w.file with
  | some file => file.settings
  | none => some {}

def become (w : World ι Payload) (i : ι) (activity : Activity Payload) : World ι Payload :=
  { w with activity := Function.update w.activity i activity }

/-- Every write gives the file a new stamp. -/
def write (w : World ι Payload) (settings : Option UserConfig) (stamp : Stamp) :
    Option (World ι Payload) :=
  if stamp ∈ w.stamps then none
  else some { w with file := some { settings, stamp }, stamps := stamp :: w.stamps }

def answer (w : World ι Payload) (config : Option UserConfig) (shown : Shown) (url : Text) :
    World ι Payload :=
  { w with answers := w.answers ++ [{ version := configVersion w.file, config, shown, url }] }

def start (file : Option ConfigFile) (url : Text) (snapshot : AppConfig) : World ι Payload where
  file := file
  url := url
  snapshot := snapshot
  built := []
  activity := fun _ => .idle
  answers := []
  stamps := (file.map (·.stamp)).toList

end World

/-- A step on a file, of an editor, of a refresh or from outside. -/
inductive Action (ι Payload : Type) where
  | beginPayload (i : ι)
  | readConfig (i : ι)
  | readUrl (i : ι)
  | answerPayload (i : ι)
  | compare (i : ι) (payload : Payload) (carried : Option ℕ)
  | load (i : ι)
  | writeUrl (i : ι)
  | writeConfig (i : ι) (stamp : Stamp)
  | answerSave (i : ι)
  | fail (i : ι)
  | buildSnapshot (catalog : Option Catalog.CatalogDocument)
  | installSnapshot (k : ℕ)
  | outsideConfig (settings : Option UserConfig) (stamp : Stamp)
  | outsideUrl (url : Text)

variable (editing : Editing Payload)

/-- A save starts with the comparison; the answer that it carries is one that was given before. -/
def compare (w : World ι Payload) (i : ι) (payload : Payload) (carried : Option ℕ) :
    Option (World ι Payload) :=
  match carried with
  | none => some (w.become i (.compared payload none))
  | some k =>
      (w.answers[k]?).map fun answer =>
        if versionConflict (some answer.version) (configVersion w.file) then w
        else w.become i (.compared payload (some answer))

/-- The digests of a configuration that a refresh has built are those of the file as it is read once
more, so it may take effect or not; where it does not, the refresh makes no second step. -/
def step (w : World ι Payload) : Action ι Payload → Option (World ι Payload)
  | .beginPayload i =>
      match w.activity i with
      | .idle => some (w.become i (.begun w.snapshot))
      | _ => none
  | .readConfig i =>
      match w.activity i with
      | .begun config => some (w.become i (.readConfig config w.settings))
      | _ => none
  | .readUrl i =>
      match w.activity i with
      | .readConfig config read => some (w.become i (.readUrl config read w.url))
      | _ => none
  | .answerPayload i =>
      match w.activity i with
      | .readUrl config read url =>
          some ((w.answer read (configPayload config read) url).become i .idle)
      | _ => none
  | .compare i payload carried =>
      match w.activity i with
      | .idle => compare w i payload carried
      | _ => none
  | .load i =>
      match w.activity i with
      | .compared payload carried =>
          some (w.become i
            (.loaded payload carried (w.settings.getD {}) (editing.newUrl payload)))
      | _ => none
  | .writeUrl i =>
      match w.activity i with
      | .loaded payload carried existing (some url) =>
          some ({ w with url := url }.become i (.loaded payload carried existing none))
      | _ => none
  | .writeConfig i stamp =>
      match w.activity i with
      | .loaded payload _ existing none =>
          (w.become i (.saved (editing.apply payload existing) w.url)).write
            (some (editing.apply payload existing)) stamp
      | _ => none
  | .answerSave i =>
      match w.activity i with
      | .saved config url =>
          some ((w.answer (some config) (editing.shownOf (some config)) url).become i .idle)
      | _ => none
  | .fail i => some (w.become i .idle)
  | .buildSnapshot catalog =>
      some { w with built := w.built ++ [editing.buildConfig w.settings catalog] }
  | .installSnapshot k => (w.built[k]?).map fun config => { w with snapshot := config }
  | .outsideConfig settings stamp => w.write settings stamp
  | .outsideUrl url => some { w with url := url }

def run (w : World ι Payload) : List (Action ι Payload) →
    Option (World ι Payload)
  | [] => some w
  | action :: actions => (step editing w action).bind fun w => run w actions

/-! ## What a save relies on -/

/-- A save that carries an answer and is about to write finds in both files what the answer stood
for, apart from the URL that it has written itself: the file is as it was read, and it says what the
answer showed. -/
def SeesAnswer (w : World ι Payload) (i : ι) : Prop :=
  ∀ payload answer existing pendingUrl,
    w.activity i = .loaded payload (some answer) existing pendingUrl →
    w.settings = answer.config ∧ answer.shown = editing.shownOf w.settings ∧
      w.url = if pendingUrl.isNone then (editing.newUrl payload).getD answer.url else answer.url

namespace Activity

/-- The editor has read the config file, or compared its version, and will use what it saw. -/
def holdsConfig : Activity Payload → Bool
  | idle => false
  | begun _ => false
  | readConfig _ _ => true
  | readUrl _ _ _ => true
  | compared _ carried => carried.isSome
  | loaded _ carried _ _ => carried.isSome
  | saved _ _ => true

/-- The editor is saving with an answer that stood for an upstream URL. -/
def holdsUrl : Activity Payload → Bool
  | compared _ carried => carried.isSome
  | loaded _ carried _ _ => carried.isSome
  | _ => false

end Activity

/-- A step does not disturb another editor: no write changes the settings while another editor holds
them, none changes the upstream URL while another editor saves with an answer, and a save whose
version is accepted finds the URL of its answer in Codex's file. And what an answer takes from the
configuration in use is what the file says that it reads. -/
def Undisturbed (w : World ι Payload) : Action ι Payload → Prop
  | .readConfig i => ∀ config, w.activity i = .begun config →
      configPayload config w.settings = editing.shownOf w.settings
  | .writeConfig i _ =>
      ∀ payload carried existing, w.activity i = .loaded payload carried existing none →
        some (editing.apply payload existing) = w.settings ∨
          ∀ j, j ≠ i → (w.activity j).holdsConfig = false
  | .writeUrl i =>
      ∀ payload carried existing url, w.activity i = .loaded payload carried existing (some url) →
        url = w.url ∨ ∀ j, j ≠ i → (w.activity j).holdsUrl = false
  | .outsideConfig settings _ => settings = w.settings ∨ ∀ j, (w.activity j).holdsConfig = false
  | .outsideUrl url => url = w.url ∨ ∀ j, (w.activity j).holdsUrl = false
  | .compare _ _ (some k) =>
      ∀ answer, w.answers[k]? = some answer → answer.version = configVersion w.file →
        w.url = answer.url
  | _ => True

def UndisturbedRun (w : World ι Payload) : List (Action ι Payload) → Prop
  | [] => True
  | action :: actions =>
      Undisturbed editing w action ∧ ∀ next, step editing w action = some next →
        UndisturbedRun next actions

/-! ## The invariant -/

/-- What was read of the file is still there, and what is shown with it is what it says. -/
def Current (w : World ι Payload) (read : Option UserConfig) (shown : Shown) : Prop :=
  read = w.settings ∧ shown = editing.shownOf read

/-- What an editor has read is still there. -/
def Holds (w : World ι Payload) : Activity Payload → Prop
  | .idle => True
  | .begun _ => True
  | .readConfig config read => Current editing w read (configPayload config read)
  | .readUrl config read _ => Current editing w read (configPayload config read)
  | .compared _ none => True
  | .compared _ (some answer) => Current editing w answer.config answer.shown ∧ w.url = answer.url
  | .loaded _ none _ _ => True
  | .loaded payload (some answer) _ pendingUrl =>
      Current editing w answer.config answer.shown ∧
        (w.url = if pendingUrl.isNone then (editing.newUrl payload).getD answer.url else answer.url) ∧
        ∀ url, pendingUrl = some url → editing.newUrl payload = some url
  | .saved config _ => some config = w.settings

/-- Every version is one that the file has had, and one that the file still has stands for the
settings of the file. -/
structure Consistent (w : World ι Payload) : Prop where
  stamped : ∀ file ∈ w.file, file.stamp ∈ w.stamps
  known : ∀ answer ∈ w.answers,
    answer.version = "0" ∨ ∃ stamp ∈ w.stamps, answer.version = stampText stamp
  labelled : ∀ answer ∈ w.answers, answer.version = configVersion w.file →
    Current editing w answer.config answer.shown
  held : ∀ i, Holds editing w (w.activity i)

variable {editing} {w next : World ι Payload} {i : ι}

omit [DecidableEq ι] in
theorem Consistent.heldAs (h : Consistent editing w) {activity : Activity Payload}
    (hactivity : w.activity i = activity) : Holds editing w activity :=
  hactivity ▸ h.held i

omit [DecidableEq ι] in
theorem consistent_start (file : Option ConfigFile) (url : Text) (snapshot : AppConfig) :
    Consistent editing (World.start file url snapshot : World ι Payload) where
  stamped := by
    intro f hf
    obtain rfl : file = some f := hf
    simp [World.start]
  known := by simp [World.start]
  labelled := by simp [World.start]
  held := fun _ => trivial

@[simp] theorem activity_become_self (activity : Activity Payload) :
    (w.become i activity).activity i = activity := Function.update_self ..

theorem activity_become_ne {j : ι} (h : j ≠ i) (activity : Activity Payload) :
    (w.become i activity).activity j = w.activity j := Function.update_of_ne h ..

/-- The holds of the editors only look at the files. -/
theorem holds_become (activity other : Activity Payload) :
    Holds editing (w.become i activity) other ↔ Holds editing w other := by
  cases other <;> rfl

/-- An editor that goes on with what is there. -/
theorem Consistent.become (h : Consistent editing w) {activity : Activity Payload}
    (hactivity : Holds editing w activity) : Consistent editing (w.become i activity) where
  stamped := h.stamped
  known := h.known
  labelled := h.labelled
  held := by
    intro j
    by_cases hj : j = i
    · rw [hj, activity_become_self]
      exact hactivity
    · rw [activity_become_ne hj]
      exact h.held j

omit [DecidableEq ι] in
/-- A refresh touches neither a file nor an editor. -/
theorem Consistent.snapshots (h : Consistent editing w) (snapshot : AppConfig)
    (built : List AppConfig) : Consistent editing { w with snapshot, built } where
  stamped := h.stamped
  known := h.known
  labelled := h.labelled
  held := h.held

omit [DecidableEq ι] in
theorem version_known (h : Consistent editing w) :
    configVersion w.file = "0" ∨ ∃ stamp ∈ w.stamps, configVersion w.file = stampText stamp := by
  cases hfile : w.file with
  | none => exact .inl rfl
  | some file => exact .inr ⟨file.stamp, h.stamped file hfile, rfl⟩

omit [DecidableEq ι] in
/-- An answer with the settings that the file has now. -/
theorem Consistent.answer (h : Consistent editing w) {read : Option UserConfig} {shown : Shown}
    (hcurrent : Current editing w read shown) (url : Text) :
    Consistent editing (w.answer read shown url) where
  stamped := h.stamped
  known := by
    intro answer hmem
    rcases mem_append.mp hmem with hmem | hmem
    · exact h.known answer hmem
    · rw [mem_singleton.mp hmem]
      exact version_known h
  labelled := by
    intro answer hmem hversion
    rcases mem_append.mp hmem with hmem | hmem
    · exact h.labelled answer hmem hversion
    · rw [mem_singleton.mp hmem]
      exact hcurrent
  held := h.held

omit [DecidableEq ι] in
/-- New settings under a new stamp: no answer has the version. -/
theorem consistent_write {settings : Option UserConfig} {stamp : Stamp}
    (hknown : ∀ answer ∈ w.answers,
      answer.version = "0" ∨ ∃ stamp ∈ w.stamps, answer.version = stampText stamp)
    (hwrite : w.write settings stamp = some next)
    (hheld : ∀ i, Holds editing next (w.activity i)) : Consistent editing next := by
  unfold World.write at hwrite
  split at hwrite
  · cases hwrite
  · rename_i hnew
    obtain rfl := some.inj hwrite
    refine ⟨?_, ?_, ?_, hheld⟩
    · intro file hfile
      obtain rfl := some.inj hfile
      exact mem_cons_self
    · intro answer hmem
      rcases hknown answer hmem with hzero | ⟨known, hstamps, hversion⟩
      · exact .inl hzero
      · exact .inr ⟨known, mem_cons_of_mem _ hstamps, hversion⟩
    · intro answer hmem hversion
      exfalso
      rcases hknown answer hmem with hzero | ⟨known, hstamps, hstamp⟩
      · exact stampText_ne_zero stamp (hversion.symm.trans hzero)
      · have heq : stamp = known := stampText_injective (hversion.symm.trans hstamp)
        exact hnew (heq ▸ hstamps)

omit [DecidableEq ι] in
theorem Current.of_settings {read : Option UserConfig} {shown : Shown}
    (h : Current editing w read shown) (hsame : next.settings = w.settings) :
    Current editing next read shown :=
  ⟨h.1.trans hsame.symm, h.2⟩

omit [DecidableEq ι] in
/-- An editor that holds nothing of a file is not disturbed by a write to it. -/
theorem Holds.of_files {activity : Activity Payload} (h : Holds editing w activity)
    (hsettings : next.settings = w.settings ∨ activity.holdsConfig = false)
    (hurl : next.url = w.url ∨ activity.holdsUrl = false) : Holds editing next activity := by
  cases activity with
  | idle => trivial
  | begun config => trivial
  | readConfig config read => exact h.of_settings (hsettings.resolve_right nofun)
  | readUrl config read seen => exact h.of_settings (hsettings.resolve_right nofun)
  | compared payload carried =>
    cases carried with
    | none => trivial
    | some answer =>
      have hsame := hsettings.resolve_right nofun
      exact ⟨h.1.of_settings hsame, (hurl.resolve_right nofun).trans h.2⟩
  | loaded payload carried existing pendingUrl =>
    cases carried with
    | none => trivial
    | some answer =>
      have hsame := hsettings.resolve_right nofun
      exact ⟨h.1.of_settings hsame, (hurl.resolve_right nofun).trans h.2.1, h.2.2⟩
  | saved config seen => exact h.trans (hsettings.resolve_right nofun).symm

omit [DecidableEq ι] in
theorem write_settings {settings : Option UserConfig} {stamp : Stamp}
    (h : w.write settings stamp = some next) :
    next.settings = settings ∧ next.url = w.url ∧ next.activity = w.activity := by
  unfold World.write at h
  split at h
  · cases h
  · obtain rfl := some.inj h
    exact ⟨rfl, rfl, rfl⟩

/-! ## Steps and runs -/

theorem Consistent.compare (h : Consistent editing w) {payload : Payload} {carried : Option ℕ}
    (hcalm : Undisturbed editing w (.compare i payload carried))
    (hstep : Editors.compare w i payload carried = some next) : Consistent editing next := by
  cases carried with
  | none =>
    obtain rfl := Option.some.inj hstep
    exact h.become trivial
  | some k =>
    obtain ⟨answer, hanswer, rfl⟩ := map_eq_some_iff.mp hstep
    split
    · exact h
    · rename_i hequal
      have hmem : answer ∈ w.answers := mem_of_getElem? hanswer
      have hversion : answer.version = configVersion w.file := by
        by_contra hne
        have htrim : trim answer.version = answer.version := by
          rcases h.known answer hmem with hzero | ⟨stamp, _, hstamp⟩
          · rw [hzero]
            exact trim_configVersion none
          · rw [hstamp]
            exact trim_configVersion (some { settings := none, stamp := stamp })
        have hblank : answer.version ≠ [] := by
          rcases h.known answer hmem with hzero | ⟨stamp, _, hstamp⟩
          · rw [hzero]
            decide
          · rw [hstamp, stampText]
            simp
        have hcarried : ((some answer.version).map trim).filter (· ≠ []) =
            some answer.version := by
          rw [map_some, htrim]
          simp [Option.filter, hblank]
        rw [versionConflict, hcarried] at hequal
        simp [hne] at hequal
      exact h.become ⟨h.labelled answer hmem hversion, hcalm answer hanswer hversion⟩

/-- One step that disturbs nobody. -/
theorem Consistent.step (h : Consistent editing w) {action : Action ι Payload}
    (hcalm : Undisturbed editing w action) (hstep : step editing w action = some next) :
    Consistent editing next := by
  cases action with
  | beginPayload i =>
    simp only [Editors.step] at hstep
    split at hstep
    · obtain rfl := some.inj hstep
      exact h.become trivial
    · cases hstep
  | readConfig i =>
    simp only [Editors.step] at hstep
    split at hstep
    · rename_i config hactivity
      obtain rfl := some.inj hstep
      exact h.become ⟨rfl, hcalm config hactivity⟩
    · cases hstep
  | readUrl i =>
    simp only [Editors.step] at hstep
    split at hstep
    · rename_i config read hactivity
      obtain rfl := some.inj hstep
      have hheld := h.heldAs hactivity
      exact h.become hheld
    · cases hstep
  | answerPayload i =>
    simp only [Editors.step] at hstep
    split at hstep
    · rename_i config read url hactivity
      obtain rfl := some.inj hstep
      have hheld := h.heldAs hactivity
      exact (h.answer hheld url).become trivial
    · cases hstep
  | compare i payload carried =>
    simp only [Editors.step] at hstep
    split at hstep
    · exact h.compare hcalm hstep
    · cases hstep
  | load i =>
    simp only [Editors.step] at hstep
    split at hstep
    · rename_i payload carried hactivity
      obtain rfl := some.inj hstep
      have hheld := h.heldAs hactivity
      apply h.become
      cases carried with
      | none => trivial
      | some answer =>
        refine ⟨hheld.1, ?_, fun url hpending => hpending⟩
        cases hnew : editing.newUrl payload with
        | none => exact hheld.2
        | some url => exact hheld.2
    · cases hstep
  | writeUrl i =>
    simp only [Editors.step] at hstep
    split at hstep
    · rename_i payload carried existing url hactivity
      obtain rfl := some.inj hstep
      have hothers := hcalm payload carried existing url hactivity
      refine ⟨h.stamped, h.known, h.labelled, ?_⟩
      intro j
      rw [holds_become]
      by_cases hj : j = i
      · subst hj
        rw [activity_become_self]
        have hheld := h.heldAs hactivity
        cases carried with
        | none => trivial
        | some answer =>
          refine ⟨hheld.1, ?_, fun _ hnone => nomatch hnone⟩
          simp [hheld.2.2 url rfl]
      · rw [activity_become_ne hj]
        exact (h.held j).of_files (.inl rfl) (hothers.imp_right fun hfree => hfree j hj)
    · cases hstep
  | writeConfig i stamp =>
    simp only [Editors.step] at hstep
    split at hstep
    · rename_i payload carried existing hactivity
      obtain ⟨hsettings, hurl, _⟩ := write_settings hstep
      have hothers := hcalm payload carried existing hactivity
      have hknown : ∀ answer ∈ (w.become i (.saved (editing.apply payload existing) w.url)).answers,
          answer.version = "0" ∨ ∃ stamp ∈ w.stamps, answer.version = stampText stamp := h.known
      refine consistent_write hknown hstep fun j => ?_
      by_cases hj : j = i
      · subst hj
        rw [activity_become_self]
        exact hsettings.symm
      · rw [activity_become_ne hj]
        refine (h.held j).of_files ?_ (.inl hurl)
        rw [hsettings]
        exact hothers.imp_right fun hfree => hfree j hj
    · cases hstep
  | answerSave i =>
    simp only [Editors.step] at hstep
    split at hstep
    · rename_i config url hactivity
      obtain rfl := some.inj hstep
      have hheld := h.heldAs hactivity
      exact (h.answer ⟨hheld, rfl⟩ url).become trivial
    · cases hstep
  | fail i =>
    obtain rfl := some.inj hstep
    exact h.become trivial
  | buildSnapshot catalog =>
    obtain rfl := some.inj hstep
    exact h.snapshots _ _
  | installSnapshot k =>
    obtain ⟨config, _, rfl⟩ := map_eq_some_iff.mp hstep
    exact h.snapshots _ _
  | outsideConfig settings stamp =>
    obtain ⟨hsettings, hurl, _⟩ := write_settings hstep
    refine consistent_write h.known hstep fun j =>
      (h.held j).of_files ?_ (.inl hurl)
    rw [hsettings]
    exact hcalm.imp_right fun hfree => hfree j
  | outsideUrl url =>
    obtain rfl := some.inj hstep
    refine ⟨h.stamped, h.known, h.labelled, fun j => ?_⟩
    exact (h.held j).of_files (.inl rfl) (hcalm.imp_right fun hfree => hfree j)

theorem Consistent.run (h : Consistent editing w) {actions : List (Action ι Payload)}
    (hcalm : UndisturbedRun editing w actions) (hrun : run editing w actions = some next) :
    Consistent editing next := by
  induction actions generalizing w with
  | nil =>
    obtain rfl := some.inj hrun
    exact h
  | cons action actions ih =>
    obtain ⟨middle, hstep, hrest⟩ := bind_eq_some_iff.mp hrun
    exact ih (h.step hcalm.1 hstep) (hcalm.2 middle hstep) hrest

/-- In a run whose steps disturb nobody every save that is accepted with the version of an answer
finds both files as the answer said, up to its own writes. -/
theorem saves_see_answers (file : Option ConfigFile) (url : Text) (snapshot : AppConfig)
    {actions : List (Action ι Payload)}
    (hcalm : UndisturbedRun editing (World.start file url snapshot) actions)
    (hrun : run editing (World.start file url snapshot) actions = some w) (i : ι) :
    SeesAnswer editing w i := by
  intro payload answer existing pendingUrl hactivity
  have hheld := ((consistent_start file url snapshot).run hcalm hrun).heldAs hactivity
  obtain ⟨⟨hread, hshown⟩, hurl, _⟩ := hheld
  exact ⟨hread.symm, hread ▸ hshown, hurl⟩

end

/-! ### Two editors -/

section
variable {ι Payload : Type} [DecidableEq ι] {editing : Editing Payload} {w next : World ι Payload}
  {action : Action ι Payload} {actions : List (Action ι Payload)}

theorem undisturbedRun_cons (hcalm : Undisturbed editing w action)
    (hstep : step editing w action = some next) (hrest : UndisturbedRun editing next actions) :
    UndisturbedRun editing w (action :: actions) := by
  refine ⟨hcalm, fun other hother => ?_⟩
  obtain rfl := some.inj (hstep.symm.trans hother)
  exact hrest

theorem become_become {i : ι} {first second : Activity Payload} :
    (w.become i first).become i second = w.become i second :=
  World.ext rfl rfl rfl rfl (Function.update_idem ..) rfl rfl

/-- The editor reads the settings. -/
def reads (i : ι) : List (Action ι Payload) :=
  [.beginPayload i, .readConfig i, .readUrl i, .answerPayload i]

theorem undisturbedRun_reads {i : ι} (hidle : w.activity i = .idle)
    (hfresh : configPayload w.snapshot w.settings = editing.shownOf w.settings)
    (hrest : UndisturbedRun editing
      (w.answer w.settings (configPayload w.snapshot w.settings) w.url) actions) :
    UndisturbedRun editing w (reads i ++ actions) := by
  have hbegin : step editing w (.beginPayload i) = some (w.become i (.begun w.snapshot)) := by
    simp only [step, hidle]
  have hread : step editing (w.become i (.begun w.snapshot)) (.readConfig i) =
      some (w.become i (.readConfig w.snapshot w.settings)) := by
    simp only [step, activity_become_self, become_become]
    rfl
  have hurl : step editing (w.become i (.readConfig w.snapshot w.settings)) (.readUrl i) =
      some (w.become i (.readUrl w.snapshot w.settings w.url)) := by
    simp only [step, activity_become_self, become_become]
    rfl
  have hanswer : step editing (w.become i (.readUrl w.snapshot w.settings w.url))
      (.answerPayload i) =
      some (w.answer w.settings (configPayload w.snapshot w.settings) w.url) := by
    have hsame : Function.update w.activity i .idle = w.activity := by
      rw [← hidle, Function.update_eq_self]
    simp only [step, activity_become_self]
    refine congrArg some (World.ext rfl rfl rfl rfl ?_ rfl rfl)
    exact (congrArg World.activity become_become).trans hsame
  refine undisturbedRun_cons trivial hbegin (undisturbedRun_cons ?_ hread (undisturbedRun_cons
    trivial hurl (undisturbedRun_cons trivial hanswer hrest)))
  intro config hconfig
  obtain rfl := Activity.begun.inj ((activity_become_self _).symm.trans hconfig)
  exact hfresh

end

open RuntimeConfig.OneSetting (process base)

/-- A payload sets the temperature and perhaps the upstream URL. -/
def temperatures : Editing (TemperaturePreset × Option Text) where
  env := process.toEnvironment
  base := base
  apply payload user := { user with model := some { temperature := some payload.1 } }
  newUrl payload := payload.2

def newWorld : World Bool (TemperaturePreset × Option Text) := .start none "https://a.example" base

/-- Two editors read the settings. The first one saves with its answer, a refresh follows, and it
saves once more with the answer of its save; the second one comes too late with its own. -/
def twoEditors : List (Action Bool (TemperaturePreset × Option Text)) :=
  reads false ++ reads true ++
    [.compare false (.strict, some "https://b.example") (some 0), .load false, .writeUrl false,
      .writeConfig false (1, 40), .buildSnapshot none, .installSnapshot 0, .answerSave false,
      .compare true (.creative, none) (some 1),
      .compare false (.balanced, none) (some 2), .load false]

/-- The world after some steps on an empty directory. -/
def worldAfter (actions : List (Action Bool (TemperaturePreset × Option Text))) :
    World Bool (TemperaturePreset × Option Text) :=
  (run temperatures newWorld actions).getD newWorld

def savedConfig : UserConfig := { model := some { temperature := some .strict } }

/-- The answer of `config_payload` on an empty directory. -/
def firstAnswer : Answer where
  version := "0"
  config := some {}
  shown := temperatures.shownOf (some {})
  url := "https://a.example"

/-- The world after the first save. -/
def savedWorld : World Bool (TemperaturePreset × Option Text) where
  file := some { settings := some savedConfig, stamp := (1, 40) }
  url := "https://b.example"
  snapshot := temperatures.buildConfig (some savedConfig) none
  built := [temperatures.buildConfig (some savedConfig) none]
  activity := fun _ => .idle
  answers := [firstAnswer, firstAnswer,
    { version := "1-40", config := some savedConfig,
      shown := temperatures.shownOf (some savedConfig), url := "https://b.example" }]
  stamps := [(1, 40)]

theorem savedWorld_undisturbed : UndisturbedRun temperatures savedWorld
    [.compare true (.creative, none) (some 1), .compare false (.balanced, none) (some 2),
      .load false] := by
  have hconflict : step temperatures savedWorld (.compare true (.creative, none) (some 1)) =
      some savedWorld := by
    rfl
  refine undisturbedRun_cons ?_ hconflict (undisturbedRun_cons ?_ rfl
    (undisturbedRun_cons trivial rfl trivial))
  · intro answer hanswer hversion
    obtain rfl := some.inj hanswer
    exact absurd hversion (by decide +kernel)
  · intro answer hanswer _
    obtain rfl := some.inj hanswer
    rfl

theorem twoEditors_undisturbed : UndisturbedRun temperatures newWorld twoEditors := by
  have hother : ∀ j, j ≠ false → j = true := by decide
  refine undisturbedRun_reads rfl rfl (undisturbedRun_reads rfl rfl ?_)
  refine undisturbedRun_cons ?_ rfl (undisturbedRun_cons trivial rfl (undisturbedRun_cons ?_ rfl
    (undisturbedRun_cons ?_ rfl (undisturbedRun_cons trivial rfl (undisturbedRun_cons trivial rfl
      (undisturbedRun_cons trivial (congrArg some ?_) savedWorld_undisturbed))))))
  · intro answer hanswer _
    obtain rfl := some.inj hanswer
    rfl
  · intro _ _ _ _ _
    refine .inr fun j hj => ?_
    obtain rfl := hother j hj
    rfl
  · intro _ _ _ _
    refine .inr fun j hj => ?_
    obtain rfl := hother j hj
    rfl
  · refine World.ext rfl rfl rfl rfl (funext fun j => ?_) rfl rfl
    cases j <;> rfl

/-- The second save of the first editor sees what its first save wrote. -/
theorem twoEditors_see_answers :
    (∃ answer existing, (worldAfter twoEditors).activity false =
      .loaded (.balanced, none) (some answer) existing none) ∧
      ∀ i, SeesAnswer temperatures (worldAfter twoEditors) i :=
  ⟨⟨_, _, rfl⟩, saves_see_answers none "https://a.example" base twoEditors_undisturbed rfl⟩

/-- Between the answer and the save the upstream URL is written from outside. -/
def readAndSaveLate : List (Action Bool (TemperaturePreset × Option Text)) :=
  reads false ++
    [.outsideUrl "https://b.example", .compare false (.strict, none) (some 0), .load false]

theorem readAndSaveLate_unseen : ¬ SeesAnswer temperatures (worldAfter readAndSaveLate) false := by
  intro h
  have hurl := (h (.strict, none) firstAnswer {} none rfl).2.2
  revert hurl
  decide

def fullSummaries : UserConfig := { experimental := some { reasoningSummaryMode := some "full" } }

/-- The summary mode is written from outside, and no refresh takes it up before it is read. -/
def readAndSaveStale : List (Action Bool (TemperaturePreset × Option Text)) :=
  .outsideConfig (some fullSummaries) (1, 40) :: reads false ++
    [.compare false (.strict, none) (some 0), .load false]

/-- The answer has the version of a file that says otherwise. -/
theorem readAndSaveStale_unseen : ¬ SeesAnswer temperatures (worldAfter readAndSaveStale) false := by
  intro h
  have hshown := (h (.strict, none)
    { version := "1-40"
      config := some fullSummaries
      shown := configPayload base (some fullSummaries)
      url := "https://a.example" } fullSummaries none rfl).2.1
  have hmode := congrArg Shown.reasoningSummaryMode hshown
  revert hmode
  decide

end CodeSeeX.Editors
