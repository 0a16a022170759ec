import CodeSeeX.Core.AppServerModels
import CodeSeeX.Core.RepeatedOverrides

/-!
# The catalog under the overrides of a user

Overrides change models of the catalog and add models, which are copied from the first built-in
one. What comes out should be a catalog that the parser accepts, in which an added model stands
for itself, and of which the model list marks the default.
-/
namespace CodeSeeX.Catalog

def CatalogModel.aliases (model : CatalogModel) : List Text :=
  (((model.extra.get "aliases").bind Value.asArray).map (List.filterMap Value.asStr)).getD []

/-- The upstream slug that a model declares. -/
def CatalogModel.declaredUpstream (model : CatalogModel) : Option Text :=
  (((model.extra.get "upstream_slug").bind Value.asStr).map Text.trim).filter (· ≠ [])

end CodeSeeX.Catalog

namespace CodeSeeX.Config
open Catalog Pricing Checks

/-! ## The models that overrides list -/

/-- A model with the override of its slug. -/
def changed (overrides : BTreeMap Text CatalogModelOverride) (model : CatalogModel) :
    CatalogModel :=
  match overrides.get model.slug with
  | some changes => applyTo changes model
  | none => model

/-- A slug that no model of the document has. -/
def IsNew (document : CatalogDocument) (slug : Text) : Prop :=
  slug ∉ document.models.map CatalogModel.slug

instance (document : CatalogDocument) (slug : Text) : Decidable (IsNew document slug) :=
  inferInstanceAs (Decidable (_ ∉ _))

/-- The models that only the overrides have, in the order of their slugs. -/
def addedModels (embedded document : CatalogDocument)
    (overrides : BTreeMap Text CatalogModelOverride) : List CatalogModel :=
  (overrides.entries.filter fun entry => IsNew document entry.1).filterMap fun entry =>
    toCatalogModel embedded entry.2 entry.1

/-- The document with its models changed and the others behind them. -/
def overlaid (embedded document : CatalogDocument)
    (overrides : BTreeMap Text CatalogModelOverride) : CatalogDocument :=
  { document with
    models := document.models.map (changed overrides) ++ addedModels embedded document overrides }

section
variable {embedded : CatalogDocument}

theorem updateFirst_eq_map {slug : Text} {f : CatalogModel → CatalogModel}
    {models : List CatalogModel} (h : (models.map CatalogModel.slug).Nodup) :
    updateFirst slug f models =
      models.map fun model => if model.slug = slug then f model else model := by
  induction models with
  | nil => rfl
  | cons model models ih =>
    rw [List.map_cons, List.nodup_cons] at h
    rw [updateFirst, List.map_cons]
    split_ifs with heq
    · have hother : ∀ other ∈ models, other.slug ≠ slug := by
        intro other hmem hsame
        exact h.1 (heq.trans hsame.symm ▸ List.mem_map_of_mem hmem)
      have hlater : models.map (fun model => if model.slug = slug then f model else model) =
          models.map id :=
        List.map_congr_left fun other hmem => if_neg (hother other hmem)
      rw [hlater, List.map_id]
    · rw [ih h.2]

/-- The fold over the overrides, model by model: each override changes the model of its slug or
adds one. -/
theorem foldl_overrideModel {entries : List (Text × CatalogModelOverride)}
    (hkeys : (entries.map Prod.fst).Nodup) {get : Text → Option CatalogModelOverride}
    (hget : ∀ slug changes, get slug = some changes ↔ (slug, changes) ∈ entries)
    {models : List CatalogModel} (hslugs : (models.map CatalogModel.slug).Nodup) :
    entries.foldl (overrideModel embedded) models =
      models.map (fun model => ((get model.slug).map (applyTo · model)).getD model) ++
        (entries.filter fun entry => entry.1 ∉ models.map CatalogModel.slug).filterMap
          fun entry => toCatalogModel embedded entry.2 entry.1 := by
  induction entries generalizing models get with
  | nil =>
    have hnone : ∀ slug, get slug = none := by
      intro slug
      cases hslug : get slug with
      | none => rfl
      | some changes => exact absurd ((hget slug changes).mp hslug) List.not_mem_nil
    simp [hnone]
  | cons entry entries ih =>
    obtain ⟨slug, changes⟩ := entry
    rw [List.map_cons, List.nodup_cons] at hkeys
    have hhead : get slug = some changes := (hget slug changes).mpr List.mem_cons_self
    -- the overrides that are left do not touch this slug
    let rest : Text → Option CatalogModelOverride := fun other =>
      if other = slug then none else get other
    have hrest : ∀ other changes, rest other = some changes ↔ (other, changes) ∈ entries := by
      intro other c
      show (if other = slug then none else get other) = some c ↔ _
      split_ifs with heq
      · subst heq
        exact ⟨nofun, fun h => absurd (List.mem_map_of_mem h) hkeys.1⟩
      · rw [hget, List.mem_cons, Prod.mk.injEq]
        exact or_iff_right fun h => heq h.1
    have hself : rest slug = none := if_pos rfl
    have hother : ∀ other, other ≠ slug → rest other = get other := fun other h => if_neg h
    rw [List.foldl_cons, overrideModel]
    by_cases hmem : slug ∈ models.map CatalogModel.slug
    · have hany : (models.any fun model => model.slug = slug) = true := by
        simpa using hmem
      have hsame : (models.map fun model =>
          if model.slug = slug then applyTo changes model else model).map CatalogModel.slug =
            models.map CatalogModel.slug := by
        rw [List.map_map]
        refine List.map_congr_left fun model _ => ?_
        show (if model.slug = slug then applyTo changes model else model).slug = model.slug
        split_ifs <;> rfl
      rw [if_pos hany, updateFirst_eq_map hslugs, ih hkeys.2 hrest (hsame ▸ hslugs), hsame,
        List.filter_cons_of_neg (by simpa using hmem), List.map_map]
      congr 1
      refine List.map_congr_left fun model _ => ?_
      rw [Function.comp_apply]
      by_cases heq : model.slug = slug
      · rw [if_pos heq, applyTo_slug, heq, hself, hhead]
        rfl
      · rw [if_neg heq, hother _ heq]
    · have hany : ¬(models.any fun model => model.slug = slug) = true := by
        simpa using hmem
      have hnew : ∀ model ∈ toCatalogModel embedded changes slug, model.slug = slug :=
        fun model h => (toCatalogModel_eq h).1
      have hslugs' : ((models ++ (toCatalogModel embedded changes slug).toList).map
          CatalogModel.slug).Nodup := by
        cases hmodel : toCatalogModel embedded changes slug with
        | none => simpa using hslugs
        | some model =>
          have hslug := hnew model hmodel
          rw [Option.toList_some, List.map_append, List.nodup_append]
          refine ⟨hslugs, by simp, fun a ha b hb heq => hmem ?_⟩
          rw [List.map_singleton, List.mem_singleton, hslug] at hb
          exact hb ▸ heq ▸ ha
      rw [if_neg hany, ih hkeys.2 hrest hslugs', List.filter_cons_of_pos (by simpa using hmem),
        List.map_append, List.filterMap_cons]
      have hold : models.map (fun model => ((rest model.slug).map (applyTo · model)).getD model) =
          models.map (fun model => ((get model.slug).map (applyTo · model)).getD model) := by
        refine List.map_congr_left fun model hmodel => ?_
        have hne : model.slug ≠ slug := fun h => hmem (h ▸ List.mem_map_of_mem hmodel)
        rw [hother _ hne]
      have hfilter : (entries.filter fun entry => entry.1 ∉
          (models ++ (toCatalogModel embedded changes slug).toList).map CatalogModel.slug) =
            entries.filter fun entry => entry.1 ∉ models.map CatalogModel.slug := by
        refine List.filter_congr fun entry hentry => ?_
        have hne : entry.1 ≠ slug := by
          intro h
          exact hkeys.1 (List.mem_map.mpr ⟨entry, hentry, h⟩)
        rw [List.map_append, decide_eq_decide, List.mem_append, not_or]
        refine and_iff_left ?_
        intro h
        obtain ⟨model, hmodel, heq⟩ := List.mem_map.mp h
        exact hne (heq.symm.trans (hnew model (Option.mem_toList.mp hmodel)))
      rw [hold, hfilter, List.append_assoc]
      congr 1
      cases hmodel : toCatalogModel embedded changes slug with
      | none => rfl
      | some model =>
        rw [Option.toList_some, List.map_singleton, hnew model hmodel, hself]
        rfl

/-- The overrides leave the models of the document, changed, and behind them the added ones. -/
theorem models_applyCatalogOverrides {document : CatalogDocument}
    (hslugs : (document.models.map CatalogModel.slug).Nodup) (overrides : CatalogOverrides) :
    (applyCatalogOverrides embedded document overrides).models =
      (overlaid embedded document overrides.models).models := by
  have hfold := @foldl_overrideModel embedded overrides.models.entries overrides.models.keys_nodup
    overrides.models.get (fun _ _ => BTreeMap.get_eq_some) _ hslugs
  have hchanged : document.models.map
      (fun model => ((overrides.models.get model.slug).map (applyTo · model)).getD model) =
        document.models.map (changed overrides.models) := by
    refine List.map_congr_left fun model _ => ?_
    rw [changed]
    cases overrides.models.get model.slug <;> rfl
  rw [hchanged] at hfold
  by_cases hempty : overrides.isEmpty = true
  · rw [applyCatalogOverrides, if_pos hempty]
    rw [CatalogOverrides.isEmpty, Bool.and_eq_true, List.isEmpty_iff] at hempty
    rw [hempty.1] at hfold
    rw [overlaid, addedModels, hempty.1]
    exact hfold
  · rw [applyCatalogOverrides, if_neg hempty]
    exact hfold

end

/-! ## What an override writes -/

theorem get_insertExtra {α : Type} (toValue : α → Value) (key : Text) (value : Option α)
    (extra : BTreeMap Text Value) (other : Text) :
    (insertExtra toValue key value extra).get other =
      if other = key then (value.map toValue).or (extra.get other) else extra.get other := by
  cases value with
  | none => simp [insertExtra]
  | some v =>
    rw [insertExtra]
    split_ifs with heq
    · rw [heq, BTreeMap.get_insert_self]
      rfl
    · exact BTreeMap.get_insert_ne _ heq

/-- The fields that an override can write. -/
def overrideKeys : List Text :=
  ["short_display_name", "upstream_slug", "pricing_group", "aliases", "is_default", "hidden"]

section
variable (changes : CatalogModelOverride) (model : CatalogModel)

theorem get_applyTo_of_notMem {key : Text} (h : key ∉ overrideKeys) :
    (applyTo changes model).extra.get key = model.extra.get key := by
  simp only [overrideKeys, List.mem_cons, List.not_mem_nil, or_false, not_or] at h
  simp only [applyTo, get_insertExtra, h, if_false]

theorem get_applyTo_aliases : (applyTo changes model).extra.get "aliases" =
    (changes.aliases.map textsValue).or (model.extra.get "aliases") := by
  simp [applyTo, get_insertExtra]

theorem get_applyTo_upstreamSlug : (applyTo changes model).extra.get "upstream_slug" =
    (changes.upstreamSlug.map Value.string).or (model.extra.get "upstream_slug") := by
  simp [applyTo, get_insertExtra]

/-- Values of an override that the checks of the parser accept. -/
structure ValidChanges (changes : CatalogModelOverride) : Prop where
  display_name : ∀ name ∈ changes.displayName, name.trim ≠ []
  context_window : ∀ window ∈ changes.contextWindow, window.toNat ≠ 0
  percent : ∀ percent ∈ changes.effectiveContextWindowPercent,
    1 ≤ percent.toNat ∧ percent.toNat ≤ 100
  aliases : ∀ names ∈ changes.aliases, ∀ name ∈ names, name.trim ≠ []

theorem areNames_textsValue {names : List Text} :
    AreNames (some (textsValue names)) ↔ ∀ name ∈ names, name.trim ≠ [] := by
  have hitem : ∀ name : Text,
      ((((Value.string name).asStr).map Text.trim).filter (· ≠ [])).isSome = true ↔
        name.trim ≠ [] := by
    intro name
    show (Option.filter _ (some name.trim)).isSome = true ↔ _
    by_cases h : name.trim = [] <;> simp [h]
  simp only [AreNames, Option.mem_def, Option.some_inj, forall_eq']
  constructor
  · rintro ⟨items, hitems, hall⟩ name hname
    obtain rfl := Option.some.inj hitems
    rw [isTextArray, List.all_map, List.all_eq_true] at hall
    exact (hitem name).mp (hall name hname)
  · intro h
    refine ⟨_, rfl, ?_⟩
    rw [isTextArray, List.all_map, List.all_eq_true]
    exact fun name hname => (hitem name).mpr (h name hname)

variable {changes model}

theorem validExtra_applyTo (h : ValidExtra model.extra.get) :
    ValidExtra (applyTo changes model).extra.get ↔
      ∀ names ∈ changes.aliases, ∀ name ∈ names, name.trim ≠ [] := by
  have hprompt : ∀ key ∈ catalogPromptFields, key ∉ overrideKeys := by decide
  constructor
  · intro hvalid names hnames
    have hfield := hvalid.aliases
    rw [get_applyTo_aliases, Option.mem_def.mp hnames] at hfield
    exact areNames_textsValue.mp hfield
  · intro hnames
    refine ⟨fun key hkey => ?_, ?_, ?_, ?_⟩
    · rw [get_applyTo_of_notMem changes model (hprompt key hkey)]
      exact h.unprompted key hkey
    · rw [get_applyTo_of_notMem changes model (by decide)]
      exact h.max_context
    · rw [get_applyTo_aliases]
      cases hfield : changes.aliases with
      | none => exact h.aliases
      | some names => exact areNames_textsValue.mpr (hnames names hfield)
    · rw [get_applyTo_of_notMem changes model (by decide)]
      exact h.patterns

theorem getD_ne_iff {α β : Type} {new : Option α} (f : α → β) {old : β} {P : β → Prop} (h : P old) :
    P ((new.map f).getD old) ↔ ∀ value ∈ new, P (f value) := by
  cases new <;> simp [h]

/-- The checks of a model with an override, whatever it is called. -/
theorem validate_applyTo_iff (hname : model.displayName.trim ≠ []) (hwindow : model.contextWindow ≠ 0)
    (hpercent : 1 ≤ model.effectiveContextWindowPercent ∧
      model.effectiveContextWindowPercent ≤ 100) (hextra : ValidExtra model.extra.get) :
    validateCatalogModel (applyTo changes model) = .ok () ↔
      (model.slug.trim ≠ [] ∧ model.slug.trim.all isSlugChar = true) ∧ ValidChanges changes := by
  have hnames := @getD_ne_iff _ _ changes.displayName id _ (fun name => Text.trim name ≠ []) hname
  have hwindows := @getD_ne_iff _ _ changes.contextWindow UInt64.toNat _ (· ≠ 0) hwindow
  have hpercents := @getD_ne_iff _ _ changes.effectiveContextWindowPercent UInt8.toNat _
    (fun percent => 1 ≤ percent ∧ percent ≤ 100) hpercent
  rw [Option.map_id] at hnames
  rw [validateCatalogModel_ok, validExtra_applyTo hextra, applyTo_slug]
  constructor
  · rintro ⟨⟨hslug, hchars, hname, hwindow, hpercent⟩, haliases⟩
    exact ⟨⟨hslug, hchars⟩, hnames.mp hname, hwindows.mp hwindow, hpercents.mp hpercent, haliases⟩
  · rintro ⟨⟨hslug, hchars⟩, hvalid⟩
    exact ⟨⟨hslug, hchars, hnames.mpr hvalid.display_name, hwindows.mpr hvalid.context_window,
      hpercents.mpr hvalid.percent⟩, hvalid.aliases⟩

theorem isWritable_applyTo (h : model.IsWritable) : (applyTo changes model).IsWritable where
  window_lt := by
    show (changes.contextWindow.map UInt64.toNat).getD model.contextWindow < 2 ^ 64
    cases changes.contextWindow with
    | none => exact h.window_lt
    | some window => exact UInt64.toNat_lt window
  percent_lt := by
    show (changes.effectiveContextWindowPercent.map UInt8.toNat).getD
      model.effectiveContextWindowPercent < 2 ^ 8
    cases changes.effectiveContextWindowPercent with
    | none => exact h.percent_lt
    | some percent => exact UInt8.toNat_lt percent
  priority_lt := h.priority_lt
  extra_keys := by
    have hkeys : ∀ key ∈ overrideKeys, key ∉ modelFields := by decide
    intro e he
    by_cases hkey : e.1 ∈ overrideKeys
    · exact hkeys e.1 hkey
    · have hget := BTreeMap.get_eq_some.mpr he
      rw [get_applyTo_of_notMem changes model hkey] at hget
      exact h.extra_keys e (BTreeMap.get_eq_some.mp hget)

end

/-! ## What the parser accepts -/

/-- A catalog that is written as a document of which only the models and the default can fail. -/
structure IsWritable (document : CatalogDocument) : Prop where
  schema_eq : document.schemaVersion = supportedCatalogSchemaVersion
  revision_filled : Filled document.revision
  issuedAt_filled : ∀ text ∈ document.issuedAt, Filled text
  provider_filled : Filled document.providerName
  minAppVersion_filled : ∀ text ∈ document.minAppVersion, Filled text
  supported : versionSupported document.minAppVersion = true
  default_trim : document.defaultModel.trim = document.defaultModel
  models_ne : document.models ≠ []
  slugs_nodup : (document.models.map CatalogModel.slug).Nodup
  models_writable : ∀ model ∈ document.models, model.IsWritable
  pricing_read : document.pricing.IsRead

section
variable {serdeError : Value → Text}

theorem parseModels_toValue_ok {seen : List Text} {models read : List CatalogModel}
    (hwritable : ∀ model ∈ models, model.IsWritable)
    (h : parseModels serdeError seen (models.map CatalogModel.toValue) = .ok read) :
    read = models ∧ ∀ model ∈ models, validateCatalogModel model = .ok () := by
  induction models generalizing seen read with
  | nil => exact ⟨(Except.ok.inj h).symm, fun model hmem => absurd hmem List.not_mem_nil⟩
  | cons model models ih =>
    rw [List.forall_mem_cons] at hwritable
    simp only [List.map_cons, parseModels, bind_ok, require_ok, ensure_ok] at h
    obtain ⟨found, hfound, _, hvalid, _, _, later, hlater, heq⟩ := h
    rw [modelFromValue_toValue hwritable.1] at hfound
    obtain rfl := Option.some.inj hfound
    obtain ⟨rfl, hall⟩ := ih hwritable.2 hlater
    exact ⟨(Except.ok.inj heq).symm, List.forall_mem_cons.mpr ⟨hvalid, hall⟩⟩

variable (serdeError) (shortest : ℚ → DecimalText)

theorem accepted_iff {document : CatalogDocument} (h : IsWritable document) :
    (∃ reread, fromValue serdeError PricingTable.fromValue (document.toValue shortest) =
        .ok reread) ↔
      (∀ model ∈ document.models, validateCatalogModel model = .ok ()) ∧
        ∃ model ∈ document.models, isDefault model = true ∨ model.slug = document.defaultModel := by
  have hdeclared : (document.models.any isDefault ||
      document.models.any (·.slug = document.defaultModel)) = true ↔
        ∃ model ∈ document.models, isDefault model = true ∨
          model.slug = document.defaultModel := by
    simp only [Bool.or_eq_true, List.any_eq_true, decide_eq_true_eq, ← exists_or, and_or_left]
  have hdefault : (trimmedField (document.toValue shortest) "default_model").getD [] =
      document.defaultModel := trimmedField_default rfl h.default_trim
  constructor
  · rintro ⟨reread, hread⟩
    simp only [fromValue, bind_ok, ensure_ok, require_ok, hdefault] at hread
    obtain ⟨_, _, _, _, _, _, _, _, _, _, values, hvalues, _, _, models, hmodels, _, hmark, _⟩ := hread
    obtain rfl : document.models.map CatalogModel.toValue = values := Option.some.inj hvalues
    obtain ⟨rfl, hvalid⟩ := parseModels_toValue_ok h.models_writable hmodels
    exact ⟨hvalid, hdeclared.mp hmark⟩
  · rintro ⟨hvalid, hmark⟩
    have hread : document.IsRead := {
      h with
      models_read := fun model hmem =>
        { h.models_writable model hmem with valid := hvalid model hmem }
      default_declared := hdeclared.mpr hmark }
    exact ⟨document, fromValue_toValue serdeError shortest hread⟩

end

theorem filled_append {text back : Text} (h : Filled text) (hback : Filled back) :
    Filled (text ++ back) := by
  refine ⟨(Text.trim_of_ends ?_ ?_).2, List.append_ne_nil_of_left_ne_nil h.2 _⟩
  · rw [List.head?_append_of_ne_nil _ h.2]
    exact h.1 ▸ (Text.trim_ends text).1
  · rw [List.getLast?_append_of_ne_nil _ hback.2]
    exact hback.1 ▸ (Text.trim_ends back).2

/-! ## Added models -/

/-- An override of its own adds a model if it names or describes it. -/
def Adds (changes : CatalogModelOverride) : Prop :=
  ¬(changes.displayName.isNone ∧ changes.description.isNone)

/-- The first built-in model under the names of an override. -/
def copied (first : CatalogModel) (changes : CatalogModelOverride) (slug : Text) : CatalogModel :=
  { first with
    slug := slug
    displayName := changes.displayName.getD slug
    description := changes.description.getD [] }

/-- A slug with the characters that the parser accepts, within blanks. -/
def IsSlug (slug : Text) : Prop := slug.trim ≠ [] ∧ slug.trim.all isSlugChar = true

section
variable {embedded document : CatalogDocument} {first : CatalogModel}
  {overrides : BTreeMap Text CatalogModelOverride}

theorem mem_addedModels (hfirst : embedded.models.head? = some first) {model : CatalogModel} :
    model ∈ addedModels embedded document overrides ↔
      ∃ entry ∈ overrides.entries, IsNew document entry.1 ∧ Adds entry.2 ∧
        model = applyTo entry.2 (copied first entry.2 entry.1) := by
  have hmake : ∀ changes slug, toCatalogModel embedded changes slug = some model ↔
      Adds changes ∧ model = applyTo changes (copied first changes slug) := by
    intro changes slug
    rw [toCatalogModel, hfirst]
    show (if _ then none else some (applyTo changes (copied first changes slug))) = _ ↔ _
    by_cases hadds : Adds changes
    · rw [if_neg hadds, Option.some_inj]
      exact ⟨fun h => ⟨hadds, h.symm⟩, fun h => h.2.symm⟩
    · rw [if_pos (not_not.mp hadds)]
      exact ⟨fun h => absurd h.symm (Option.some_ne_none _), fun h => absurd h.1 hadds⟩
  simp only [addedModels, List.mem_filterMap, List.mem_filter, decide_eq_true_eq, hmake, and_assoc]

theorem changed_slug (model : CatalogModel) : (changed overrides model).slug = model.slug := by
  rw [changed]
  split <;> rfl

theorem addedModels_slugs :
    ((addedModels embedded document overrides).map CatalogModel.slug).Sublist
      ((overrides.entries.filter fun entry => IsNew document entry.1).map Prod.fst) := by
  rw [addedModels]
  generalize overrides.entries.filter (fun entry => IsNew document entry.1) = entries
  induction entries with
  | nil => exact List.Sublist.refl _
  | cons entry entries ih =>
    rw [List.filterMap_cons]
    cases hmodel : toCatalogModel embedded entry.2 entry.1 with
    | none => exact ih.cons _
    | some model =>
      rw [List.map_cons, List.map_cons, (toCatalogModel_eq hmodel).1]
      exact ih.cons_cons _

theorem overlaid_slugs_nodup (hslugs : (document.models.map CatalogModel.slug).Nodup) :
    ((overlaid embedded document overrides).models.map CatalogModel.slug).Nodup := by
  have hold : (document.models.map (changed overrides)).map CatalogModel.slug =
      document.models.map CatalogModel.slug := by
    rw [List.map_map]
    exact List.map_congr_left fun model _ => changed_slug model
  rw [overlaid, List.map_append, hold, List.nodup_append]
  refine ⟨hslugs, ?_, ?_⟩
  · refine addedModels_slugs.nodup ?_
    exact (overrides.keys_nodup.sublist (List.filter_sublist.map _))
  · intro slug hmem other hother heq
    obtain ⟨entry, hentry, rfl⟩ := List.mem_map.mp (addedModels_slugs.subset hother)
    exact of_decide_eq_true (List.mem_filter.mp hentry).2 (heq ▸ hmem)

/-- The models of the overlaid document are accepted if the overrides write accepted values. -/
theorem overlaid_valid_iff (hembedded : embedded.IsRead) (hdocument : document.IsRead) :
    (∀ model ∈ (overlaid embedded document overrides).models,
        validateCatalogModel model = .ok ()) ↔
      (∀ model ∈ document.models, ∀ changes ∈ overrides.get model.slug, ValidChanges changes) ∧
        ∀ entry ∈ overrides.entries, IsNew document entry.1 → Adds entry.2 →
          IsSlug entry.1 ∧ ValidChanges entry.2 := by
  obtain ⟨first, later, hmodels⟩ := List.exists_cons_of_ne_nil hembedded.models_ne
  have hfirst : embedded.models.head? = some first := by rw [hmodels, List.head?_cons]
  have hfirstRead := hembedded.models_read first (List.mem_of_mem_head? hfirst)
  obtain ⟨⟨_, _, _, hwindow, hpercent⟩, hextra⟩ := validateCatalogModel_ok.mp hfirstRead.valid
  have hchanged : ∀ model ∈ document.models,
      (validateCatalogModel (changed overrides model) = .ok () ↔
        ∀ changes ∈ overrides.get model.slug, ValidChanges changes) := by
    intro model hmodel
    have hvalid := (hdocument.models_read model hmodel).valid
    obtain ⟨⟨hslug, hchars, hname, hwindow, hpercent⟩, hextra⟩ := validateCatalogModel_ok.mp hvalid
    rw [changed]
    cases hget : overrides.get model.slug with
    | none => simp [hvalid]
    | some changes =>
      simp only [Option.mem_def, Option.some_inj, forall_eq']
      rw [validate_applyTo_iff hname hwindow hpercent hextra]
      exact and_iff_right ⟨hslug, hchars⟩
  have hadded : ∀ changes slug,
      (validateCatalogModel (applyTo changes (copied first changes slug)) = .ok () ↔
        IsSlug slug ∧ ValidChanges changes) := by
    intro changes slug
    have hiff : (copied first changes slug).displayName.trim ≠ [] →
        (validateCatalogModel (applyTo changes (copied first changes slug)) = .ok () ↔
          IsSlug slug ∧ ValidChanges changes) := fun hname =>
      validate_applyTo_iff hname hwindow hpercent hextra
    constructor
    · intro hvalid
      have hname := (validateCatalogModel_ok.mp hvalid).1.2.2.1
      have hsame : (applyTo changes (copied first changes slug)).displayName =
          (copied first changes slug).displayName := getD_getD ..
      rw [hsame] at hname
      exact (hiff hname).mp hvalid
    · rintro ⟨hslug, hvalid⟩
      -- without a name of its own the model is called by its slug, which is not blank
      have hname : (changes.displayName.getD slug).trim ≠ [] := by
        cases hname : changes.displayName with
        | none => exact hslug.1
        | some name => exact hvalid.display_name name hname
      exact (hiff hname).mpr ⟨hslug, hvalid⟩
  rw [overlaid]
  simp only [List.forall_mem_append, List.forall_mem_map]
  refine and_congr (forall₂_congr hchanged) ?_
  constructor
  · intro h entry hentry hnew hadds
    exact (hadded _ _).mp (h _ ((mem_addedModels hfirst).mpr ⟨entry, hentry, hnew, hadds, rfl⟩))
  · intro h model hmodel
    obtain ⟨entry, hentry, hnew, hadds, rfl⟩ := (mem_addedModels hfirst).mp hmodel
    exact (hadded _ _).mpr (h entry hentry hnew hadds)

theorem overlaid_writable (hembedded : embedded.IsRead) (hdocument : document.IsRead) :
    ∀ model ∈ (overlaid embedded document overrides).models, model.IsWritable := by
  obtain ⟨first, later, hmodels⟩ := List.exists_cons_of_ne_nil hembedded.models_ne
  have hfirst : embedded.models.head? = some first := by rw [hmodels, List.head?_cons]
  have hfirstRead := (hembedded.models_read first (List.mem_of_mem_head? hfirst)).isWritable
  rw [overlaid]
  simp only [List.forall_mem_append, List.forall_mem_map]
  constructor
  · intro model hmodel
    have hwritable := (hdocument.models_read model hmodel).isWritable
    rw [changed]
    split
    · exact isWritable_applyTo hwritable
    · exact hwritable
  · intro model hmodel
    obtain ⟨entry, _, _, _, rfl⟩ := (mem_addedModels hfirst).mp hmodel
    exact isWritable_applyTo ⟨hfirstRead.window_lt, hfirstRead.percent_lt, hfirstRead.priority_lt,
      hfirstRead.extra_keys⟩

end

section
variable {embedded document : CatalogDocument} (overrides : CatalogOverrides)

/-- Overrides leave all but the models, the prices and the revision alone. -/
theorem applyCatalogOverrides_frame :
    let next := applyCatalogOverrides embedded document overrides
    next.schemaVersion = document.schemaVersion ∧ next.issuedAt = document.issuedAt ∧
      next.providerName = document.providerName ∧ next.defaultModel = document.defaultModel ∧
      next.minAppVersion = document.minAppVersion := by
  intro next
  by_cases hempty : overrides.isEmpty = true
  · simp only [next, applyCatalogOverrides, if_pos hempty, and_self]
  · simp only [next, applyCatalogOverrides, if_neg hempty, and_self]

theorem applyCatalogOverrides_writable (hembedded : embedded.IsRead) (hdocument : document.IsRead) :
    IsWritable (applyCatalogOverrides embedded document overrides) := by
  obtain ⟨hschema, hissued, hprovider, hdefault, hversion⟩ :=
    @applyCatalogOverrides_frame embedded document overrides
  have hmodels := @models_applyCatalogOverrides embedded document hdocument.slugs_nodup overrides
  exact {
    schema_eq := hschema ▸ hdocument.schema_eq
    revision_filled := by
      rw [applyCatalogOverrides]
      split_ifs
      · exact hdocument.revision_filled
      · exact hdocument.revision_filled
      · exact filled_append hdocument.revision_filled ⟨by decide +kernel, by decide⟩
    issuedAt_filled := hissued ▸ hdocument.issuedAt_filled
    provider_filled := hprovider ▸ hdocument.provider_filled
    minAppVersion_filled := hversion ▸ hdocument.minAppVersion_filled
    supported := hversion ▸ hdocument.supported
    default_trim := hdefault ▸ hdocument.default_trim
    models_ne := by
      rw [hmodels]
      refine List.append_ne_nil_of_left_ne_nil ?_ _
      exact fun hnil => hdocument.models_ne (List.map_eq_nil_iff.mp hnil)
    slugs_nodup := hmodels ▸ overlaid_slugs_nodup hdocument.slugs_nodup
    models_writable := hmodels ▸ overlaid_writable hembedded hdocument
    pricing_read := by
      by_cases hempty : overrides.isEmpty = true
      · rw [applyCatalogOverrides, if_pos hempty]
        exact hdocument.pricing_read
      · simp only [applyCatalogOverrides, if_neg hempty]
        cases overrides.pricing with
        | none => exact hdocument.pricing_read
        | some value =>
          cases hvalue : withOverrideValue document.pricing value with
          | error message => simpa only [hvalue] using hdocument.pricing_read
          | ok updated => simpa only [hvalue] using withOverrideValue_isRead hdocument.pricing_read hvalue }

end

/-! ## Added models stand for themselves -/

theorem upstreamSlugOrSlug_eq_iff {model : CatalogModel} {slug : Text} :
    model.upstreamSlugOrSlug = slug ↔
      if model.slug = slug then model.declaredUpstream = none ∨ model.declaredUpstream = some slug
      else model.declaredUpstream = some slug := by
  show model.declaredUpstream.getD model.slug = slug ↔ _
  cases model.declaredUpstream with
  | none => simp
  | some upstream => simp

theorem aliases_textsValue (names : List Text) :
    (((some (textsValue names)).bind Value.asArray).map (List.filterMap Value.asStr)).getD [] =
      names := by
  show (names.map Value.string).filterMap Value.asStr = names
  rw [List.filterMap_map]
  exact List.filterMap_some

section
variable (changes : CatalogModelOverride) (first : CatalogModel) (slug : Text)

/-- An added model has the upstream slug of the copied one unless its override sets another. -/
theorem declaredUpstream_added (h : changes.upstreamSlug = none) :
    (applyTo changes (copied first changes slug)).declaredUpstream = first.declaredUpstream := by
  rw [CatalogModel.declaredUpstream, get_applyTo_upstreamSlug, h]
  rfl

theorem aliases_added :
    (applyTo changes (copied first changes slug)).aliases = changes.aliases.getD first.aliases := by
  rw [CatalogModel.aliases, get_applyTo_aliases]
  cases changes.aliases with
  | none => rfl
  | some names => exact aliases_textsValue names

theorem aliasPatterns_added :
    (applyTo changes (copied first changes slug)).aliasPatterns = first.aliasPatterns := by
  rw [CatalogModel.aliasPatterns, get_applyTo_of_notMem changes _ (by decide)]
  rfl

end

theorem modelForRequest_congr_models {first second : CatalogDocument}
    (h : first.models = second.models) : first.modelForRequest = second.modelForRequest := by
  funext requested
  simp only [CatalogDocument.modelForRequest, h]

theorem modelForRequest_mem {document : CatalogDocument} {requested : Text} {model : CatalogModel}
    (h : document.modelForRequest requested = some model) : model ∈ document.models := by
  rw [CatalogDocument.modelForRequest] at h
  split_ifs at h
  rcases Option.or_eq_some_iff.mp h with h | ⟨_, h⟩
  · rcases Option.or_eq_some_iff.mp h with h | ⟨_, h⟩
    · exact List.mem_of_find?_eq_some h
    · exact List.mem_of_find?_eq_some h
  · exact List.mem_of_find?_eq_some h

/-- A model is found under its own slug, itself or another one. -/
theorem modelForRequest_isSome {document : CatalogDocument} {model : CatalogModel}
    (hmem : model ∈ document.models) (htrim : model.slug.trim = model.slug)
    (hne : model.slug ≠ []) : (document.modelForRequest model.slug).isSome := by
  have hfound : (document.models.find? fun other =>
      other.slug.eqIgnoreAsciiCase model.slug).isSome := by
    rw [List.find?_isSome]
    exact ⟨model, hmem, decide_eq_true rfl⟩
  rw [CatalogDocument.modelForRequest, htrim, if_neg hne, Option.isSome_or, Option.isSome_or, hfound]
  rfl

theorem eq_of_slug {models : List CatalogModel} (h : (models.map CatalogModel.slug).Nodup)
    {a b : CatalogModel} (ha : a ∈ models) (hb : b ∈ models) (heq : a.slug = b.slug) : a = b :=
  List.inj_on_of_nodup_map h ha hb heq

/-- The slug of an added model is sent upstream as it stands if the model that is found for it
says so: the copied one by having no other upstream slug, or another model by naming it. -/
theorem resolves_own_iff {document : CatalogDocument} {first added : CatalogModel}
    (hslugs : (document.models.map CatalogModel.slug).Nodup) (hadded : added ∈ document.models)
    (hslug : added.slug.trim ≠ []) (hupstream : added.declaredUpstream = first.declaredUpstream) :
    resolveUpstreamSlug document .default added.slug = added.slug ↔
      ∃ model, document.modelForRequest added.slug = some model ∧
        if model.slug = added.slug then
          first.declaredUpstream = none ∨ first.declaredUpstream = some added.slug
        else model.declaredUpstream = some added.slug := by
  have hsame : ∀ model, document.modelForRequest added.slug = some model →
      (model.upstreamSlugOrSlug = added.slug ↔
        if model.slug = added.slug then
          first.declaredUpstream = none ∨ first.declaredUpstream = some added.slug
        else model.declaredUpstream = some added.slug) := by
    intro model hfound
    rw [upstreamSlugOrSlug_eq_iff]
    split_ifs with heq
    · rw [eq_of_slug hslugs (modelForRequest_mem hfound) hadded heq, hupstream]
    · exact Iff.rfl
  rw [← isSettled_iff]
  constructor
  · intro h
    cases h with
    | blank hname _ => exact absurd hname hslug
    | known model hfound hupstream => exact ⟨model, hfound, (hsame model hfound).mp hupstream⟩
    | unknown hname hfound htrim _ _ =>
      have hsome := modelForRequest_isSome hadded htrim (htrim ▸ hname)
      rw [hfound] at hsome
      exact nomatch hsome
  · rintro ⟨model, hfound, hsent⟩
    exact .known model hfound ((hsame model hfound).mpr hsent)

/-! ## The overridden catalog -/

section
variable (serdeError : Value → Text) (shortest : ℚ → DecimalText) (lines : PromptLines)
  (seed : CatalogSeed) (embedded document : CatalogDocument) (overrides : CatalogOverrides)
  (params : AppServerModelListParams)

/-- What is expected of a catalog with overrides. -/
structure StaysWellFormed : Prop where
  accepted : ∃ reread, fromValue serdeError PricingTable.fromValue
    ((applyCatalogOverrides embedded document overrides).toValue shortest) = .ok reread
  own_slug : ∀ model ∈ (applyCatalogOverrides embedded document overrides).models,
    IsNew document model.slug → ∀ changes ∈ overrides.models.get model.slug,
      changes.upstreamSlug = none →
        resolveUpstreamSlug (applyCatalogOverrides embedded document overrides) .default
          model.slug = model.slug
  own_names : ∀ model ∈ (applyCatalogOverrides embedded document overrides).models,
    IsNew document model.slug → ∀ changes ∈ overrides.models.get model.slug,
      (∀ name ∈ model.aliases, name ∈ changes.aliases.getD []) ∧ model.aliasPatterns = []
  marks : ∀ entry ∈ (appServerModelListForDocument lines seed
      (applyCatalogOverrides embedded document overrides) params).data,
    entry.isDefault = true ↔
      entry.id = (applyCatalogOverrides embedded document overrides).defaultSlug

/-- What the overrides have to be for that. -/
structure OverridesFit : Prop where
  changes : ∀ model ∈ document.models, ∀ changes ∈ overrides.models.get model.slug,
    ValidChanges changes
  additions : ∀ entry ∈ overrides.models.entries, IsNew document entry.1 → Adds entry.2 →
    IsSlug entry.1 ∧ ValidChanges entry.2
  declared : ∃ model ∈ (overlaid embedded document overrides.models).models,
    isDefault model = true ∨ model.slug = document.defaultModel
  own_slug : ∀ entry ∈ overrides.models.entries, IsNew document entry.1 → Adds entry.2 →
    entry.2.upstreamSlug = none → ∃ model,
      (overlaid embedded document overrides.models).modelForRequest entry.1 = some model ∧
        if model.slug = entry.1 then ∀ first ∈ embedded.models.head?,
          first.declaredUpstream = none ∨ first.declaredUpstream = some entry.1
        else model.declaredUpstream = some entry.1
  own_names : ∀ entry ∈ overrides.models.entries, IsNew document entry.1 → Adds entry.2 →
    ∀ first ∈ embedded.models.head?,
      (entry.2.aliases = none → first.aliases = []) ∧ first.aliasPatterns = []
  marks : ∀ model ∈ shownModels lines seed (overlaid embedded document overrides.models).models
      params,
    (AnyFlagged seed (overlaid embedded document overrides.models).models →
      (Flagged seed model ↔
        model.slug = (overlaid embedded document overrides.models).defaultSlug)) ∧
    (¬AnyFlagged seed (overlaid embedded document overrides.models).models →
      (model.slug = modelPro ↔
        model.slug = (overlaid embedded document overrides.models).defaultSlug))

end

section
variable {serdeError : Value → Text} {shortest : ℚ → DecimalText} {lines : PromptLines}
  {seed : CatalogSeed} {embedded document : CatalogDocument} {overrides : CatalogOverrides}
  {params : AppServerModelListParams}

theorem defaultSlug_applyCatalogOverrides (hslugs : (document.models.map CatalogModel.slug).Nodup) :
    (applyCatalogOverrides embedded document overrides).defaultSlug =
      (overlaid embedded document overrides.models).defaultSlug := by
  obtain ⟨_, _, _, hdefault, _⟩ := @applyCatalogOverrides_frame embedded document overrides
  rw [CatalogDocument.defaultSlug, CatalogDocument.defaultSlug,
    models_applyCatalogOverrides hslugs, hdefault]
  rfl

theorem accepted_overrides_iff (hembedded : embedded.IsRead) (hdocument : document.IsRead) :
    (∃ reread, fromValue serdeError PricingTable.fromValue
        ((applyCatalogOverrides embedded document overrides).toValue shortest) = .ok reread) ↔
      (∀ model ∈ document.models, ∀ changes ∈ overrides.models.get model.slug,
        ValidChanges changes) ∧
      (∀ entry ∈ overrides.models.entries, IsNew document entry.1 → Adds entry.2 →
        IsSlug entry.1 ∧ ValidChanges entry.2) ∧
      ∃ model ∈ (overlaid embedded document overrides.models).models,
        isDefault model = true ∨ model.slug = document.defaultModel := by
  obtain ⟨_, _, _, hdefault, _⟩ := @applyCatalogOverrides_frame embedded document overrides
  rw [accepted_iff serdeError shortest (applyCatalogOverrides_writable overrides hembedded hdocument),
    models_applyCatalogOverrides hdocument.slugs_nodup, overlaid_valid_iff hembedded hdocument,
    hdefault, and_assoc]

theorem marks_overrides_iff (hdocument : document.IsRead) :
    (∀ entry ∈ (appServerModelListForDocument lines seed
        (applyCatalogOverrides embedded document overrides) params).data,
      entry.isDefault = true ↔
        entry.id = (applyCatalogOverrides embedded document overrides).defaultSlug) ↔
      ∀ model ∈ shownModels lines seed (overlaid embedded document overrides.models).models params,
        (AnyFlagged seed (overlaid embedded document overrides.models).models →
          (Flagged seed model ↔
            model.slug = (overlaid embedded document overrides.models).defaultSlug)) ∧
        (¬AnyFlagged seed (overlaid embedded document overrides.models).models →
          (model.slug = modelPro ↔
            model.slug = (overlaid embedded document overrides.models).defaultSlug)) := by
  have hmodels := @models_applyCatalogOverrides embedded document hdocument.slugs_nodup overrides
  have hne : (applyCatalogOverrides embedded document overrides).models ≠ [] := by
    rw [hmodels]
    refine List.append_ne_nil_of_left_ne_nil ?_ _
    exact fun hnil => hdocument.models_ne (List.map_eq_nil_iff.mp hnil)
  rw [defaultSlug_applyCatalogOverrides hdocument.slugs_nodup,
    appServerModelList_marks lines seed hne params (fun id mark => mark = true ↔ id = _), hmodels]
  simp only [isDefault_seeded, decide_eq_true_eq]

/-- The models that only the overrides have, override by override. -/
theorem forall_added_iff {first : CatalogModel} (hfirst : embedded.models.head? = some first)
    (P : CatalogModel → CatalogModelOverride → Prop) :
    (∀ model ∈ (overlaid embedded document overrides.models).models, IsNew document model.slug →
        ∀ changes ∈ overrides.models.get model.slug, P model changes) ↔
      ∀ entry ∈ overrides.models.entries, IsNew document entry.1 → Adds entry.2 →
        P (applyTo entry.2 (copied first entry.2 entry.1)) entry.2 := by
  constructor
  · intro h entry hentry hnew hadds
    refine h _ ?_ hnew entry.2 (BTreeMap.get_eq_some.mpr hentry)
    exact List.mem_append_right _ ((mem_addedModels hfirst).mpr ⟨entry, hentry, hnew, hadds, rfl⟩)
  · intro h model hmodel hnew changes hchanges
    rcases List.mem_append.mp hmodel with hold | hadded
    · obtain ⟨old, hmem, rfl⟩ := List.mem_map.mp hold
      exact absurd (changed_slug old ▸ List.mem_map_of_mem hmem) hnew
    · obtain ⟨entry, hentry, hnew, hadds, rfl⟩ := (mem_addedModels hfirst).mp hadded
      obtain rfl : entry.2 = changes :=
        BTreeMap.value_unique hentry (BTreeMap.get_eq_some.mp hchanges)
      exact h entry hentry hnew hadds

theorem resolve_overrides (hslugs : (document.models.map CatalogModel.slug).Nodup)
    (requested : Text) :
    resolveUpstreamSlug (applyCatalogOverrides embedded document overrides) .default requested =
      resolveUpstreamSlug (overlaid embedded document overrides.models) .default requested := by
  rw [resolve_default, resolve_default, defaultSlug_applyCatalogOverrides hslugs,
    modelForRequest_congr_models (models_applyCatalogOverrides hslugs overrides)]

/-- A catalog with overrides is well formed if and only if the overrides fit it: the values that
they write are accepted and leave a default, added models are found under their slugs and take
no names from the model that they are copied from, and the flags agree with the default. -/
theorem staysWellFormed_iff {embeddedValue value : Value}
    (hembedded : fromValue serdeError PricingTable.fromValue embeddedValue = .ok embedded)
    (hdocument : fromValue serdeError PricingTable.fromValue value = .ok document) :
    StaysWellFormed serdeError shortest lines seed embedded document overrides params ↔
      OverridesFit lines seed embedded document overrides params := by
  have hembedded := fromValue_isRead hembedded
  have hdocument := fromValue_isRead hdocument
  have hslugs := hdocument.slugs_nodup
  obtain ⟨first, later, hfirstModels⟩ := List.exists_cons_of_ne_nil hembedded.models_ne
  have hfirst : embedded.models.head? = some first := by rw [hfirstModels, List.head?_cons]
  have hmodels := @models_applyCatalogOverrides embedded document hslugs overrides
  have haccepted := @accepted_overrides_iff serdeError shortest embedded document overrides
    hembedded hdocument
  have hmarks := @marks_overrides_iff lines seed embedded document overrides params hdocument
  have hnames : (∀ model ∈ (applyCatalogOverrides embedded document overrides).models,
      IsNew document model.slug → ∀ changes ∈ overrides.models.get model.slug,
        (∀ name ∈ model.aliases, name ∈ changes.aliases.getD []) ∧ model.aliasPatterns = []) ↔
      ∀ entry ∈ overrides.models.entries, IsNew document entry.1 → Adds entry.2 →
        ∀ first ∈ embedded.models.head?,
          (entry.2.aliases = none → first.aliases = []) ∧ first.aliasPatterns = [] := by
    rw [hmodels, forall_added_iff hfirst fun model changes =>
      (∀ name ∈ model.aliases, name ∈ changes.aliases.getD []) ∧ model.aliasPatterns = [], hfirst]
    refine forall₂_congr fun entry _ => forall₂_congr fun _ _ => ?_
    rw [aliases_added, aliasPatterns_added]
    cases entry.2.aliases with
    | none => simp [List.eq_nil_iff_forall_not_mem]
    | some names => simp
  -- the slugs are compared once the models are known to be accepted
  have hown : (∀ entry ∈ overrides.models.entries, IsNew document entry.1 → Adds entry.2 →
      IsSlug entry.1 ∧ ValidChanges entry.2) →
      ((∀ model ∈ (applyCatalogOverrides embedded document overrides).models,
        IsNew document model.slug → ∀ changes ∈ overrides.models.get model.slug,
          changes.upstreamSlug = none →
            resolveUpstreamSlug (applyCatalogOverrides embedded document overrides) .default
              model.slug = model.slug) ↔
        ∀ entry ∈ overrides.models.entries, IsNew document entry.1 → Adds entry.2 →
          entry.2.upstreamSlug = none → ∃ model,
            (overlaid embedded document overrides.models).modelForRequest entry.1 = some model ∧
              if model.slug = entry.1 then ∀ first ∈ embedded.models.head?,
                first.declaredUpstream = none ∨ first.declaredUpstream = some entry.1
              else model.declaredUpstream = some entry.1) := by
    intro hadditions
    simp only [resolve_overrides hslugs]
    rw [hmodels, forall_added_iff hfirst fun model changes => changes.upstreamSlug = none →
      resolveUpstreamSlug (overlaid embedded document overrides.models) .default model.slug =
        model.slug, hfirst]
    refine forall₂_congr fun entry hentry => forall₂_congr fun hnew hadds =>
      imp_congr_right fun hupstream => ?_
    have hmem : applyTo entry.2 (copied first entry.2 entry.1) ∈
        (overlaid embedded document overrides.models).models :=
      List.mem_append_right _ ((mem_addedModels hfirst).mpr ⟨entry, hentry, hnew, hadds, rfl⟩)
    have hresolve := resolves_own_iff (overlaid_slugs_nodup hslugs) hmem
      (hadditions entry hentry hnew hadds).1.1 (declaredUpstream_added _ first _ hupstream)
    simp only [Option.mem_def, Option.some_inj, forall_eq']
    exact hresolve
  constructor
  · intro h
    obtain ⟨hchanges, hadditions, hdeclared⟩ := haccepted.mp h.accepted
    exact ⟨hchanges, hadditions, hdeclared, (hown hadditions).mp h.own_slug, hnames.mp h.own_names,
      hmarks.mp h.marks⟩
  · intro h
    exact ⟨haccepted.mpr ⟨h.changes, h.additions, h.declared⟩, (hown h.additions).mpr h.own_slug,
      hnames.mpr h.own_names, hmarks.mpr h.marks⟩

end

/-! ## A model of the user's own -/

def noLines : PromptLines := ⟨[], [], [], [], []⟩

def noSeed : CatalogSeed := ⟨.empty, []⟩

/-- The overrides of one slug. -/
def oneOverride (slug : Text) (changes : CatalogModelOverride) : CatalogOverrides where
  models := BTreeMap.empty.insert slug changes

/-- A new description, and a model with names of its own. -/
def ownModel : CatalogOverrides where
  models := (BTreeMap.empty.insert (Text.lit "a")
    ({ description := some "Mine" } : CatalogModelOverride)).insert "mine"
      { displayName := some "Mine", upstreamSlug := some "mine-1", isDefault := some false }

theorem ownModel_wellFormed : StaysWellFormed (fun _ => []) shortestText noLines noSeed
    (markedDocument "a") (markedDocument "a") ownModel {} := by
  have haccepted : fromValue (fun _ => []) PricingTable.fromValue (markedValue "a") =
      .ok (markedDocument "a") := rfl
  refine (staysWellFormed_iff haccepted haccepted).mpr ⟨?_, ?_, ?_, ?_, ?_, ?_⟩
  · intro model hmodel changes hchanges
    obtain rfl := List.mem_singleton.mp hmodel
    obtain rfl := Option.some.inj hchanges
    exact ⟨nofun, nofun, nofun, nofun⟩
  · intro entry hentry hnew _
    obtain rfl | rfl := List.mem_pair.mp hentry
    · exact absurd List.mem_cons_self hnew
    · refine ⟨⟨by decide, by decide⟩, fun name hname => ?_, nofun, nofun, nofun⟩
      obtain rfl := Option.some.inj hname
      decide
  · exact ⟨_, List.mem_cons_self, .inl rfl⟩
  · intro entry hentry hnew _ hupstream
    obtain rfl | rfl := List.mem_pair.mp hentry
    · exact absurd List.mem_cons_self hnew
    · cases hupstream
  · intro entry hentry hnew _ first hfirst
    obtain rfl := Option.some.inj hfirst
    exact ⟨fun _ => rfl, rfl⟩
  · intro model hmodel
    refine ⟨fun _ => ?_, fun hnone => absurd ⟨_, List.mem_cons_self, rfl, rfl⟩ hnone⟩
    obtain rfl | rfl := List.mem_pair.mp hmodel
    · exact iff_of_true rfl rfl
    · exact iff_of_false (fun hflag => nomatch hflag) (by decide)
/-- A model that is only named gets the upstream slug, the names and the flag of the model that
it is copied from; and a window of no tokens is written as it is. -/
theorem addedModel_illFormed :
    resolveUpstreamSlug (applyCatalogOverrides flashDocument flashDocument
        (oneOverride "mine" { displayName := some "Mine" })) .default "mine" =
      "deepseek-v4-flash" ∧
    ((appServerModelListForDocument noLines noSeed (applyCatalogOverrides flashDocument
        flashDocument (oneOverride "mine" { displayName := some "Mine" })) {}).data.map
      fun entry => (entry.id, entry.isDefault)) =
        [(Text.lit "deepseek-flash", true), (Text.lit "mine", true)] ∧
    ¬StaysWellFormed (fun _ => []) shortestText noLines noSeed flashDocument flashDocument
      (oneOverride "mine" { displayName := some "Mine" }) {} ∧
    ¬StaysWellFormed (fun _ => []) shortestText noLines noSeed flashDocument flashDocument
      (oneOverride "deepseek-flash" { contextWindow := some 0 }) {} := by
  have hlist : ((appServerModelListForDocument noLines noSeed (applyCatalogOverrides flashDocument
      flashDocument (oneOverride "mine" { displayName := some (Text.lit "Mine") })) {}).data.map
        fun entry => (entry.id, entry.isDefault)) =
          [(Text.lit "deepseek-flash", true), (Text.lit "mine", true)] := rfl
  refine ⟨rfl, hlist, ?_, ?_⟩
  · intro h
    have hmem : (Text.lit "mine", true) ∈ (appServerModelListForDocument noLines noSeed
        (applyCatalogOverrides flashDocument flashDocument
          (oneOverride "mine" { displayName := some (Text.lit "Mine") })) {}).data.map
            fun entry => (entry.id, entry.isDefault) := by
      exact List.mem_cons_of_mem _ List.mem_cons_self
    obtain ⟨entry, hentry, heq⟩ := List.mem_map.mp hmem
    obtain ⟨hid, hmark⟩ := Prod.mk.inj heq
    have hdefault : Text.lit "mine" = Text.lit "deepseek-flash" :=
      hid.symm.trans ((h.marks entry hentry).mp hmark)
    exact absurd hdefault (by decide)
  · intro h
    obtain ⟨reread, hread⟩ := h.accepted
    have herror : fromValue (fun _ => []) PricingTable.fromValue ((applyCatalogOverrides
        flashDocument flashDocument (oneOverride "deepseek-flash"
          { contextWindow := some 0 })).toValue shortestText) =
            .error ("catalog model deepseek-flash needs a positive context_window" : Text) := rfl
    rw [herror] at hread
    exact nomatch hread

end CodeSeeX.Config
