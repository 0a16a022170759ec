import CodeSeeX.Core.PricingDocuments

/-!
# Overrides applied twice

The overrides of the user are laid over the catalog each time it is built. Laid over a catalog
that has them already they change nothing: what an override writes does not depend on the
document, and a model that one adds is found under its slug the next time.
-/
namespace CodeSeeX.Config
open Catalog Pricing Checks Option List

variable {models : List CatalogModel}

/-! ## Prices -/

theorem getD_getD {α : Type} (new : Option α) (old : α) :
    new.getD (new.getD old) = new.getD old := by
  cases new <;> rfl

theorem overrideText_again (value : Value) (key current : Text) :
    overrideText value key (overrideText value key current) = overrideText value key current :=
  getD_getD ..

section
variable {value : Value} {rule next : PeakValley}

/-- What an accepted override writes into a rule is read off the override alone. -/
theorem overrideMultiplier_writes
    (h : overrideMultiplier value rule = .ok next) : ∃ multiplier : Option ℚ, ∀ rule,
      overrideMultiplier value rule =
        .ok { rule with multiplier := multiplier.getD rule.multiplier } := by
  simp only [overrideMultiplier] at h ⊢
  cases hfield : (value.get "peak_multiplier").bind asF64 with
  | none => exact ⟨none, fun _ => rfl⟩
  | some multiplier =>
    simp only [hfield] at h
    split_ifs at h with hrange
    exact ⟨some multiplier, fun _ => if_neg hrange⟩

theorem overrideTimezone_writes
    (h : overrideTimezone value rule = .ok next) : ∃ zone : Option (ℤ × Text), ∀ rule,
      overrideTimezone value rule =
        .ok { rule with
          utcOffsetMinutes := (zone.map Prod.fst).getD rule.utcOffsetMinutes
          timezone := (zone.map Prod.snd).getD rule.timezone } := by
  simp only [overrideTimezone] at h ⊢
  cases hfield : value.getStr "timezone" with
  | none => exact ⟨none, fun _ => rfl⟩
  | some timezone =>
    simp only [hfield, bind_ok, require_ok] at h ⊢
    obtain ⟨offset, hoffset, _⟩ := h
    exact ⟨some (offset, timezone.trim), fun _ => ⟨offset, hoffset, rfl⟩⟩

theorem overrideWindows_writes
    (h : overrideWindows value rule = .ok next) : ∃ windows : Option (List PeakWindow), ∀ rule,
      overrideWindows value rule = .ok { rule with windows := windows.getD rule.windows } := by
  simp only [overrideWindows] at h ⊢
  cases hfield : value.get "peak_windows" with
  | none => exact ⟨none, fun _ => rfl⟩
  | some windows =>
    simp only [hfield, bind_ok, require_ok, ensure_ok] at h ⊢
    obtain ⟨items, hitems, parsed, hparsed, u, hstart, _⟩ := h
    exact ⟨some parsed, fun _ => ⟨items, hitems, parsed, hparsed, u, hstart, rfl⟩⟩

end

theorem overrideRates_writes {value : Value} {key label : Text}
    {rates next : List (Text × ModelRates)} (h : overrideRates value key label rates = .ok next) :
    ∃ entries : List (Text × ModelRates), (entries.map Prod.fst).Nodup ∧
      ∀ rates, overrideRates value key label rates = .ok (insertAll entries rates) := by
  simp only [overrideRates] at h ⊢
  cases hfield : value.get key with
  | none => exact ⟨[], nodup_nil, fun _ => rfl⟩
  | some field =>
    simp only [hfield, bind_ok] at h ⊢
    obtain ⟨entries, hparsed, _⟩ := h
    have hkeys : (entries.map Prod.fst).Nodup :=
      pairwise_map.mpr ((parseRateMap_isRead hparsed).sorted.imp ne_of_lt)
    exact ⟨entries, hkeys, fun _ => ⟨entries, hparsed, rfl⟩⟩

theorem insertAll_again {entries : List (Text × ModelRates)} (h : (entries.map Prod.fst).Nodup)
    (rates : List (Text × ModelRates)) :
    insertAll entries (insertAll entries rates) = insertAll entries rates :=
  BTreeMap.insertEntries_idem h rates

theorem withOverrideValue_again {value : Value} {table next : PricingTable}
    (h : withOverrideValue table value = .ok next) : withOverrideValue next value = .ok next := by
  simp only [withOverrideValue, bind_ok] at h
  obtain ⟨fields, hfields, first, hfirst, second, hsecond, third, hthird, rates, hrates, groups,
    hgroups, heq⟩ := h
  obtain ⟨multiplier, hmultiplier⟩ := overrideMultiplier_writes hfirst
  obtain ⟨zone, hzone⟩ := overrideTimezone_writes hsecond
  obtain ⟨windows, hwindows⟩ := overrideWindows_writes hthird
  obtain ⟨newRates, hnewRates, hallRates⟩ := overrideRates_writes hrates
  obtain ⟨newGroups, hnewGroups, hallGroups⟩ := overrideRates_writes hgroups
  obtain rfl := Except.ok.inj ((hmultiplier _).symm.trans hfirst)
  obtain rfl := Except.ok.inj ((hzone _).symm.trans hsecond)
  obtain rfl := Except.ok.inj ((hwindows _).symm.trans hthird)
  obtain rfl := Except.ok.inj ((hallRates _).symm.trans hrates)
  obtain rfl := Except.ok.inj ((hallGroups _).symm.trans hgroups)
  obtain rfl := Except.ok.inj heq
  simp only [withOverrideValue, bind_ok]
  refine ⟨fields, hfields, _, hmultiplier _, _, hzone _, _, hwindows _, _, hallRates _, _,
    hallGroups _, ?_⟩
  simp only [overrideText_again, insertAll_again hnewRates, insertAll_again hnewGroups, getD_getD]
  rfl

/-! ## Models -/

def extraField {α : Type} (toValue : α → Value) (key : Text) (value : Option α) :
    List (Text × Value) :=
  (value.map fun v => (key, toValue v)).toList

section
variable {α : Type} (toValue : α → Value) (key : Text) (value : Option α)

theorem extraField_keys :
    ((extraField toValue key value).map Prod.fst).Sublist [key] := by
  cases value with
  | none => exact nil_sublist _
  | some v => exact Sublist.refl _

theorem insertExtra_entries
    (extra : BTreeMap Text Value) : (insertExtra toValue key value extra).entries =
      BTreeMap.insertEntries (extraField toValue key value) extra.entries := by
  cases value <;> rfl

end

/-- What an override writes into the other fields of a model, in the order of the source. -/
def overrideFields (changes : CatalogModelOverride) : List (Text × Value) :=
  extraField .string "short_display_name" changes.shortDisplayName ++
    (extraField .string "upstream_slug" changes.upstreamSlug ++
      (extraField .string "pricing_group" changes.pricingGroup ++
        (extraField textsValue "aliases" changes.aliases ++
          (extraField .bool "is_default" changes.isDefault ++
            extraField .bool "hidden" changes.hidden))))

theorem overrideFields_keys (changes : CatalogModelOverride) :
    ((overrideFields changes).map Prod.fst).Nodup := by
  have hsub : ((overrideFields changes).map Prod.fst).Sublist
      ["short_display_name", "upstream_slug", "pricing_group", "aliases", "is_default",
        "hidden"] := by
    simp only [overrideFields, map_append]
    exact (extraField_keys ..).append ((extraField_keys ..).append ((extraField_keys ..).append
      ((extraField_keys ..).append ((extraField_keys ..).append (extraField_keys ..)))))
  exact hsub.nodup (by decide)

theorem insertEntries_append (first second entries : List (Text × Value)) :
    BTreeMap.insertEntries (first ++ second) entries =
      BTreeMap.insertEntries second (BTreeMap.insertEntries first entries) :=
  foldl_append

section
variable (changes : CatalogModelOverride) (model : CatalogModel)

theorem applyTo_entries :
    (applyTo changes model).extra.entries =
      BTreeMap.insertEntries (overrideFields changes) model.extra.entries := by
  simp only [applyTo, overrideFields, insertEntries_append, insertExtra_entries]

theorem applyTo_again :
    applyTo changes (applyTo changes model) = applyTo changes model := by
  have hextra :
      (applyTo changes (applyTo changes model)).extra = (applyTo changes model).extra := by
    ext1
    rw [applyTo_entries, applyTo_entries]
    exact BTreeMap.insertEntries_idem (overrideFields_keys changes) _
  exact CatalogModel.ext rfl (getD_getD ..) (getD_getD ..) (getD_getD ..) (getD_getD ..) rfl hextra

@[simp] theorem applyTo_slug :
    (applyTo changes model).slug = model.slug := rfl

end

section Models
variable {slug : Text} {f : CatalogModel → CatalogModel}

theorem find?_updateFirst_self (hslug : ∀ model, (f model).slug = model.slug)
    (models : List CatalogModel) :
    (updateFirst slug f models).find? (·.slug = slug) = (models.find? (·.slug = slug)).map f := by
  induction models with
  | nil => rfl
  | cons model models ih =>
    rw [updateFirst]
    split_ifs with heq
    · simp [hslug, heq]
    · simp [heq, ih]

theorem find?_updateFirst_ne (hslug : ∀ model, (f model).slug = model.slug) {other : Text}
    (hne : other ≠ slug) (models : List CatalogModel) :
    (updateFirst slug f models).find? (·.slug = other) = models.find? (·.slug = other) := by
  induction models with
  | nil => rfl
  | cons model models ih =>
    rw [updateFirst]
    split_ifs with heq
    · simp [hslug, heq, hne.symm]
    · simp [find?_cons, ih]

theorem updateFirst_of_fixed (h : ∀ model ∈ models.find? (·.slug = slug), f model = model) :
    updateFirst slug f models = models := by
  induction models with
  | nil => rfl
  | cons model models ih =>
    rw [updateFirst]
    split_ifs with heq
    · rw [h model (by simp [heq])]
    · rw [ih (by simpa [heq] using h)]

end Models

/-- The override of a slug has nothing left to do. -/
def Overridden (embedded : CatalogDocument) (models : List CatalogModel)
    (entry : Text × CatalogModelOverride) : Prop :=
  (∀ model ∈ models.find? (·.slug = entry.1), applyTo entry.2 model = model) ∧
    (models.find? (·.slug = entry.1) = none → toCatalogModel embedded entry.2 entry.1 = none)

section Overrides
variable {embedded : CatalogDocument}

/-- An added model has the slug of its override, and the changes are in it. -/
theorem toCatalogModel_eq {changes : CatalogModelOverride} {slug : Text} {model : CatalogModel}
    (h : toCatalogModel embedded changes slug = some model) :
    model.slug = slug ∧ applyTo changes model = model := by
  rw [toCatalogModel] at h
  split_ifs at h
  obtain rfl := some.inj h
  exact ⟨rfl, applyTo_again _ _⟩

theorem Overridden.idle {entry : Text × CatalogModelOverride}
    (h : Overridden embedded models entry) : overrideModel embedded models entry = models := by
  rw [overrideModel, ← isSome_find?]
  split_ifs with hfound
  · exact updateFirst_of_fixed h.1
  · rw [h.2 (by simpa using hfound)]
    exact append_nil models

theorem overridden_overrideModel (models : List CatalogModel)
    (entry : Text × CatalogModelOverride) :
    Overridden embedded (overrideModel embedded models entry) entry := by
  rw [overrideModel, ← isSome_find?]
  split_ifs with hfound
  · obtain ⟨model, hmodel⟩ := isSome_iff_exists.mp hfound
    rw [Overridden, find?_updateFirst_self (applyTo_slug entry.2), hmodel]
    refine ⟨fun found hmem => ?_, fun hnone => absurd hnone (some_ne_none _)⟩
    obtain rfl := some.inj hmem
    exact applyTo_again _ _
  · have hnone : models.find? (·.slug = entry.1) = none := by simpa using hfound
    rw [Overridden, find?_append, hnone, none_or]
    cases hmodel : toCatalogModel embedded entry.2 entry.1 with
    | none => exact ⟨fun model hmem => absurd hmem (not_mem_none _), fun _ => rfl⟩
    | some model =>
      obtain ⟨hslug, hfixed⟩ := toCatalogModel_eq hmodel
      simp [hslug, hfixed]

/-- Overrides of other slugs leave the model under a slug alone. -/
theorem Overridden.overrideModel {entry other : Text × CatalogModelOverride}
    (hne : entry.1 ≠ other.1) (h : Overridden embedded models entry) :
    Overridden embedded (overrideModel embedded models other) entry := by
  have hfind : (Config.overrideModel embedded models other).find? (·.slug = entry.1) =
      models.find? (·.slug = entry.1) := by
    rw [Config.overrideModel]
    split_ifs
    · exact find?_updateFirst_ne (applyTo_slug other.2) hne models
    · rw [find?_append]
      cases hmodel : toCatalogModel embedded other.2 other.1 with
      | none => exact or_none
      | some model => simp [(toCatalogModel_eq hmodel).1, hne.symm]
  rw [Overridden, hfind]
  exact h

end Overrides

/-! ## Documents -/

theorem endsWith_append (front back : Text) : Text.endsWith (front ++ back) back = true :=
  decide_eq_true (suffix_append front back)

/-- Overrides that are laid over an overridden document change nothing. -/
theorem applyCatalogOverrides_again (embedded document : CatalogDocument)
    (overrides : CatalogOverrides) :
    applyCatalogOverrides embedded (applyCatalogOverrides embedded document overrides) overrides =
      applyCatalogOverrides embedded document overrides := by
  by_cases hempty : overrides.isEmpty = true
  · simp only [applyCatalogOverrides, if_pos hempty]
  · have hmodels : overrides.models.entries.foldl (overrideModel embedded)
        (overrides.models.entries.foldl (overrideModel embedded) document.models) =
          overrides.models.entries.foldl (overrideModel embedded) document.models :=
      @Replay.foldl_twice _ _ (overrideModel embedded) (Overridden embedded) (·.1 ≠ ·.1)
        (fun _ _ _ hne h => h.overrideModel hne) overridden_overrideModel (fun _ _ h => h.idle) _
        (overrides.models.sorted.imp ne_of_lt) document.models
    have hpricing : (applyCatalogOverrides embedded
        (applyCatalogOverrides embedded document overrides) overrides).pricing =
          (applyCatalogOverrides embedded document overrides).pricing := by
      simp only [applyCatalogOverrides, if_neg hempty]
      cases overrides.pricing with
      | none => rfl
      | some value =>
        cases hvalue : withOverrideValue document.pricing value with
        | ok updated => simp only [hvalue, withOverrideValue_again hvalue]
        | error message => simp only [hvalue]
    have hrevision : (applyCatalogOverrides embedded
        (applyCatalogOverrides embedded document overrides) overrides).revision =
          (applyCatalogOverrides embedded document overrides).revision := by
      simp only [applyCatalogOverrides, if_neg hempty]
      refine if_pos ?_
      split_ifs with hends
      · exact hends
      · exact endsWith_append ..
    simp only [applyCatalogOverrides, if_neg hempty] at hpricing hrevision ⊢
    rw [hmodels, hpricing, hrevision]

end CodeSeeX.Config
