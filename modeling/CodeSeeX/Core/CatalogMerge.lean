import CodeSeeX.Core.Catalog

/-!
# What a merge of catalogs keeps

The merge decides models one by one, so what it keeps is said for the model that the lookup
finds. It finds models by their aliases, too, and the mark of a default is a field like others.
-/
namespace CodeSeeX.Catalog
open Checks Pricing List Option

variable {models : List CatalogModel}

namespace CatalogDocument

variable {base overlay document : CatalogDocument} {o : CatalogModel}

section
variable (base : CatalogDocument) (o : CatalogModel)

@[simp] theorem inherit_slug :
    (base.inherit o).slug = o.slug := by
  rw [inherit]
  cases base.model o.slug <;> rfl

/-- A field of a merged model is the model's own, or else the one of the model that is found. -/
theorem inherit_get (key : Text) :
    (base.inherit o).extra.get key =
      (o.extra.get key).or ((base.model o.slug).bind fun b => b.extra.get key) := by
  rw [inherit]
  cases base.model o.slug with
  | none => simp
  | some b => exact BTreeMap.get_foldl_orInsert b.extra.entries o.extra key

theorem isDefault_inherit :
    isDefault (base.inherit o) =
      if (o.extra.get "is_default").isSome then isDefault o
      else ((base.model o.slug).map isDefault).getD false := by
  cases hown : o.extra.get "is_default" with
  | some value => simp [isDefault, inherit_get, hown]
  | none => cases hbase : base.model o.slug <;> simp [isDefault, inherit_get, hown, hbase]

end

/-- What documents that are parsed have in common. -/
structure Accepted (document : CatalogDocument) : Prop where
  slugs_nodup : (document.models.map CatalogModel.slug).Nodup
  models_ne : document.models ≠ []
  default_trimmed : document.defaultModel.trim = document.defaultModel

/-- A merge with a well-formed default. -/
structure MergesWell (base overlay : CatalogDocument) : Prop where
  default_declared : ∃ m ∈ (base.mergeAuthoritative overlay).models,
    m.slug = (base.mergeAuthoritative overlay).defaultSlug
  default_kept : (base.mergeAuthoritative overlay).defaultSlug = overlay.defaultSlug
  marks : ∀ slug, (∃ m ∈ (base.mergeAuthoritative overlay).models, m.slug = slug ∧ isDefault m) ↔
    ∃ m ∈ overlay.models, m.slug = slug ∧ isDefault m
  inherits : ∀ m ∈ (base.mergeAuthoritative overlay).models, ∀ o ∈ overlay.models, o.slug = m.slug →
    ∀ key value, m.extra.get key = some value →
      o.extra.get key = some value ∨
        ∃ b ∈ base.models, b.slug = m.slug ∧ b.extra.get key = some value

/-- Two documents whose defaults, marks and names do not cross. -/
structure Compatible (base overlay : CatalogDocument) : Prop where
  declared : overlay.defaultModel ≠ [] → ∃ m ∈ overlay.models, m.slug = overlay.defaultModel
  unnamed : overlay.defaultModel = [] → base.defaultModel = [] ∨
    base.defaultModel = overlay.defaultSlug
  unmarked : ∀ o ∈ overlay.models, o.extra.get "is_default" = none →
    ∀ b, base.model o.slug = some b → isDefault b = false
  named : ∀ o ∈ overlay.models, ∀ b, base.model o.slug = some b → b.slug ≠ o.slug →
    ∀ key value, b.extra.get key = some value → o.extra.get key = none →
      ∃ c ∈ base.models, c.slug = o.slug ∧ c.extra.get key = some value

/-- A document whose slugs with blanks around them find no fields elsewhere. -/
def SelfCompatible (document : CatalogDocument) : Prop :=
  ∀ m ∈ document.models, m.slug.trim ≠ m.slug → ∀ b, document.model m.slug = some b →
    ∀ key, (b.extra.get key).isSome = true → (m.extra.get key).isSome = true

/-! ## Parsed documents -/

theorem parseModels_slugs {seen : List Text} {values : List Value}
    (h : parseModels serdeError seen values = .ok models) :
    (models.map CatalogModel.slug).Nodup ∧ (∀ m ∈ models, m.slug ∉ seen) ∧
      models.length = values.length := by
  induction values generalizing seen models with
  | nil =>
    cases h
    simp
  | cons value values ih =>
    simp only [parseModels, bind_ok, ensure_ok, decide_eq_true_eq] at h
    obtain ⟨m, _, _, _, _, hseen, later, hlater, heq⟩ := h
    cases heq
    obtain ⟨hnodup, hfresh, hlength⟩ := ih hlater
    refine ⟨?_, ?_, ?_⟩
    · rw [map_cons, nodup_cons]
      refine ⟨?_, hnodup⟩
      intro hmem
      obtain ⟨other, hother, hslug⟩ := mem_map.mp hmem
      exact hfresh other hother (hslug ▸ mem_cons_self)
    · intro other hother
      rcases mem_cons.mp hother with rfl | hother
      · exact hseen
      · intro hmem
        exact hfresh other hother (mem_cons_of_mem _ hmem)
    · rw [length_cons, length_cons, hlength]

theorem trimmedField_trimmed (value : Value) (key : Text) :
    ((trimmedField value key).getD []).trim = (trimmedField value key).getD [] := by
  rw [trimmedField]
  cases value.getStr key with
  | none => rfl
  | some text =>
    rw [map_some, Option.filter]
    split_ifs
    · exact Text.trim_trim text
    · rfl

theorem accepted_of_fromValue {value : Value}
    (h : fromValue serdeError pricingFromValue value = .ok document) : Accepted document := by
  simp only [fromValue, bind_ok, ensure_ok, require_ok] at h
  obtain ⟨_, _, _, _, _, _, _, _, _, _, values, _, _, hvalues, models, hmodels, _, _, _, _, heq⟩ := h
  cases heq
  obtain ⟨hnodup, _, hlength⟩ := parseModels_slugs hmodels
  refine ⟨hnodup, ?_, trimmedField_trimmed value _⟩
  show models ≠ []
  intro hnil
  rw [hnil, length_nil] at hlength
  have hempty : values = [] := eq_nil_of_length_eq_zero hlength.symm
  simp [hempty] at hvalues

theorem Accepted.isBlank_default (h : Accepted document) :
    document.defaultModel.isBlank = true ↔ document.defaultModel = [] := by
  rw [Text.isBlank, h.default_trimmed, List.isEmpty_iff]

theorem Accepted.eq_of_slug (h : Accepted document) {m o : CatalogModel} (hm : m ∈ document.models)
    (ho : o ∈ document.models) (hslug : m.slug = o.slug) : m = o :=
  inj_on_of_nodup_map h.slugs_nodup hm ho hslug

/-! ## Marks and fields -/

theorem mem_of_model {slug : Text} {b : CatalogModel} (h : document.model slug = some b) :
    b ∈ document.models := by
  rw [model, or_eq_some_iff] at h
  rcases h with h | ⟨_, h⟩
  · exact mem_of_find?_eq_some h
  · exact mem_of_find?_eq_some h

theorem isDefault_of_missing (h : o.extra.get "is_default" = none) : isDefault o = false := by
  simp [isDefault, h]

/-- A model keeps its mark unless it has none and the model that is found is marked. -/
theorem keeps_mark_iff (base : CatalogDocument) (o : CatalogModel) :
    isDefault (base.inherit o) = isDefault o ↔
      (o.extra.get "is_default" = none → ∀ b, base.model o.slug = some b → isDefault b = false) := by
  rw [isDefault_inherit]
  cases hown : o.extra.get "is_default" with
  | some value => simp
  | none =>
    rw [isDefault_of_missing hown]
    cases base.model o.slug <;> simp

theorem marks_iff (h : Accepted overlay) :
    (∀ slug, (∃ m ∈ (base.mergeAuthoritative overlay).models, m.slug = slug ∧ isDefault m) ↔
      ∃ m ∈ overlay.models, m.slug = slug ∧ isDefault m) ↔
      ∀ o ∈ overlay.models, isDefault (base.inherit o) = isDefault o := by
  constructor
  · intro hmarks o ho
    rw [Bool.eq_iff_iff]
    constructor
    · intro hmarked
      have hmerged := (hmarks o.slug).mp
        ⟨base.inherit o, mem_map_of_mem ho, inherit_slug base o, hmarked⟩
      obtain ⟨m, hm, hslug, hdefault⟩ := hmerged
      rwa [h.eq_of_slug hm ho hslug] at hdefault
    · intro hmarked
      have hown : (o.extra.get "is_default").isSome = true := by
        by_contra hnone
        rw [not_isSome_iff_eq_none] at hnone
        rw [isDefault_of_missing hnone] at hmarked
        cases hmarked
      rw [isDefault_inherit, if_pos hown]
      exact hmarked
  · intro hkeeps slug
    constructor
    · intro hmerged
      obtain ⟨m, hm, hslug, hdefault⟩ := hmerged
      obtain ⟨o, ho, rfl⟩ := mem_map.mp hm
      rw [inherit_slug] at hslug
      rw [hkeeps o ho] at hdefault
      exact ⟨o, ho, hslug, hdefault⟩
    · intro hoverlay
      obtain ⟨o, ho, hslug, hdefault⟩ := hoverlay
      refine ⟨base.inherit o, mem_map_of_mem ho, ?_, ?_⟩
      · rw [inherit_slug]
        exact hslug
      · rw [hkeeps o ho]
        exact hdefault

theorem inherits_iff (h : Accepted overlay) :
    (∀ m ∈ (base.mergeAuthoritative overlay).models, ∀ o ∈ overlay.models, o.slug = m.slug →
      ∀ key value, m.extra.get key = some value → o.extra.get key = some value ∨
        ∃ b ∈ base.models, b.slug = m.slug ∧ b.extra.get key = some value) ↔
      ∀ o ∈ overlay.models, ∀ b, base.model o.slug = some b → b.slug ≠ o.slug →
        ∀ key value, b.extra.get key = some value → o.extra.get key = none →
          ∃ c ∈ base.models, c.slug = o.slug ∧ c.extra.get key = some value := by
  constructor
  · intro hinherits o ho b hb _ key value hvalue hmissing
    have hmerged : (base.inherit o).extra.get key = some value := by
      rw [inherit_get, hmissing, hb]
      exact hvalue
    have hsource := hinherits (base.inherit o) (mem_map_of_mem ho) o ho
      (inherit_slug base o).symm key value hmerged
    rw [hmissing, inherit_slug] at hsource
    exact hsource.resolve_left (by simp)
  · intro hnamed m hm o ho hslug key value hvalue
    obtain ⟨other, hother, rfl⟩ := mem_map.mp hm
    rw [inherit_slug] at hslug
    have heq := h.eq_of_slug hother ho hslug.symm
    subst heq
    rw [inherit_slug]
    rw [inherit_get] at hvalue
    cases hown : other.extra.get key with
    | some own =>
      rw [hown] at hvalue
      exact Or.inl hvalue
    | none =>
      rw [hown, none_or, bind_eq_some_iff] at hvalue
      obtain ⟨b, hb, hfield⟩ := hvalue
      right
      by_cases hsame : b.slug = other.slug
      · exact ⟨b, mem_of_model hb, hsame, hfield⟩
      · exact hnamed other ho b hb hsame key value hfield hown

/-! ## Defaults -/

/-- The first model that is marked, or else the first one. -/
def firstDefault (models : List CatalogModel) : Option Text :=
  ((models.find? isDefault).or models.head?).map CatalogModel.slug

theorem firstDefault_map {f : CatalogModel → CatalogModel} (hslug : ∀ m, (f m).slug = m.slug)
    (h : ∀ m ∈ models, isDefault (f m) = isDefault m) :
    firstDefault (models.map f) = firstDefault models := by
  have hfind : (models.map f).find? isDefault = (models.find? isDefault).map f := by
    induction models with
    | nil => rfl
    | cons m models ih =>
      obtain ⟨hm, hlater⟩ := forall_mem_cons.mp h
      rw [map_cons, find?_cons, find?_cons, hm, ih hlater]
      cases isDefault m <;> rfl
  have hsame : CatalogModel.slug ∘ f = CatalogModel.slug := funext hslug
  rw [firstDefault, hfind, head?_map, ← map_or, Option.map_map, hsame]
  rfl

theorem firstDefault_mem (h : models ≠ []) :
    ∃ m ∈ models, firstDefault models = some m.slug := by
  rw [firstDefault]
  cases hfind : models.find? isDefault with
  | some m => exact ⟨m, mem_of_find?_eq_some hfind, rfl⟩
  | none =>
    obtain ⟨m, later, rfl⟩ := exists_cons_of_ne_nil h
    exact ⟨m, mem_cons_self, rfl⟩

theorem defaultSlug_eq (document : CatalogDocument) : document.defaultSlug =
    if document.defaultModel.isBlank then (firstDefault document.models).getD modelPro
    else document.defaultModel := rfl

theorem merge_slug_iff {slug : Text} :
    (∃ m ∈ (base.mergeAuthoritative overlay).models, m.slug = slug) ↔
      ∃ m ∈ overlay.models, m.slug = slug := by
  show (∃ m ∈ overlay.models.map base.inherit, m.slug = slug) ↔ _
  simp

/-- If the marks are kept, the default is a model and the one of the overlay exactly if the two
documents name no other. -/
theorem defaults_iff (hbase : Accepted base) (hoverlay : Accepted overlay)
    (hmarks : ∀ o ∈ overlay.models, isDefault (base.inherit o) = isDefault o) :
    ((∃ m ∈ (base.mergeAuthoritative overlay).models,
        m.slug = (base.mergeAuthoritative overlay).defaultSlug) ∧
      (base.mergeAuthoritative overlay).defaultSlug = overlay.defaultSlug) ↔
    (overlay.defaultModel ≠ [] → ∃ m ∈ overlay.models, m.slug = overlay.defaultModel) ∧
      (overlay.defaultModel = [] → base.defaultModel = [] ∨
        base.defaultModel = overlay.defaultSlug) := by
  have hfirst : firstDefault (base.mergeAuthoritative overlay).models =
      firstDefault overlay.models := firstDefault_map (inherit_slug base) hmarks
  obtain ⟨first, hmem, hslug⟩ := firstDefault_mem hoverlay.models_ne
  rw [merge_slug_iff]
  by_cases hnamed : overlay.defaultModel = []
  · have hblank := hoverlay.isBlank_default.mpr hnamed
    have hdefault : overlay.defaultSlug = first.slug := by
      rw [defaultSlug_eq, if_pos hblank, hslug]
      rfl
    have hmodel : (base.mergeAuthoritative overlay).defaultModel = base.defaultModel :=
      if_pos hblank
    by_cases hbasenamed : base.defaultModel = []
    · have hmerged : (base.mergeAuthoritative overlay).defaultSlug = first.slug := by
        rw [defaultSlug_eq, hmodel, if_pos (hbase.isBlank_default.mpr hbasenamed), hfirst, hslug]
        rfl
      rw [hmerged, hdefault]
      simp only [hnamed, hbasenamed, ne_eq, not_true_eq_false, false_implies, true_or, implies_true,
        and_self, and_true, iff_true]
      exact ⟨first, hmem, rfl⟩
    · have hfull : ¬ base.defaultModel.isBlank = true := by
        rw [hbase.isBlank_default]
        exact hbasenamed
      have hmerged : (base.mergeAuthoritative overlay).defaultSlug = base.defaultModel := by
        rw [defaultSlug_eq, hmodel, if_neg hfull]
      rw [hmerged, hdefault]
      simp only [hnamed, hbasenamed, ne_eq, not_true_eq_false, false_implies, true_and, false_or,
        forall_const]
      constructor
      · intro hboth
        exact hboth.2
      · intro heq
        exact ⟨⟨first, hmem, heq.symm⟩, heq⟩
  · have hfull : ¬ overlay.defaultModel.isBlank = true := by
      rw [hoverlay.isBlank_default]
      exact hnamed
    have hmodel : (base.mergeAuthoritative overlay).defaultModel = overlay.defaultModel :=
      if_neg hfull
    have hdefault : overlay.defaultSlug = overlay.defaultModel := by
      rw [defaultSlug_eq, if_neg hfull]
    have hmerged : (base.mergeAuthoritative overlay).defaultSlug = overlay.defaultModel := by
      rw [defaultSlug_eq, hmodel, if_neg hfull]
    rw [hmerged, hdefault]
    simp [hnamed]

/-- A merge is well formed exactly if the two documents are compatible. -/
theorem mergesWell_iff (hbase : Accepted base) (hoverlay : Accepted overlay) :
    MergesWell base overlay ↔ Compatible base overlay := by
  have hkeeps : (∀ o ∈ overlay.models, isDefault (base.inherit o) = isDefault o) ↔
      ∀ o ∈ overlay.models, o.extra.get "is_default" = none →
        ∀ b, base.model o.slug = some b → isDefault b = false :=
    forall₂_congr fun o _ => keeps_mark_iff base o
  constructor
  · intro h
    have hmarks := (marks_iff hoverlay).mp h.marks
    obtain ⟨hdeclared, hunnamed⟩ :=
      (defaults_iff hbase hoverlay hmarks).mp ⟨h.default_declared, h.default_kept⟩
    exact ⟨hdeclared, hunnamed, hkeeps.mp hmarks, (inherits_iff hoverlay).mp h.inherits⟩
  · intro h
    have hmarks := hkeeps.mpr h.unmarked
    obtain ⟨hdeclared, hkept⟩ := (defaults_iff hbase hoverlay hmarks).mpr ⟨h.declared, h.unnamed⟩
    exact ⟨hdeclared, hkept, (marks_iff hoverlay).mpr hmarks, (inherits_iff hoverlay).mpr h.named⟩

/-! ## A document with itself -/

theorem model_self (h : Accepted document) {m : CatalogModel} (hm : m ∈ document.models)
    (htrim : m.slug.trim = m.slug) : document.model m.slug = some m := by
  have hfind : document.models.find? (·.slug = m.slug) = some m := by
    cases hfound : document.models.find? (·.slug = m.slug) with
    | none =>
      have hno := find?_eq_none.mp hfound m hm
      simp at hno
    | some other =>
      have hslug : other.slug = m.slug := by simpa using find?_some hfound
      rw [h.eq_of_slug (mem_of_find?_eq_some hfound) hm hslug]
  rw [model, htrim, hfind]
  rfl

/-- A model inherits nothing exactly if it has all fields of the model that is found. -/
theorem inherit_eq_iff (base : CatalogDocument) (o : CatalogModel) : base.inherit o = o ↔
    ∀ b, base.model o.slug = some b →
      ∀ key, (b.extra.get key).isSome = true → (o.extra.get key).isSome = true := by
  constructor
  · intro heq b hb key hfield
    rw [← heq, inherit_get, hb, isSome_or, bind_some, hfield, Bool.or_true]
  · intro hall
    rw [inherit]
    cases hb : base.model o.slug with
    | none => rfl
    | some b =>
      have hpresent : ∀ e ∈ b.extra.entries, (o.extra.get e.1).isSome = true := by
        intro e he
        apply hall b hb
        rw [BTreeMap.get_eq_some.mpr he]
        rfl
      dsimp only
      rw [BTreeMap.foldl_orInsert_of_present hpresent]

theorem merge_self_iff (h : Accepted document) :
    document.mergeAuthoritative document = document ↔ SelfCompatible document := by
  have hmodels : document.mergeAuthoritative document = document ↔
      document.models.map document.inherit = document.models := by
    constructor
    · intro heq
      exact congrArg CatalogDocument.models heq
    · intro heq
      rw [mergeAuthoritative, heq, Option.or_self, ite_self, ite_self, ite_self]
  have hall : document.models.map document.inherit = document.models ↔
      ∀ m ∈ document.models, document.inherit m = m := by
    constructor
    · intro heq m hm
      exact map_inj_left.mp (heq.trans (map_id _).symm) m hm
    · intro heq
      exact (map_congr_left heq).trans (map_id _)
  rw [hmodels, hall]
  constructor
  · intro heq m hm _
    exact (inherit_eq_iff document m).mp (heq m hm)
  · intro hself m hm
    rw [inherit_eq_iff]
    by_cases htrim : m.slug.trim = m.slug
    · intro b hb key hfield
      rw [model_self h hm htrim, some_inj] at hb
      rw [hb]
      exact hfield
    · exact hself m hm htrim

end CatalogDocument

open CatalogDocument

/-- Which parsed documents merge well, and which merge with themselves to themselves. -/
theorem merge_parsed_iff (serdeError : Value → Text)
    (pricingFromValue : Value → Except Text PricingTable) {baseValue overlayValue : Value}
    {base overlay : CatalogDocument}
    (hbase : fromValue serdeError pricingFromValue baseValue = .ok base)
    (hoverlay : fromValue serdeError pricingFromValue overlayValue = .ok overlay) :
    (MergesWell base overlay ↔ Compatible base overlay) ∧
      (overlay.mergeAuthoritative overlay = overlay ↔ SelfCompatible overlay) :=
  ⟨mergesWell_iff (accepted_of_fromValue hbase) (accepted_of_fromValue hoverlay),
    merge_self_iff (accepted_of_fromValue hoverlay)⟩

/-- A document with one model, which is marked, and a name for its default. -/
def markedValue (defaultModel : Text) : Value :=
  .object [
    ("default_model", .string defaultModel),
    ("models", .array [.object [
      ("context_window", .number (.posInt 1000)),
      ("description", .string ""),
      ("display_name", .string "A"),
      ("effective_context_window_percent", .number (.posInt 95)),
      ("is_default", .bool true),
      ("priority", .number (.posInt 1)),
      ("slug", .string "a")]]),
    ("revision", .string "1"),
    ("schema_version", .number (.posInt 1))]

def markedDocument (defaultModel : Text) : CatalogDocument where
  schemaVersion := 1
  revision := "1"
  issuedAt := none
  providerName := "CodeSeeX"
  defaultModel := defaultModel
  minAppVersion := none
  models := [{
    slug := "a"
    displayName := "A"
    description := []
    contextWindow := 1000
    effectiveContextWindowPercent := 95
    priority := 1
    extra := BTreeMap.empty.insert "is_default" (.bool true) }]
  pricing := PricingTable.default

/-- The name of another model as the default. -/
def ghostValue : Value := markedValue "ghost"

def ghostDocument : CatalogDocument := markedDocument "ghost"

theorem ghostValue_parsed : fromValue (fun _ => []) (fun _ => .ok PricingTable.default) ghostValue =
    .ok ghostDocument := by
  rfl

theorem ghost_default : fromValue (fun _ => []) (fun _ => .ok PricingTable.default) ghostValue =
    .ok ghostDocument ∧ ¬ MergesWell ghostDocument ghostDocument := by
  refine ⟨ghostValue_parsed, ?_⟩
  intro h
  obtain ⟨m, hm, hslug⟩ := h.default_declared
  have hone : m.slug = Text.lit "a" := by
    obtain ⟨o, ho, rfl⟩ := mem_map.mp hm
    rw [inherit_slug, mem_singleton.mp ho]
  have hghost : (ghostDocument.mergeAuthoritative ghostDocument).defaultSlug = Text.lit "ghost" := by
    rfl
  rw [hone, hghost] at hslug
  simp at hslug

/-- A document whose model has an alias and a field that the code does not know. -/
def aliasValue : Value :=
  .object [
    ("issued_at", .string " 2026-09-10 "),
    ("models", .array [.object [
      ("aliases", .array [.string "b"]),
      ("context_window", .number (.posInt 500)),
      ("description", .string ""),
      ("display_name", .string "Old"),
      ("effective_context_window_percent", .number (.posInt 90)),
      ("is_default", .bool true),
      ("priority", .number (.posInt 2)),
      ("slug", .string "a"),
      ("unknown", .null)]]),
    ("revision", .string "0"),
    ("schema_version", .number (.posInt 1))]

def aliasDocument : CatalogDocument where
  schemaVersion := 1
  revision := "0"
  issuedAt := some "2026-09-10"
  providerName := "CodeSeeX"
  defaultModel := []
  minAppVersion := none
  models := [{
    slug := "a"
    displayName := "Old"
    description := []
    contextWindow := 500
    effectiveContextWindowPercent := 90
    priority := 2
    extra := ([("aliases", .array [.string "b"]), ("is_default", .bool true), ("unknown", .null)] :
      List (Text × Value)).foldl (fun extra field => extra.insert field.1 field.2) .empty }]
  pricing := PricingTable.default

/-- A marked model takes over the fields that the other document has for it. -/
theorem merge_parsed_aliased : MergesWell aliasDocument (markedDocument "a") ∧
    (aliasDocument.mergeAuthoritative (markedDocument "a")).models.map (·.extra.get "aliases") =
      [some (.array [.string "b"])] ∧
    (markedDocument "a").mergeAuthoritative (markedDocument "a") = markedDocument "a" := by
  have halias : fromValue (fun _ => []) (fun _ => .ok PricingTable.default) aliasValue =
      .ok aliasDocument := rfl
  have hmarked : fromValue (fun _ => []) (fun _ => .ok PricingTable.default) (markedValue "a") =
      .ok (markedDocument "a") := rfl
  have h := merge_parsed_iff (fun _ => []) (fun _ => .ok PricingTable.default) halias hmarked
  refine ⟨h.1.mpr ⟨fun _ => ⟨_, mem_cons_self, rfl⟩, nofun, ?_, ?_⟩, rfl, h.2.mpr ?_⟩
  · intro o ho hnone
    obtain rfl := mem_singleton.mp ho
    cases hnone
  · intro o ho b hb hne
    obtain rfl := mem_singleton.mp ho
    obtain rfl := some.inj hb
    exact absurd rfl hne
  · intro m hm htrim
    obtain rfl := mem_singleton.mp hm
    exact absurd (by decide) htrim

end CodeSeeX.Catalog
