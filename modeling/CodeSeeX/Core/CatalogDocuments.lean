import CodeSeeX.Core.CatalogMerge
import CodeSeeX.Core.PricingDocuments

/-!
# Catalogs as documents

A catalog is written as the document that it is read from. A model keeps the fields that the
code does not know, also those that a merge takes over from another document, and its document
has them next to the known ones: reader and writer divide the fields in the same way.
-/
namespace CodeSeeX.Catalog
open Checks Pricing List Option BTreeMap

variable {model : CatalogModel} {value : Value} {key text : Text} {models : List CatalogModel}
  {document : CatalogDocument} {base : CatalogDocument}

/-! ## Writing -/

/-- `serde_json::to_value` of an unsigned number. -/
def numberValue (n : ℕ) : Value := .number (.posInt (UInt64.ofNat n))

def optionText : Option Text → Value
  | some text => .string text
  | none => .null

/-- The declared fields of a model. -/
def CatalogModel.fields (model : CatalogModel) : List (Text × Value) :=
  [("slug", .string model.slug),
    ("display_name", .string model.displayName),
    ("description", .string model.description),
    ("context_window", numberValue model.contextWindow),
    ("effective_context_window_percent", numberValue model.effectiveContextWindowPercent),
    ("priority", numberValue model.priority)]

/-- The derived serializer of a model: the fields in their order, then the flattened ones. -/
def CatalogModel.toValue (model : CatalogModel) : Value :=
  .object ((model.fields ++ model.extra.entries).foldl
    (fun fields field => Value.insertField field.1 field.2 fields) [])

section
variable (serdeError : Value → Text) (shortest : ℚ → DecimalText)

def CatalogDocument.toValue (document : CatalogDocument) : Value :=
  .object [("default_model", .string document.defaultModel),
    ("issued_at", optionText document.issuedAt),
    ("min_app_version", optionText document.minAppVersion),
    ("models", .array (document.models.map CatalogModel.toValue)),
    ("pricing", document.pricing.toValue shortest),
    ("provider_name", .string document.providerName),
    ("revision", .string document.revision),
    ("schema_version", numberValue document.schemaVersion)]

/-- The catalogs that are read from documents and merged with each other. -/
inductive CatalogDocument.Produced : CatalogDocument → Prop where
  | fromValue {value : Value} {document : CatalogDocument} :
      Catalog.fromValue serdeError PricingTable.fromValue value = .ok document →
        Produced document
  | merge {base overlay : CatalogDocument} : Produced base → Produced overlay →
      Produced (base.mergeAuthoritative overlay)

end

/-! ## What was read -/

/-- A text that is trimmed and not empty. -/
def Filled (text : Text) : Prop := text.trim = text ∧ text ≠ []

/-- A field with names, if it is there. -/
def AreNames (field : Option Value) : Prop :=
  ∀ value ∈ field, ∃ items, value.asArray = some items ∧ isTextArray items = true

/-- Other fields that the checks accept. -/
structure ValidExtra (field : Text → Option Value) : Prop where
  unprompted : ∀ key ∈ catalogPromptFields, field key = none
  max_context : (field "max_context_window").bind Value.asU64 ≠ some 0
  aliases : AreNames (field "aliases")
  patterns : AreNames (field "alias_patterns")

/-- A model as it is read. -/
structure CatalogModel.IsRead (model : CatalogModel) : Prop where
  valid : validateCatalogModel model = .ok ()
  window_lt : model.contextWindow < 2 ^ 64
  percent_lt : model.effectiveContextWindowPercent < 2 ^ 8
  priority_lt : model.priority < 2 ^ 32
  extra_keys : ∀ e ∈ model.extra.entries, e.1 ∉ modelFields

/-- A model that is read back as it was written, whether or not it passes the checks. -/
structure CatalogModel.IsWritable (model : CatalogModel) : Prop where
  window_lt : model.contextWindow < 2 ^ 64
  percent_lt : model.effectiveContextWindowPercent < 2 ^ 8
  priority_lt : model.priority < 2 ^ 32
  extra_keys : ∀ e ∈ model.extra.entries, e.1 ∉ modelFields

theorem CatalogModel.IsRead.isWritable (h : model.IsRead) :
    model.IsWritable :=
  ⟨h.window_lt, h.percent_lt, h.priority_lt, h.extra_keys⟩

/-- A catalog as it is read. -/
structure CatalogDocument.IsRead (document : CatalogDocument) : Prop where
  schema_eq : document.schemaVersion = supportedCatalogSchemaVersion
  revision_filled : Filled document.revision
  issuedAt_filled : ∀ text ∈ document.issuedAt, Filled text
  provider_filled : Filled document.providerName
  minAppVersion_filled : ∀ text ∈ document.minAppVersion, Filled text
  supported : versionSupported document.minAppVersion = true
  default_trim : document.defaultModel.trim = document.defaultModel
  models_ne : document.models ≠ []
  slugs_nodup : (document.models.map CatalogModel.slug).Nodup
  models_read : ∀ m ∈ document.models, m.IsRead
  default_declared : (document.models.any isDefault ||
    document.models.any (·.slug = document.defaultModel)) = true
  pricing_read : document.pricing.IsRead

/-! ## Checks of a model -/

theorem validateNames_ok {slug key : Text} {field : Option Value} {u : Unit} :
    validateNames slug key field = .ok u ↔ AreNames field := by
  cases field with
  | none => exact ⟨fun _ value h => absurd h (not_mem_none value), fun _ => rfl⟩
  | some value =>
    simp only [validateNames, bind_ok, require_ok, ensure_ok, AreNames, mem_def,
      some_inj, forall_eq']

theorem declaredPromptField_eq_none : declaredPromptField model = none ↔
    ∀ key ∈ catalogPromptFields, model.extra.get key = none := by
  simp only [declaredPromptField, find?_eq_none, not_isSome_iff_eq_none]

/-- The checks of a model look at its own fields and at the other ones. -/
theorem validateCatalogModel_ok : validateCatalogModel model = .ok () ↔
    (model.slug.trim ≠ [] ∧ model.slug.trim.all isSlugChar = true ∧ model.displayName.trim ≠ [] ∧
      model.contextWindow ≠ 0 ∧ 1 ≤ model.effectiveContextWindowPercent ∧
        model.effectiveContextWindowPercent ≤ 100) ∧ ValidExtra model.extra.get := by
  simp only [validateCatalogModel, bind_ok, ensure_ok, decide_eq_true_eq,
    isNone_iff_eq_none, declaredPromptField_eq_none, validateNames_ok]
  constructor
  · rintro ⟨_, hslug, _, hchars, _, hprompt, _, hname, _, hwindow, _, hpercent, _, hmax, _,
      haliases, hpatterns⟩
    exact ⟨⟨hslug, hchars, hname, hwindow, hpercent⟩, ⟨hprompt, hmax, haliases, hpatterns⟩⟩
  · rintro ⟨⟨hslug, hchars, hname, hwindow, hpercent⟩, hextra⟩
    exact ⟨(), hslug, (), hchars, (), hextra.unprompted, (), hname, (), hwindow, (), hpercent, (),
      hextra.max_context, (), hextra.aliases, hextra.patterns⟩

/-- Of two sources of other fields the checks accept every mixture. -/
theorem ValidExtra.or {first second : Text → Option Value} (hfirst : ValidExtra first)
    (hsecond : ValidExtra second) : ValidExtra fun key => (first key).or (second key) := by
  have hchoice : ∀ key, (first key).or (second key) = first key ∨
      (first key).or (second key) = second key := by
    intro key
    cases first key with
    | none => exact .inr rfl
    | some value => exact .inl rfl
  have hkeep : ∀ {P : Option Value → Prop} (key : Text), P (first key) → P (second key) →
      P ((first key).or (second key)) := by
    intro P key hown hother
    rcases hchoice key with h | h
    · rw [h]
      exact hown
    · rw [h]
      exact hother
  exact {
    unprompted := fun key hkey =>
      @hkeep (· = none) key (hfirst.unprompted key hkey) (hsecond.unprompted key hkey)
    max_context := @hkeep (fun field => field.bind Value.asU64 ≠ some 0) _ hfirst.max_context
      hsecond.max_context
    aliases := hkeep _ hfirst.aliases hsecond.aliases
    patterns := hkeep _ hfirst.patterns hsecond.patterns }

/-! ## What reading gives -/

theorem asU64_lt {n : ℕ} (h : value.asU64 = some n) : n < 2 ^ 64 := by
  cases value with
  | number m =>
    cases m with
    | posInt m =>
      obtain rfl := some.inj h
      exact UInt64.toNat_lt m
    | negInt m => cases h
    | float d => cases h
  | null => cases h
  | bool b => cases h
  | string s => cases h
  | array items => cases h
  | object fields => cases h

theorem filled_of_trimmedField (h : trimmedField value key = some text) : Filled text := by
  rw [trimmedField, filter_eq_some_iff, map_eq_some_iff] at h
  obtain ⟨⟨raw, _, rfl⟩, hne⟩ := h
  exact ⟨Text.trim_trim raw, of_decide_eq_true hne⟩

theorem modelFromValue_isRead (h : modelFromValue value = some model)
    (hvalid : validateCatalogModel model = .ok ()) :
    model.IsRead := by
  simp only [modelFromValue, bind_eq_bind, bind_eq_some_iff] at h
  obtain ⟨fields, _, slug, _, name, _, description, _, window, hwindow, percent, hpercent, priority,
    hpriority, heq⟩ := h
  obtain ⟨_, _, hnumber⟩ := hwindow
  obtain rfl := some.inj heq
  exact {
    valid := hvalid
    window_lt := asU64_lt hnumber
    percent_lt := by simpa using (filter_eq_some_iff.mp hpercent).2
    priority_lt := by simpa using (filter_eq_some_iff.mp hpriority).2
    extra_keys := by
      intro e he
      rw [foldl_insert_entries] at he
      rcases mem_insertEntries he with hnew | hold
      · simpa using (mem_filter.mp hnew).2
      · exact absurd hold not_mem_nil }

section
variable {serdeError : Value → Text}

theorem parseModels_isRead {seen : List Text} {values : List Value}
    (h : parseModels serdeError seen values = .ok models) : ∀ m ∈ models, m.IsRead := by
  induction values generalizing seen models with
  | nil =>
    obtain rfl := Except.ok.inj h
    exact fun m hm => absurd hm not_mem_nil
  | cons value values ih =>
    simp only [parseModels, bind_ok, require_ok] at h
    obtain ⟨m, hm, _, hvalid, _, _, later, hlater, heq⟩ := h
    obtain rfl := Except.ok.inj heq
    exact forall_mem_cons.mpr ⟨modelFromValue_isRead hm hvalid, ih hlater⟩

theorem fromValue_isRead (h : fromValue serdeError PricingTable.fromValue value = .ok document) :
    document.IsRead := by
  have haccepted := CatalogDocument.accepted_of_fromValue h
  simp only [fromValue, bind_ok, ensure_ok, require_ok] at h
  obtain ⟨_, _, version, _, _, _, revision, hrevision, _, hsupported, values, _, _, _, models,
    hmodels, _, hdefault, pricing, hpricing, heq⟩ := h
  obtain rfl := Except.ok.inj heq
  exact {
    schema_eq := rfl
    revision_filled := filled_of_trimmedField hrevision
    issuedAt_filled := fun _ htext => filled_of_trimmedField htext
    provider_filled := by
      show Filled ((trimmedField value "provider_name").getD "CodeSeeX")
      cases hname : trimmedField value "provider_name" with
      | none => exact ⟨by decide +kernel, by decide⟩
      | some name => exact filled_of_trimmedField hname
    minAppVersion_filled := fun _ htext => filled_of_trimmedField htext
    supported := hsupported
    default_trim := haccepted.default_trimmed
    models_ne := haccepted.models_ne
    slugs_nodup := haccepted.slugs_nodup
    models_read := parseModels_isRead hmodels
    default_declared := hdefault
    pricing_read := by
      cases hfield : value.get "pricing" with
      | none =>
        rw [hfield] at hpricing
        obtain rfl := Except.ok.inj hpricing
        exact default_produced.isRead
      | some field =>
        rw [hfield] at hpricing
        exact PricingTable.fromValue_isRead hpricing }

end

/-! ## What a merge keeps -/

/-- A model with the fields of another one passes the checks that both have passed. -/
theorem inherit_isRead (hbase : ∀ m ∈ base.models, m.IsRead) {o : CatalogModel} (ho : o.IsRead) :
    (base.inherit o).IsRead := by
  cases hfound : base.model o.slug with
  | none =>
    have hsame : base.inherit o = o := by
      rw [CatalogDocument.inherit, hfound]
    rw [hsame]
    exact ho
  | some b =>
    have hb : b.IsRead := hbase b (CatalogDocument.mem_of_model hfound)
    obtain ⟨hown, hextra⟩ := validateCatalogModel_ok.mp ho.valid
    have hget : (base.inherit o).extra.get = fun key => (o.extra.get key).or (b.extra.get key) := by
      funext key
      rw [CatalogDocument.inherit_get, hfound]
      rfl
    have hvalid : validateCatalogModel (base.inherit o) = .ok () := by
      rw [validateCatalogModel_ok, hget]
      refine ⟨?_, hextra.or (validateCatalogModel_ok.mp hb.valid).2⟩
      rw [CatalogDocument.inherit, hfound]
      exact hown
    have hkeys : ∀ e ∈ (base.inherit o).extra.entries, e.1 ∉ modelFields := by
      intro e he
      have hentry := get_eq_some.mpr he
      rw [hget, or_eq_some_iff] at hentry
      rcases hentry with hfield | ⟨_, hfield⟩
      · exact ho.extra_keys e (get_eq_some.mp hfield)
      · exact hb.extra_keys e (get_eq_some.mp hfield)
    rw [CatalogDocument.inherit, hfound] at hvalid hkeys ⊢
    exact ⟨hvalid, ho.window_lt, ho.percent_lt, ho.priority_lt, hkeys⟩

theorem isBlank_of_filled {text : Text} (h : Filled text) : text.isBlank = false := by
  rw [Text.isBlank, h.1, isEmpty_eq_false_iff]
  exact h.2

/-- A model that is marked as the default stays marked. -/
theorem isDefault_inherit_of {o : CatalogModel} (h : isDefault o = true) :
    isDefault (base.inherit o) = true := by
  have hown : (o.extra.get "is_default").isSome = true := by
    cases hfield : o.extra.get "is_default" with
    | some value => rfl
    | none =>
      rw [CatalogDocument.isDefault_of_missing hfield] at h
      cases h
  rw [CatalogDocument.isDefault_inherit, if_pos hown]
  exact h

theorem merge_isRead {base overlay : CatalogDocument} (hbase : base.IsRead)
    (hoverlay : overlay.IsRead) : (base.mergeAuthoritative overlay).IsRead where
  schema_eq := hoverlay.schema_eq
  revision_filled := hoverlay.revision_filled
  issuedAt_filled text htext := by
    rcases or_eq_some_iff.mp htext with hown | ⟨_, hother⟩
    · exact hoverlay.issuedAt_filled text hown
    · exact hbase.issuedAt_filled text hother
  provider_filled := by
    rw [CatalogDocument.mergeAuthoritative, isBlank_of_filled hoverlay.provider_filled]
    exact hoverlay.provider_filled
  minAppVersion_filled := hoverlay.minAppVersion_filled
  supported := hoverlay.supported
  default_trim := by
    rw [CatalogDocument.mergeAuthoritative]
    dsimp only
    split_ifs
    · exact hbase.default_trim
    · exact hoverlay.default_trim
  models_ne := fun hnil => hoverlay.models_ne (map_eq_nil_iff.mp hnil)
  slugs_nodup := by
    have hslugs : CatalogModel.slug ∘ base.inherit = CatalogModel.slug :=
      funext (CatalogDocument.inherit_slug base)
    show ((overlay.models.map base.inherit).map CatalogModel.slug).Nodup
    rw [List.map_map, hslugs]
    exact hoverlay.slugs_nodup
  models_read m hm := by
    obtain ⟨o, ho, rfl⟩ := mem_map.mp hm
    exact inherit_isRead hbase.models_read (hoverlay.models_read o ho)
  default_declared := by
    have hdeclared := hoverlay.default_declared
    rw [Bool.or_eq_true, List.any_eq_true, List.any_eq_true] at hdeclared ⊢
    rcases hdeclared with ⟨o, ho, hmark⟩ | ⟨o, ho, hslug⟩
    · exact .inl ⟨base.inherit o, mem_map_of_mem ho, isDefault_inherit_of hmark⟩
    · refine .inr ⟨base.inherit o, mem_map_of_mem ho, ?_⟩
      have hname : o.slug = overlay.defaultModel := of_decide_eq_true hslug
      have hfilled : Filled overlay.defaultModel := by
        refine ⟨hoverlay.default_trim, ?_⟩
        rintro hnil
        have hvalid := (validateCatalogModel_ok.mp (hoverlay.models_read o ho).valid).1.1
        rw [hname, hoverlay.default_trim, hnil] at hvalid
        exact hvalid rfl
      rw [CatalogDocument.inherit_slug, CatalogDocument.mergeAuthoritative,
        isBlank_of_filled hfilled]
      exact hslug
  pricing_read := by
    rw [CatalogDocument.mergeAuthoritative]
    dsimp only
    split_ifs
    · exact hbase.pricing_read
    · exact hoverlay.pricing_read

theorem CatalogDocument.Produced.isRead {serdeError : Value → Text}
    (h : document.Produced serdeError) : document.IsRead := by
  induction h with
  | fromValue hread => exact fromValue_isRead hread
  | merge _ _ hbase hoverlay => exact merge_isRead hbase hoverlay

/-! ## The round trip -/

theorem insertField_eq_insertEntry (key : Text) (value : Value) (fields : List (Text × Value)) :
    Value.insertField key value fields = insertEntry key value fields := by
  induction fields with
  | nil => rfl
  | cons field fields ih =>
    obtain ⟨k, v⟩ := field
    rw [Value.insertField, insertEntry, ih]
    by_cases heq : k = key
    · subst heq
      rw [if_pos rfl, if_neg (lt_irrefl k), if_pos rfl]
    · rw [if_neg heq, if_neg (Ne.symm heq)]
      split_ifs <;> rfl

theorem insertFields_eq (new fields : List (Text × Value)) :
    new.foldl (fun fields field => Value.insertField field.1 field.2 fields) fields =
      insertEntries new fields := by
  simp only [insertField_eq_insertEntry, insertEntries]

theorem lookup_insertEntries {new fields : List (Text × Value)} {key : Text}
    (h : ∀ e ∈ new, e.1 ≠ key) :
    (insertEntries new fields).lookup key = fields.lookup key := by
  induction new generalizing fields with
  | nil => rfl
  | cons e new ih =>
    rw [forall_mem_cons] at h
    rw [insertEntries, foldl_cons, ← insertEntries, ih h.2,
      ← insertField_eq_insertEntry, Value.lookup_insertField_ne (Ne.symm h.1)]

/-- The document of a model: the other fields are put between the declared ones. -/
theorem toValue_eq (model : CatalogModel) : model.toValue = .object
    (insertEntries model.extra.entries (insertEntries model.fields [])) := by
  rw [CatalogModel.toValue, insertFields_eq, insertEntries, foldl_append]
  rfl

section
variable {model : CatalogModel} (h : model.IsWritable)
include h

theorem get_toValue {key : Text} (hkey : key ∈ modelFields) : model.toValue.get key =
    (insertEntries model.fields []).lookup key := by
  rw [toValue_eq]
  refine lookup_insertEntries fun e he heq => ?_
  exact h.extra_keys e he (heq ▸ hkey)

/-- The fields that are not declared are the other fields of the model. -/
theorem filter_toValue :
    (insertEntries model.extra.entries (insertEntries model.fields [])).filter
      (fun field => field.1 ∉ modelFields) = model.extra.entries := by
  have hsorted : (insertEntries model.fields []).Pairwise fun a b => a.1 < b.1 := by
    have hmap := foldl_insert_entries model.fields empty
    exact hmap ▸ sorted _
  have hnone : (insertEntries model.fields []).filter
      (fun field => decide (field.1 ∉ modelFields)) = [] := by
    rfl
  have hextra : ∀ e ∈ model.extra.entries, decide (e.1 ∉ modelFields) = true :=
    fun e he => decide_eq_true (h.extra_keys e he)
  rw [@filter_insertEntries _ _ _ (fun key => decide (key ∉ modelFields)) _ _ hextra
    hsorted, hnone]
  exact insertEntries_sorted model.extra.sorted

theorem modelFromValue_toValue : modelFromValue model.toValue = some model := by
  have htext : ∀ key text, key ∈ modelFields →
      (insertEntries model.fields []).lookup key = some (.string text) →
        model.toValue.getStr key = some text := by
    intro key text hkey hlookup
    rw [Value.getStr, get_toValue h hkey, hlookup]
    rfl
  have hnumber : ∀ key n, key ∈ modelFields → n < 2 ^ 64 →
      (insertEntries model.fields []).lookup key = some (numberValue n) →
        (model.toValue.get key).bind Value.asU64 = some n := by
    intro key n hkey hlt hlookup
    rw [get_toValue h hkey, hlookup]
    exact congrArg some (UInt64.toNat_ofNat_of_lt hlt)
  have hpercent := h.percent_lt
  have hpriority := h.priority_lt
  simp only [modelFromValue, bind_eq_bind, bind_eq_some_iff]
  refine ⟨_, by rw [toValue_eq]; rfl, model.slug, htext _ _ (by decide) rfl,
    model.displayName, htext _ _ (by decide) rfl, model.description, htext _ _ (by decide) rfl,
    model.contextWindow, ?_, model.effectiveContextWindowPercent, ?_, model.priority, ?_, ?_⟩
  · exact bind_eq_some_iff.mp (hnumber _ _ (by decide) h.window_lt rfl)
  · rw [hnumber _ model.effectiveContextWindowPercent (by decide) (by omega) rfl]
    exact filter_some_pos (by simpa using hpercent)
  · rw [hnumber _ model.priority (by decide) (by omega) rfl]
    exact filter_some_pos (by simpa using hpriority)
  · refine congrArg some (CatalogModel.ext rfl rfl rfl rfl rfl rfl ?_)
    refine BTreeMap.ext ?_
    rw [foldl_insert_entries, filter_toValue h]
    exact insertEntries_sorted model.extra.sorted

end

section
variable (serdeError : Value → Text) (shortest : ℚ → DecimalText)

theorem parseModels_toValue {seen : List Text} (hread : ∀ m ∈ models, m.IsRead)
    (hnodup : (models.map CatalogModel.slug).Nodup) (hseen : ∀ m ∈ models, m.slug ∉ seen) :
    parseModels serdeError seen (models.map CatalogModel.toValue) = .ok models := by
  induction models generalizing seen with
  | nil => rfl
  | cons m models ih =>
    rw [forall_mem_cons] at hread hseen
    rw [map_cons, nodup_cons] at hnodup
    have hlater : ∀ other ∈ models, other.slug ∉ m.slug :: seen := by
      intro other hother hmem
      rcases mem_cons.mp hmem with heq | hmem
      · exact hnodup.1 (mem_map.mpr ⟨other, hother, heq⟩)
      · exact hseen.2 other hother hmem
    simp only [map_cons, parseModels, bind_ok, require_ok, ensure_ok, decide_eq_true_eq]
    exact ⟨m, modelFromValue_toValue hread.1.isWritable, (), hread.1.valid, (), hseen.1, models,
      ih hread.2 hnodup.2 hlater, rfl⟩

theorem trimmedField_filled (h : value.getStr key = some text) (hfilled : Filled text) :
    trimmedField value key = some text := by
  rw [trimmedField, h, map_some, hfilled.1]
  exact filter_some_pos (decide_eq_true hfilled.2)

theorem trimmedField_optionText {key : Text} {text : Option Text}
    (h : value.get key = some (optionText text)) (hfilled : ∀ t ∈ text, Filled t) :
    trimmedField value key = text := by
  cases text with
  | none =>
    rw [trimmedField, Value.getStr, h]
    rfl
  | some text =>
    refine trimmedField_filled ?_ (hfilled text rfl)
    rw [Value.getStr, h]
    rfl

/-- A default that is not given is written as an empty text. -/
theorem trimmedField_default (h : value.getStr key = some text) (htrim : text.trim = text) :
    (trimmedField value key).getD [] = text := by
  rw [trimmedField, h, map_some, htrim]
  by_cases hnil : text = []
  · rw [hnil]
    rfl
  · have hkept : (some text).filter (fun t => decide (t ≠ [])) = some text :=
      filter_some_pos (decide_eq_true hnil)
    rw [hkept]
    rfl

theorem fromValue_toValue (h : document.IsRead) :
    fromValue serdeError PricingTable.fromValue (document.toValue shortest) = .ok document := by
  have hrevision : trimmedField (document.toValue shortest) "revision" = some document.revision :=
    trimmedField_filled rfl h.revision_filled
  have hprovider : trimmedField (document.toValue shortest) "provider_name" =
      some document.providerName := trimmedField_filled rfl h.provider_filled
  have hissued : trimmedField (document.toValue shortest) "issued_at" = document.issuedAt :=
    trimmedField_optionText rfl h.issuedAt_filled
  have hversion : trimmedField (document.toValue shortest) "min_app_version" =
      document.minAppVersion := trimmedField_optionText rfl h.minAppVersion_filled
  have hdefault : (trimmedField (document.toValue shortest) "default_model").getD [] =
      document.defaultModel := trimmedField_default rfl h.default_trim
  have hmodels : parseModels serdeError [] (document.models.map CatalogModel.toValue) =
      .ok document.models :=
    parseModels_toValue serdeError h.models_read h.slugs_nodup fun _ _ => not_mem_nil
  have hschema : (numberValue document.schemaVersion).asU64 = some 1 := by
    rw [h.schema_eq]
    rfl
  have hnonempty : (!(document.models.map CatalogModel.toValue).isEmpty) = true := by
    simpa using h.models_ne
  simp only [fromValue, bind_ok, ensure_ok, require_ok, decide_eq_true_eq, hrevision, hprovider,
    hissued, hversion, hdefault]
  refine ⟨(), rfl, 1, hschema, (), rfl, _, rfl, (), h.supported, _, rfl, (), hnonempty, _, hmodels,
    (), h.default_declared, _, PricingTable.fromValue_toValue shortest h.pricing_read, ?_⟩
  rw [← h.schema_eq]
  rfl

/-- A catalog that was read from a document, or put together from such catalogs, is written as a
document that is read as this catalog. -/
theorem catalog_roundTrip {document : CatalogDocument} (h : document.Produced serdeError) :
    fromValue serdeError PricingTable.fromValue (document.toValue shortest) = .ok document :=
  fromValue_toValue serdeError shortest h.isRead

end

/-- The fields of two documents in one model. -/
theorem merged_roundTrip : fromValue (fun _ => []) PricingTable.fromValue
    ((aliasDocument.mergeAuthoritative ghostDocument).toValue shortestText) =
      .ok (aliasDocument.mergeAuthoritative ghostDocument) :=
  have hbase : aliasDocument.Produced fun _ => [] :=
    @CatalogDocument.Produced.fromValue _ aliasValue _ rfl
  have hoverlay : ghostDocument.Produced fun _ => [] :=
    @CatalogDocument.Produced.fromValue _ ghostValue _ rfl
  catalog_roundTrip (fun _ => []) shortestText (hbase.merge hoverlay)

end CodeSeeX.Catalog
