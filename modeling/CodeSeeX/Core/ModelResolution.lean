import CodeSeeX.Core.CatalogDocuments

/-!
# The model that is sent upstream

A request names a model by its slug, an alias or a pattern; the catalog says under which slug it
is sent upstream. The name is resolved once for the records and once more for the payload, so a
slug that was resolved should resolve to itself.
-/
namespace CodeSeeX.Catalog
open Config (UpstreamModelOverride modelFlash)
open Pricing (PricingTable)

/-! ## Lookup -/

namespace CatalogModel

def aliasPatterns (model : CatalogModel) : List Text :=
  (((model.extra.get "alias_patterns").bind Value.asArray).map
    (List.filterMap Value.asStr)).getD []

def upstreamSlugOrSlug (model : CatalogModel) : Text :=
  ((((model.extra.get "upstream_slug").bind Value.asStr).map Text.trim).filter (· ≠ [])).getD
    model.slug

end CatalogModel

/-- A wildcard stands at the end of a pattern or, where it does not, in front. -/
def aliasPatternMatches (pattern value : Text) : Bool :=
  let pattern := pattern.trim.toAsciiLowercase
  let value := value.trim.toAsciiLowercase
  if pattern = [] then false
  else if pattern.getLast? = some '*' then value.startsWith pattern.dropLast
  else if pattern.head? = some '*' then value.endsWith pattern.tail
  else pattern = value

namespace CatalogDocument

def modelForRequest (document : CatalogDocument) (requested : Text) : Option CatalogModel :=
  let requested := requested.trim
  if requested = [] then none
  else ((document.models.find? fun model => model.slug.eqIgnoreAsciiCase requested).or
    (document.models.find? (hasAlias · requested))).or
    (document.models.find? fun model => model.aliasPatterns.any (aliasPatternMatches · requested))

end CatalogDocument

def isCodexNativeGptModel (value : Text) : Bool :=
  value = "gpt-5" || value.startsWith "gpt-5." || value.startsWith "gpt-5-"

def defaultUpstreamSlug (requested : Text) : Text :=
  let requested := requested.trim
  let normalized := requested.toAsciiLowercase
  if normalized = [] then modelPro
  else if normalized = modelFlash then modelFlash
  else if normalized = modelPro then modelPro
  else if isCodexNativeGptModel normalized then modelPro
  else requested

end CodeSeeX.Catalog

namespace CodeSeeX.Config.UpstreamModelOverride
open Catalog (modelPro defaultUpstreamSlug)

def pinnedSlug : UpstreamModelOverride → Option Text
  | default => none
  | flash => some modelFlash
  | pro => some modelPro
  | custom slug _ => some slug

def upstreamSlug (modelOverride : UpstreamModelOverride) (requested : Text) : Text :=
  modelOverride.pinnedSlug.getD (defaultUpstreamSlug requested)

theorem pinnedSlug_eq_none_iff {modelOverride : UpstreamModelOverride} :
    modelOverride.pinnedSlug = none ↔ modelOverride = default := by
  cases modelOverride <;> simp [pinnedSlug]

end CodeSeeX.Config.UpstreamModelOverride

namespace CodeSeeX.Catalog
open Config (UpstreamModelOverride modelFlash)
open Pricing (PricingTable)

/-- `document` is the catalog of the configuration. -/
def resolveUpstreamSlug (document : CatalogDocument) (modelOverride : UpstreamModelOverride)
    (requested : Text) : Text :=
  let requested := (modelOverride.pinnedSlug.getD requested).trim
  if requested = [] then document.defaultSlug
  else
    match document.modelForRequest requested with
    | some model => model.upstreamSlugOrSlug
    | none => modelOverride.upstreamSlug requested

/-! ## A lookup reads a name up to blanks and case -/

theorem hasAlias_congr {s t : Text} (h : s.toAsciiLowercase = t.toAsciiLowercase)
    (model : CatalogModel) : hasAlias model s = hasAlias model t := by
  have heq : ∀ name : Text, name.eqIgnoreAsciiCase s = name.eqIgnoreAsciiCase t := by
    intro name
    rw [Text.eqIgnoreAsciiCase, Text.eqIgnoreAsciiCase, h]
  simp only [hasAlias, heq]

theorem aliasPatternMatches_congr {s t : Text}
    (h : s.trim.toAsciiLowercase = t.trim.toAsciiLowercase) (pattern : Text) :
    aliasPatternMatches pattern s = aliasPatternMatches pattern t := by
  simp only [aliasPatternMatches, h]

theorem toAsciiLowercase_eq_nil {t : Text} : t.toAsciiLowercase = [] ↔ t = [] :=
  List.map_eq_nil_iff

theorem modelForRequest_congr (document : CatalogDocument) {s t : Text}
    (h : s.trim.toAsciiLowercase = t.trim.toAsciiLowercase) :
    document.modelForRequest s = document.modelForRequest t := by
  have hnil : s.trim = [] ↔ t.trim = [] := by
    rw [← toAsciiLowercase_eq_nil, h, toAsciiLowercase_eq_nil]
  have hslug : ∀ slug : Text, slug.eqIgnoreAsciiCase s.trim = slug.eqIgnoreAsciiCase t.trim := by
    intro slug
    rw [Text.eqIgnoreAsciiCase, Text.eqIgnoreAsciiCase, h]
  have hpattern : ∀ pattern : Text,
      aliasPatternMatches pattern s.trim = aliasPatternMatches pattern t.trim := by
    refine aliasPatternMatches_congr ?_
    rw [Text.trim_trim, Text.trim_trim, h]
  simp only [CatalogDocument.modelForRequest, hnil, hslug, hasAlias_congr h, hpattern]

@[simp] theorem modelForRequest_trim (document : CatalogDocument) (t : Text) :
    document.modelForRequest t.trim = document.modelForRequest t := by
  refine modelForRequest_congr document ?_
  rw [Text.trim_trim]

theorem modelForRequest_blank (document : CatalogDocument) {t : Text} (h : t.trim = []) :
    document.modelForRequest t = none := by
  rw [CatalogDocument.modelForRequest, h]
  exact if_pos rfl

/-! ## One resolution -/

section
variable (document : CatalogDocument)

theorem resolve_pinned {modelOverride : UpstreamModelOverride} (h : modelOverride ≠ .default)
    (s t : Text) :
    resolveUpstreamSlug document modelOverride s = resolveUpstreamSlug document modelOverride t := by
  obtain ⟨slug, hslug⟩ : ∃ slug, modelOverride.pinnedSlug = some slug :=
    Option.ne_none_iff_exists'.mp fun hnone =>
      h (UpstreamModelOverride.pinnedSlug_eq_none_iff.mp hnone)
  simp only [resolveUpstreamSlug, hslug, Option.getD_some]

theorem resolve_default (t : Text) :
    resolveUpstreamSlug document .default t =
      if t.trim = [] then document.defaultSlug
      else ((document.modelForRequest t).map CatalogModel.upstreamSlugOrSlug).getD
        (defaultUpstreamSlug t) := by
  have hfallback : UpstreamModelOverride.default.upstreamSlug t.trim = defaultUpstreamSlug t := by
    show defaultUpstreamSlug t.trim = defaultUpstreamSlug t
    simp only [defaultUpstreamSlug, Text.trim_trim]
  show (if t.trim = [] then _ else match document.modelForRequest t.trim with
    | some model => model.upstreamSlugOrSlug
    | none => UpstreamModelOverride.default.upstreamSlug t.trim) = _
  rw [modelForRequest_trim, hfallback]
  cases document.modelForRequest t <;> rfl

theorem resolve_blank {t : Text} (h : t.trim = []) :
    resolveUpstreamSlug document .default t = document.defaultSlug := by
  rw [resolve_default, if_pos h]

theorem resolve_known {t : Text} {model : CatalogModel}
    (h : document.modelForRequest t = some model) :
    resolveUpstreamSlug document .default t = model.upstreamSlugOrSlug := by
  have hfilled : t.trim ≠ [] := by
    intro hnil
    rw [modelForRequest_blank document hnil] at h
    exact nomatch h
  rw [resolve_default, if_neg hfilled, h]
  rfl

theorem resolve_unknown {t : Text} (hfilled : t.trim ≠ [])
    (h : document.modelForRequest t = none) :
    resolveUpstreamSlug document .default t = defaultUpstreamSlug t := by
  rw [resolve_default, if_neg hfilled, h]
  rfl

/-! ## Names that resolve to themselves -/

/-- A name under which the catalog sends the name itself upstream. -/
inductive IsSettled (name : Text) : Prop
  | blank (hname : name.trim = []) (hdefault : document.defaultSlug = name)
  | known (model : CatalogModel) (hfound : document.modelForRequest name = some model)
      (hupstream : model.upstreamSlugOrSlug = name)
  | unknown (hname : name.trim ≠ []) (hfound : document.modelForRequest name = none)
      (htrim : name.trim = name)
      (hspelling : ∀ slug ∈ [modelFlash, modelPro], name.toAsciiLowercase = slug → name = slug)
      (hnative : isCodexNativeGptModel name.toAsciiLowercase = false)

end

theorem native_ne {t slug : Text} (h : isCodexNativeGptModel t = true)
    (hslug : isCodexNativeGptModel slug = false) : t ≠ slug := by
  intro heq
  rw [heq, hslug] at h
  exact nomatch h

theorem defaultUpstreamSlug_native {t : Text}
    (h : isCodexNativeGptModel t.trim.toAsciiLowercase = true) :
    defaultUpstreamSlug t = modelPro := by
  simp only [defaultUpstreamSlug]
  rw [if_neg (native_ne h (by decide)), if_neg (native_ne h (by decide)),
    if_neg (native_ne h (by decide)), if_pos h]

/-- The two slugs of the built-in catalog are written in lower case; other names stay as they
are. -/
theorem defaultUpstreamSlug_other {t : Text} (hfilled : t.trim ≠ [])
    (h : isCodexNativeGptModel t.trim.toAsciiLowercase = false) :
    (∃ slug ∈ [modelFlash, modelPro], t.trim.toAsciiLowercase = slug ∧
      defaultUpstreamSlug t = slug) ∨
    (∀ slug ∈ [modelFlash, modelPro], t.trim.toAsciiLowercase ≠ slug) ∧
      defaultUpstreamSlug t = t.trim := by
  simp only [defaultUpstreamSlug]
  rw [if_neg (mt toAsciiLowercase_eq_nil.mp hfilled)]
  by_cases hflash : t.trim.toAsciiLowercase = modelFlash
  · exact .inl ⟨modelFlash, by simp, hflash, if_pos hflash⟩
  rw [if_neg hflash]
  by_cases hpro : t.trim.toAsciiLowercase = modelPro
  · exact .inl ⟨modelPro, by simp, hpro, if_pos hpro⟩
  rw [if_neg hpro, if_neg (Bool.not_eq_true _ ▸ h)]
  exact .inr ⟨by simp [hflash, hpro], rfl⟩

theorem builtin_trim {slug : Text} (h : slug ∈ [modelFlash, modelPro]) :
    slug.trim = slug ∧ slug.toAsciiLowercase = slug ∧ slug ≠ [] ∧
      isCodexNativeGptModel slug = false := by
  rcases List.mem_pair.mp h with rfl | rfl <;> decide

section
variable (document : CatalogDocument)

theorem isSettled_iff (name : Text) :
    IsSettled document name ↔ resolveUpstreamSlug document .default name = name := by
  constructor
  · intro h
    cases h with
    | blank hname hdefault => rw [resolve_blank document hname, hdefault]
    | known model hfound hupstream => rw [resolve_known document hfound, hupstream]
    | unknown hname hfound htrim hspelling hnative =>
      rw [resolve_unknown document hname hfound]
      rw [← htrim] at hnative
      obtain ⟨slug, hslug, hlower, heq⟩ | ⟨-, heq⟩ := defaultUpstreamSlug_other hname hnative
      · rw [htrim] at hlower
        rw [heq, hspelling slug hslug hlower]
      · rw [heq, htrim]
  · intro h
    by_cases hname : name.trim = []
    · exact .blank hname (resolve_blank document hname ▸ h)
    cases hfound : document.modelForRequest name with
    | some model => exact .known model hfound (resolve_known document hfound ▸ h)
    | none =>
      rw [resolve_unknown document hname hfound] at h
      cases hnative : isCodexNativeGptModel name.trim.toAsciiLowercase with
      | true =>
        -- a native name is sent as another one, so it cannot be its own slug
        rw [defaultUpstreamSlug_native hnative] at h
        rw [← h] at hnative
        exact absurd hnative (by decide)
      | false =>
        obtain ⟨slug, hslug, hlower, heq⟩ | ⟨hother, heq⟩ :=
          defaultUpstreamSlug_other hname hnative
        · obtain rfl : slug = name := heq.symm.trans h
          obtain ⟨htrim, hcase, -, hgpt⟩ := builtin_trim hslug
          exact .unknown hname hfound htrim (fun other _ hsame => hcase ▸ hsame)
            (hcase.symm ▸ hgpt)
        · have htrim : name.trim = name := heq.symm.trans h
          rw [htrim] at hother hnative
          exact .unknown hname hfound htrim (fun slug hslug hsame => absurd hsame (hother slug hslug))
            hnative

/-- A name that the catalog does not know and that is no native name of the client is resolved
once and for all. -/
theorem isSettled_unknown {t : Text} (hfilled : t.trim ≠ [])
    (hfound : document.modelForRequest t = none)
    (hnative : isCodexNativeGptModel t.trim.toAsciiLowercase = false) :
    IsSettled document (defaultUpstreamSlug t) := by
  obtain ⟨slug, hslug, hlower, heq⟩ | ⟨hother, heq⟩ := defaultUpstreamSlug_other hfilled hnative
  · obtain ⟨htrim, hcase, hne, hgpt⟩ := builtin_trim hslug
    rw [heq]
    have hsame : slug.trim.toAsciiLowercase = t.trim.toAsciiLowercase := by
      rw [htrim, hcase, hlower]
    exact .unknown (by rwa [htrim]) ((modelForRequest_congr document hsame).trans hfound) htrim
      (fun other _ h => hcase ▸ h) (hcase.symm ▸ hgpt)
  · rw [heq]
    exact .unknown (by rwa [Text.trim_trim]) ((modelForRequest_trim document t).trans hfound)
      (Text.trim_trim t) (fun slug hslug h => absurd h (hother slug hslug)) hnative

theorem resolve_resolve_iff (t : Text) :
    resolveUpstreamSlug document .default (resolveUpstreamSlug document .default t) =
        resolveUpstreamSlug document .default t ↔
      (t.trim = [] → IsSettled document document.defaultSlug) ∧
      (∀ model, document.modelForRequest t = some model →
        IsSettled document model.upstreamSlugOrSlug) ∧
      (document.modelForRequest t = none →
        isCodexNativeGptModel t.trim.toAsciiLowercase = true → IsSettled document modelPro) := by
  rw [← isSettled_iff]
  by_cases hblank : t.trim = []
  · have hnative : isCodexNativeGptModel t.trim.toAsciiLowercase = false := by
      rw [hblank]
      decide
    rw [resolve_blank document hblank, modelForRequest_blank document hblank, hnative]
    simp [hblank]
  cases hfound : document.modelForRequest t with
  | some model =>
    rw [resolve_known document hfound]
    simp [hblank]
  | none =>
    rw [resolve_unknown document hblank hfound]
    cases hnative : isCodexNativeGptModel t.trim.toAsciiLowercase with
    | true =>
      rw [defaultUpstreamSlug_native hnative]
      simp [hblank]
    | false =>
      have hsettled := isSettled_unknown document hblank hfound hnative
      simp [hblank, hsettled]

/-- Resolution is stable under a pin. Without one it is where the slug of the default model, the
upstream slug of the requested model and the name for unknown native models are sent upstream as
themselves. -/
theorem resolution_stable_iff (modelOverride : UpstreamModelOverride) (requested : Text) :
    (resolveUpstreamSlug document modelOverride
          (resolveUpstreamSlug document modelOverride requested) =
        resolveUpstreamSlug document modelOverride requested ∧
      resolveUpstreamSlug document modelOverride "" =
        resolveUpstreamSlug document modelOverride document.defaultSlug) ↔
      modelOverride ≠ .default ∨
      (IsSettled document document.defaultSlug ∧
        (∀ model, document.modelForRequest requested = some model →
          IsSettled document model.upstreamSlugOrSlug) ∧
        (document.modelForRequest requested = none →
          isCodexNativeGptModel requested.trim.toAsciiLowercase = true →
            IsSettled document modelPro)) := by
  by_cases hpin : modelOverride = .default
  · subst hpin
    have hempty : resolveUpstreamSlug document .default "" = document.defaultSlug :=
      resolve_blank document rfl
    rw [resolve_resolve_iff, hempty, isSettled_iff document document.defaultSlug]
    constructor
    · rintro ⟨⟨-, hknown, hnative⟩, hdefault⟩
      exact .inr ⟨hdefault.symm, hknown, hnative⟩
    · rintro (hne | ⟨hdefault, hknown, hnative⟩)
      · exact absurd rfl hne
      · exact ⟨⟨fun _ => hdefault, hknown, hnative⟩, hdefault.symm⟩
  · exact iff_of_true ⟨resolve_pinned document hpin _ _, resolve_pinned document hpin _ _⟩
      (.inl hpin)

end

/-- The default model of the built-in catalog, which is sent upstream under one of its aliases. -/
def flashValue : Value :=
  .object [
    ("default_model", .string "deepseek-flash"),
    ("models", .array [.object [
      ("alias_patterns", .array [.string "deepseek-v4-flash*"]),
      ("aliases", .array [.string "deepseek-v4-flash"]),
      ("context_window", .number (.posInt 1000000)),
      ("description", .string "DeepSeek-V4.1-Flash served through CodeSeeX."),
      ("display_name", .string "DeepSeek V4.1 Flash"),
      ("effective_context_window_percent", .number (.posInt 95)),
      ("is_default", .bool true),
      ("priority", .number (.posInt 1)),
      ("slug", .string "deepseek-flash"),
      ("upstream_slug", .string "deepseek-v4-flash")]]),
    ("revision", .string "1"),
    ("schema_version", .number (.posInt 1))]

def flashDocument : CatalogDocument where
  schemaVersion := 1
  revision := "1"
  issuedAt := none
  providerName := "CodeSeeX"
  defaultModel := "deepseek-flash"
  minAppVersion := none
  models := [{
    slug := "deepseek-flash"
    displayName := "DeepSeek V4.1 Flash"
    description := "DeepSeek-V4.1-Flash served through CodeSeeX."
    contextWindow := 1000000
    effectiveContextWindowPercent := 95
    priority := 1
    extra := ([("alias_patterns", .array [.string "deepseek-v4-flash*"]),
      ("aliases", .array [.string "deepseek-v4-flash"]), ("is_default", .bool true),
      ("upstream_slug", .string "deepseek-v4-flash")] :
      List (Text × Value)).foldl (fun extra field => extra.insert field.1 field.2) .empty }]
  pricing := PricingTable.default

/-- A request without a model is recorded under the slug of the default model and sent under its
upstream slug. -/
theorem emptyRequest_unstable :
    fromValue (fun _ => []) PricingTable.fromValue flashValue = .ok flashDocument ∧
      (∀ model ∈ flashDocument.models,
        (flashDocument.modelForRequest model.upstreamSlugOrSlug).isSome) ∧
      resolveUpstreamSlug flashDocument .default "" = "deepseek-flash" ∧
      resolveUpstreamSlug flashDocument .default "deepseek-flash" = "deepseek-v4-flash" ∧
      ¬(resolveUpstreamSlug flashDocument .default
            (resolveUpstreamSlug flashDocument .default "") =
          resolveUpstreamSlug flashDocument .default "" ∧
        resolveUpstreamSlug flashDocument .default "" =
          resolveUpstreamSlug flashDocument .default flashDocument.defaultSlug) := by
  have hempty : resolveUpstreamSlug flashDocument .default "" = Text.lit "deepseek-flash" := rfl
  have hflash : resolveUpstreamSlug flashDocument .default "deepseek-flash" =
      Text.lit "deepseek-v4-flash" := rfl
  refine ⟨rfl, ?_, hempty, hflash, ?_⟩
  · intro model hmodel
    obtain rfl := List.mem_singleton.mp hmodel
    rfl
  · rintro ⟨hstable, -⟩
    exact absurd hstable (by decide)

end CodeSeeX.Catalog
