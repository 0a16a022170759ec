import CodeSeeX.Core.CodexConfig
import Mathlib.Data.Bool.AllAny

/-!
# The addresses of the upstream endpoints

Every builder starts from the normalized base URL. All but the one for chat completions edit the
path of the parsed URL and clear its query and fragment; that one appends to the text.
-/
namespace CodeSeeX.CodexConfig
open List Text

variable {url : Url} {path : Text}

section
variable (urls : UrlCrate)

def chatCompletionsUrl (baseUrl : Text) : Text :=
  trimEndSlashes (normalizeBaseUrl urls baseUrl) ++ lit "/chat/completions"

/-- The builders that edit the parsed URL; `path` is what they set. -/
def editedUrl (path : Url → Text) (baseUrl : Text) : Option Text :=
  (urls.parse (normalizeBaseUrl urls baseUrl)).map fun url =>
    urls.toText { url with path := path url, query := none, fragment := none }

def responsesUrl : Text → Option Text := editedUrl urls fun url =>
  if isOfficialDeepseekUrl url then "/responses"
  else
    let path := trimEndSlashes url.path
    if path = [] ∨ path = "/" then "/responses" else path ++ lit "/responses"

/-- `path.to_ascii_lowercase().ends_with("/v1")` -/
def endsInVersion (path : Text) : Bool := path.toAsciiLowercase.endsWith "/v1"

def toolsEndpointUrl (endpoint : Text) : Text → Option Text := editedUrl urls fun url =>
  let path := trimEndSlashes url.path
  let apiPath := if endsInVersion path then path else path ++ lit "/v1"
  apiPath ++ lit "/tools/" ++ endpoint

def toolsSearchUrl : Text → Option Text := toolsEndpointUrl urls "search"

def toolsFetchUrl : Text → Option Text := toolsEndpointUrl urls "fetch"

def balanceUrl : Text → Option Text := editedUrl urls fun url =>
  let path := trimEndSlashes url.path
  let path := if endsInVersion path then path.take (path.length - 3) else path
  if path = [] then "/user/balance" else trimEndSlashes path ++ lit "/user/balance"

def modelsUrl : Text → Option Text := editedUrl urls fun url =>
  let path := trimEndSlashes url.path
  let path := if endsInVersion path then path else path ++ lit "/v1"
  path ++ lit "/models"

def endpointBuilders : List (Text → Option Text) :=
  [some ∘ chatCompletionsUrl urls, responsesUrl urls, toolsSearchUrl urls, toolsFetchUrl urls,
    balanceUrl urls, modelsUrl urls]

/-- The text that is parsed as the base URL. -/
def rawBase (value : Text) : Text :=
  if value.trim = [] then "https://api.deepseek.com/" else value.trim

/-! ## What the endpoints are for a parsed base URL -/

/-- The path in front of the segments of an endpoint. The official endpoint has none. -/
def pathPrefixOf (base : Url) : Text :=
  if isOfficialDeepseekUrl base then [] else trimEndSlashes base.path

/-- The path with its version segment, which is added where there is none. -/
def versioned (path : Text) : Text :=
  if endsInVersion path then path else path ++ lit "/v1"

/-- The path without a version segment at its end. -/
def unversioned (path : Text) : Text :=
  if endsInVersion path then trimEndSlashes (path.take (path.length - 3)) else path

/-- The base URL with the path of an endpoint, without query and fragment. -/
def endpointAt (base : Url) (path segments : Text) : Text :=
  urls.toText { base with path := path ++ segments, query := none, fragment := none }

/-- All builders give the same for the base URL and its normalization, which is final, and they
give the base URL with the path of the endpoint. -/
structure EndpointsAgree (value : Text) (base : Url) : Prop where
  idempotent : normalizeBaseUrl urls (normalizeBaseUrl urls value) = normalizeBaseUrl urls value
  normalized : ∀ builder ∈ endpointBuilders urls,
    builder (normalizeBaseUrl urls value) = builder value
  chatCompletions : chatCompletionsUrl urls value =
    endpointAt urls base (pathPrefixOf base) "/chat/completions"
  responses : responsesUrl urls value =
    some (endpointAt urls base (pathPrefixOf base) "/responses")
  toolsSearch : toolsSearchUrl urls value =
    some (endpointAt urls base (versioned (pathPrefixOf base)) "/tools/search")
  toolsFetch : toolsFetchUrl urls value =
    some (endpointAt urls base (versioned (pathPrefixOf base)) "/tools/fetch")
  balance : balanceUrl urls value =
    some (endpointAt urls base (unversioned (pathPrefixOf base)) "/user/balance")
  models : modelsUrl urls value =
    some (endpointAt urls base (versioned (pathPrefixOf base)) "/models")

end

/-! ## The URL crate -/

/-- A query or a fragment behind its mark. -/
def marked (mark : Char) : Option Text → Text
  | none => []
  | some text => mark :: text

/-- What the builders rely on for URLs with an authority. The `origin` is the text of the scheme
and the authority. The URLs that parsing gives are `valid`, also with a path cut at its slashes. -/
structure UrlLaws (urls : UrlCrate) (origin : Url → Text) (valid : Url → Prop) : Prop where
  origin_last : ∀ url, valid url → url.host.isSome → ∃ front last, origin url = front ++ [last] ∧ last ≠ '/'
  toText : ∀ url path query fragment, url.host.isSome →
    urls.toText { url with path, query, fragment } =
      origin url ++ path ++ marked '?' query ++ marked '#' fragment
  plain : ∀ url, valid url → ∀ c ∈ origin url ++ url.path,
    c ≠ '?' ∧ c ≠ '#' ∧ isWhitespace c = false
  valid_parse : ∀ text url, urls.parse text = some url → valid url
  valid_cut : ∀ url front, valid url → url.path = front ++ ['/'] →
    valid { url with path := front }
  valid_root : ∀ url, valid url → valid { url with path := [] }
  /-- An empty path may be read as the root. -/
  parse : ∀ url, valid url → url.host.isSome → url.query = none → url.fragment = none →
    ∃ path, (path = url.path ∨ url.path = [] ∧ path = "/") ∧
      urls.parse (urls.toText url) = some { url with path }

/-! ## Normal base URLs -/

theorem trimEndSlashes_concat (t : Text) : trimEndSlashes (t ++ ['/']) = trimEndSlashes t := by
  rw [trimEndSlashes, rdropWhile_concat_pos _ _ _ (by decide)]
  rfl

theorem trimEndSlashes_trimEndSlashes (t : Text) :
    trimEndSlashes (trimEndSlashes t) = trimEndSlashes t :=
  rdropWhile_idempotent _ t

theorem mem_trimEndSlashes {c : Char} {t : Text} (hc : c ∈ t) (hslash : c ≠ '/') :
    c ∈ trimEndSlashes t := by
  induction t using reverseRecOn with
  | nil => cases hc
  | append_singleton t last ih =>
    by_cases hlast : last = '/'
    · subst hlast
      rw [trimEndSlashes_concat]
      refine ih ?_
      simpa [hslash] using hc
    · rw [trimEndSlashes, rdropWhile_concat_neg _ _ _ (by simpa using hlast)]
      exact hc

theorem trimEndSlashes_append {front : Text} {last : Char} (hlast : last ≠ '/') (t : Text) :
    trimEndSlashes (front ++ [last] ++ t) = front ++ [last] ++ trimEndSlashes t := by
  induction t using reverseRecOn with
  | nil =>
    rw [append_nil, trimEndSlashes, rdropWhile_concat_neg _ _ _ (by simpa using hlast)]
    simp [trimEndSlashes]
  | append_singleton t c ih =>
    rw [← append_assoc]
    by_cases hc : c = '/'
    · rw [hc, trimEndSlashes_concat, trimEndSlashes_concat, ih]
    · rw [trimEndSlashes, rdropWhile_concat_neg _ _ _ (by simpa using hc), trimEndSlashes,
        rdropWhile_concat_neg _ _ _ (by simpa using hc), append_assoc]

/-- The official endpoint is told by the path up to its slashes. -/
theorem isOfficial_path {p q : Text} (h : trimEndSlashes p = trimEndSlashes q) :
    isOfficialDeepseekUrl { url with path := p } = isOfficialDeepseekUrl { url with path := q } := by
  simp only [isOfficialDeepseekUrl, h]

theorem isOfficial_bare (h : isOfficialDeepseekUrl url = true) :
    url.query = none ∧ url.fragment = none := by
  unfold isOfficialDeepseekUrl at h
  split_ifs at h with hparts
  simp only [Bool.or_eq_true, not_or, Bool.not_eq_true, Option.isSome_eq_false_iff,
    Option.isNone_iff_eq_none] at hparts
  exact ⟨hparts.1.2, hparts.2⟩

theorem isOfficial_root (h : isOfficialDeepseekUrl url = true) :
    isOfficialDeepseekUrl { url with path := [] } = true := by
  unfold isOfficialDeepseekUrl at h ⊢
  split_ifs at h ⊢ with hhost
  rfl

theorem trim_pathPrefixOf (base : Url) : trimEndSlashes (pathPrefixOf base) = pathPrefixOf base := by
  unfold pathPrefixOf
  split_ifs
  · rfl
  · exact trimEndSlashes_trimEndSlashes base.path

theorem isOfficial_edit {base : Url} (h : trimEndSlashes path = pathPrefixOf base) :
    isOfficialDeepseekUrl { base with path := path } = isOfficialDeepseekUrl base := by
  unfold pathPrefixOf at h
  split_ifs at h with hofficial
  · rw [isOfficial_path (h.trans rfl : trimEndSlashes path = trimEndSlashes []),
      isOfficial_root hofficial, hofficial]
  · exact isOfficial_path h

theorem pathPrefixOf_edit {base : Url} (h : trimEndSlashes path = pathPrefixOf base) :
    pathPrefixOf { base with path := path } = pathPrefixOf base := by
  rw [pathPrefixOf, isOfficial_edit h, h]
  split_ifs with hofficial
  · rw [pathPrefixOf, if_pos hofficial]
  · rfl

section
variable {urls : UrlCrate} {origin : Url → Text} {valid : Url → Prop}
  (laws : UrlLaws urls origin valid) {value : Text} {base : Url}
include laws

section
variable {url : Url} (h : valid url)
include h

theorem UrlLaws.valid_trim :
    valid { url with path := trimEndSlashes url.path } := by
  obtain ⟨scheme, host, port, username, password, path, query, fragment⟩ := url
  induction path using reverseRecOn with
  | nil => exact h
  | append_singleton path last ih =>
    by_cases hlast : last = '/'
    · subst hlast
      rw [trimEndSlashes_concat]
      exact ih (laws.valid_cut _ path h rfl)
    · rw [trimEndSlashes, rdropWhile_concat_neg _ _ _ (by simpa using hlast)]
      exact h

theorem UrlLaws.valid_prefix :
    valid { url with path := pathPrefixOf url } := by
  unfold pathPrefixOf
  split_ifs
  · exact laws.valid_root url h
  · exact laws.valid_trim h

theorem UrlLaws.plain_prefix : ∀ c ∈ origin url ++ pathPrefixOf url,
    c ≠ '?' ∧ c ≠ '#' ∧ isWhitespace c = false := by
  intro c hc
  refine laws.plain url h c ?_
  rw [mem_append] at hc ⊢
  refine hc.imp_right fun hmem => ?_
  unfold pathPrefixOf at hmem
  split_ifs at hmem
  · cases hmem
  · exact ( rdropWhile_prefix _ _).subset hmem

theorem UrlLaws.trim_origin (hhost : url.host.isSome) (t : Text) :
    trimEndSlashes (origin url ++ t) = origin url ++ trimEndSlashes t := by
  obtain ⟨front, last, heq, hlast⟩ := laws.origin_last url h hhost
  rw [heq, trimEndSlashes_append hlast]

end

theorem UrlLaws.toText_bare {url : Url} (hhost : url.host.isSome) (path : Text) :
    urls.toText { url with path := path, query := none, fragment := none } = origin url ++ path := by
  rw [laws.toText _ _ _ _ hhost]
  simp only [marked, append_nil]

theorem UrlLaws.origin_edit (hhost : url.host.isSome) (path : Text) (query fragment : Option Text) :
    origin { url with path := path, query := query, fragment := fragment } = origin url := by
  have h := @UrlLaws.toText_bare _ _ _ laws
    { url with path := path, query := query, fragment := fragment } hhost []
  rw [append_nil] at h
  rw [← h, ← append_nil (origin url)]
  exact laws.toText_bare hhost []

variable (hbase : urls.parse (rawBase value) = some base) (hhost : base.host.isSome)
include hbase hhost

/-- The normalized text of a base URL. -/
theorem UrlLaws.normalize_eq : normalizeBaseUrl urls value =
    if isOfficialDeepseekUrl base then origin base
    else trimEndSlashes
      (origin base ++ base.path ++ marked '?' base.query ++ marked '#' base.fragment) := by
  have hparse : urls.parse (if value.trim = [] then ("https://api.deepseek.com/" : Text)
    else value.trim) = some base := hbase
  rw [normalizeBaseUrl]
  simp only [hparse]
  split_ifs
  · have hroot : trimEndSlashes "/" = [] := by decide
    rw [laws.toText_bare hhost, laws.trim_origin (laws.valid_parse _ base hbase) hhost, hroot, append_nil]
  · exact congrArg trimEndSlashes (laws.toText base _ _ _ hhost)

/-- The normalized text is a base URL of its own. -/
theorem UrlLaws.rawBase_normalized :
    rawBase (origin base ++ pathPrefixOf base) = origin base ++ pathPrefixOf base := by
  have hplain := laws.plain_prefix (laws.valid_parse _ base hbase)
  have htrim : (origin base ++ pathPrefixOf base).trim = origin base ++ pathPrefixOf base :=
    (trim_of_ends (fun c hc => (hplain c (mem_of_mem_head? hc)).2.2)
      fun c hc => (hplain c (mem_of_mem_getLast? hc)).2.2).2
  obtain ⟨front, last, heq, -⟩ := laws.origin_last base (laws.valid_parse _ base hbase) hhost
  rw [rawBase, htrim, if_neg (by simp [heq])]

variable (hquery : base.query = none) (hfragment : base.fragment = none)
include hquery hfragment

theorem UrlLaws.normalize_bare : normalizeBaseUrl urls value = origin base ++ pathPrefixOf base := by
  rw [laws.normalize_eq hbase hhost, pathPrefixOf, hquery, hfragment]
  split_ifs
  · rw [append_nil]
  · simp only [marked, append_nil]
    exact laws.trim_origin (laws.valid_parse _ base hbase) hhost base.path

/-- The normalized text is read as the base URL with its path up to slashes. -/
theorem UrlLaws.parse_normalized : ∃ path, trimEndSlashes path = pathPrefixOf base ∧
    urls.parse (origin base ++ pathPrefixOf base) = some { base with path := path } := by
  have hvalid := laws.valid_prefix (laws.valid_parse _ base hbase)
  obtain ⟨path, hpath, hparse⟩ := laws.parse _ hvalid hhost hquery hfragment
  refine ⟨path, ?_, ?_⟩
  · obtain rfl | ⟨hempty, rfl⟩ := hpath
    · exact trim_pathPrefixOf base
    · rw [show pathPrefixOf base = [] from hempty]
      decide
  · rw [hquery, hfragment, laws.toText_bare hhost] at hparse
    rw [hparse]
    cases base
    cases hquery
    cases hfragment
    rfl

theorem UrlLaws.normalize_again :
    normalizeBaseUrl urls (origin base ++ pathPrefixOf base) = origin base ++ pathPrefixOf base := by
  obtain ⟨path, hpath, hparse⟩ := laws.parse_normalized hbase hhost hquery hfragment
  rw [← laws.rawBase_normalized hbase hhost] at hparse
  rw [laws.normalize_bare hparse hhost hquery hfragment, pathPrefixOf_edit hpath]
  exact congrArg (· ++ pathPrefixOf base) (laws.origin_edit hhost path base.query base.fragment)

/-- What a builder makes of the base URL, where it reads the path up to slashes. -/
theorem UrlLaws.editedUrl_eq {edit : Url → Text}
    (hedit : ∀ url, trimEndSlashes url.path = pathPrefixOf base →
      isOfficialDeepseekUrl url = isOfficialDeepseekUrl base → edit url = path) :
    editedUrl urls edit value =
      some (urls.toText { base with path := path, query := none, fragment := none }) := by
  obtain ⟨parsed, hparsed, hparse⟩ := laws.parse_normalized hbase hhost hquery hfragment
  rw [editedUrl, laws.normalize_bare hbase hhost hquery hfragment, hparse, Option.map_some,
    hedit _ hparsed (isOfficial_edit hparsed)]

end

/-! ## Agreement -/

/-- The endpoints agree exactly for a base URL without query and fragment. -/
theorem endpointsAgree_iff {urls : UrlCrate} {origin : Url → Text} {valid : Url → Prop}
    (laws : UrlLaws urls origin valid) {value : Text} {base : Url}
    (hbase : urls.parse (rawBase value) = some base) (hhost : base.host.isSome) :
    EndpointsAgree urls value base ↔ base.query = none ∧ base.fragment = none := by
  have hstem := trim_pathPrefixOf base
  constructor
  · intro h
    have hnone : ∀ c, c = '?' ∨ c = '#' →
        c ∉ marked '?' base.query ++ marked '#' base.fragment := by
      intro c hc hmem
      have hother : isOfficialDeepseekUrl base = false := by
        rw [← Bool.not_eq_true]
        intro hofficial
        obtain ⟨hquery, hfragment⟩ := isOfficial_bare hofficial
        rw [hquery, hfragment] at hmem
        cases hmem
      have hchat := h.chatCompletions
      rw [chatCompletionsUrl, laws.normalize_eq hbase hhost, hother, if_neg Bool.false_ne_true,
        trimEndSlashes_trimEndSlashes, endpointAt, laws.toText_bare hhost,
        append_assoc (_ ++ _)] at hchat
      have hslash : c ≠ '/' := by rintro rfl; revert hc; decide
      have hmem' : c ∈ origin base ++ pathPrefixOf base ++ lit "/chat/completions" := by
        rw [append_assoc, ← hchat]
        exact mem_append_left _ (mem_trimEndSlashes (mem_append_right _ hmem) hslash)
      have hplain := laws.plain_prefix (laws.valid_parse _ base hbase) c
      obtain hmem' | hmem' := mem_append.mp hmem'
      · exact hc.elim (hplain hmem').1 (hplain hmem').2.1
      · obtain rfl | rfl := hc <;> revert hmem' <;> decide
    constructor
    · cases hquery : base.query with
      | none => rfl
      | some query => exact absurd (by simp [hquery, marked]) (hnone '?' (.inl rfl))
    · cases hfragment : base.fragment with
      | none => rfl
      | some fragment => exact absurd (by simp [hfragment, marked]) (hnone '#' (.inr rfl))
  · rintro ⟨hquery, hfragment⟩
    have hnormal := laws.normalize_bare hbase hhost hquery hfragment
    have hsame : normalizeBaseUrl urls (normalizeBaseUrl urls value) = normalizeBaseUrl urls value := by
      rw [hnormal, laws.normalize_again hbase hhost hquery hfragment]
    have hedited : ∀ {edit : Url → Text} {path : Text},
        (∀ url, trimEndSlashes url.path = pathPrefixOf base →
          isOfficialDeepseekUrl url = isOfficialDeepseekUrl base → edit url = path) →
        editedUrl urls edit value = some (urls.toText
          { base with path := path, query := none, fragment := none }) :=
      laws.editedUrl_eq hbase hhost hquery hfragment
    exact {
      idempotent := hsame
      normalized := by
        intro builder hbuilder
        have hagain : ∀ edit, editedUrl urls edit (normalizeBaseUrl urls value) =
            editedUrl urls edit value := fun edit => by rw [editedUrl, hsame, editedUrl]
        simp only [endpointBuilders, mem_cons, not_mem_nil, or_false] at hbuilder
        obtain rfl | rfl | rfl | rfl | rfl | rfl := hbuilder
        · simp only [Function.comp_apply, chatCompletionsUrl, hsame]
        all_goals exact hagain _
      chatCompletions := by
        rw [chatCompletionsUrl, hnormal, laws.trim_origin (laws.valid_parse _ base hbase) hhost, hstem, endpointAt,
          laws.toText_bare hhost, append_assoc]
      responses := hedited fun url hurl hofficial => by
        simp only [hurl, hofficial]
        split_ifs with hroot hempty
        · rw [pathPrefixOf, if_pos hroot]
          rfl
        · obtain hempty | hempty := hempty
          · rw [hempty]
            rfl
          · rw [hempty] at hstem
            exact absurd hstem (by decide)
        · rfl
      toolsSearch := hedited fun url hurl _ => by
        simp only [hurl]
        rw [append_assoc]
        rfl
      toolsFetch := hedited fun url hurl _ => by
        simp only [hurl]
        rw [append_assoc]
        rfl
      balance := hedited fun url hurl _ => by
        simp only [hurl, unversioned]
        split_ifs with hversion hempty
        · rw [hempty]
          rfl
        · rfl
        · next hempty =>
          rw [hempty]
          rfl
        · rw [hstem]
      models := hedited fun url hurl _ => by
        simp only [hurl]
        rfl }

/-! ## A base URL with a query -/

def proxyOrigin : Text := "https://proxy.example"

def proxyUrl (path : Text) (query : Option Text) : Url :=
  { scheme := "https", host := some "proxy.example", portOrKnownDefault := some 443, username := [],
    password := none, path, query, fragment := none }

/-- The URL crate on these texts. -/
def proxyUrls : UrlCrate where
  parse := fun text =>
    if text = proxyOrigin ∨ text = "https://proxy.example/" then some (proxyUrl "/" none)
    else if text = "https://proxy.example/?key=1" then some (proxyUrl "/" (some "key=1"))
    else none
  toText := fun url =>
    proxyOrigin ++ url.path ++ marked '?' url.query ++ marked '#' url.fragment

theorem proxyUrls_laws : UrlLaws proxyUrls (fun _ => proxyOrigin)
    fun url => ∃ path query, (path = [] ∨ path = "/") ∧ url = proxyUrl path query where
  origin_last := fun _ _ _ => ⟨"https://proxy.exampl", 'e', rfl, by decide⟩
  toText := fun _ _ _ _ _ => rfl
  plain := by
    rintro _ ⟨path, query, hpath, rfl⟩
    obtain rfl | rfl := hpath
    · show ∀ c ∈ proxyOrigin ++ ([] : Text), c ≠ '?' ∧ c ≠ '#' ∧ isWhitespace c = false
      exact all_iff_forall_prop.mp (by decide)
    · show ∀ c ∈ proxyOrigin ++ lit "/", c ≠ '?' ∧ c ≠ '#' ∧ isWhitespace c = false
      exact all_iff_forall_prop.mp (by decide)
  valid_parse := by
    intro text url h
    simp only [proxyUrls] at h
    split_ifs at h
    · exact ⟨"/", none, .inr rfl, (Option.some.inj h).symm⟩
    · exact ⟨"/", some "key=1", .inr rfl, (Option.some.inj h).symm⟩
  valid_cut := by
    rintro _ front ⟨path, query, hpath, rfl⟩ hcut
    obtain rfl | rfl := hpath
    · simp [proxyUrl] at hcut
    · obtain rfl : [] = front := append_cancel_right (show [] ++ ['/'] = front ++ ['/'] from hcut)
      exact ⟨[], query, .inl rfl, rfl⟩
  valid_root := by
    rintro _ ⟨path, query, -, rfl⟩
    exact ⟨[], query, .inl rfl, rfl⟩
  parse := by
    rintro _ ⟨path, query, hpath, rfl⟩ - (rfl : query = none) -
    obtain rfl | rfl := hpath
    · exact ⟨"/", .inr ⟨rfl, rfl⟩, rfl⟩
    · exact ⟨"/", .inl rfl, rfl⟩

theorem endpointsAgree_proxy :
    EndpointsAgree proxyUrls "https://proxy.example/" (proxyUrl "/" none) :=
  (endpointsAgree_iff proxyUrls_laws rfl rfl).mpr ⟨rfl, rfl⟩

/-- The chat completions go to the path of the base URL, with its query made longer. -/
theorem chatCompletions_query :
    ¬EndpointsAgree proxyUrls "https://proxy.example/?key=1" (proxyUrl "/" (some "key=1")) := by
  intro h
  have hchat := h.chatCompletions
  revert hchat
  decide

end CodeSeeX.CodexConfig
