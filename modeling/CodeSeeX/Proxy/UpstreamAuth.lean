import CodeSeeX.Proxy.SseText
import Mathlib.Data.List.ReduceOption

/-!
# The credential of an upstream request

Every source of a credential has its own filter for the access token of the proxy, which
never leaves it. Two parsers read a bearer scheme: the filters know two spellings of it,
the formatter all of them.
-/
namespace CodeSeeX
open List Option Text

variable {value : Text}

namespace Text

/-- `value.split_once(char::is_whitespace)` -/
def splitOnceWhitespace (value : Text) : Option (Text × Text) :=
  match value.dropWhile (!isWhitespace ·) with
  | [] => none
  | _ :: rest => some (value.takeWhile (!isWhitespace ·), rest)

/-- `char::is_ascii_whitespace` -/
def isAsciiWhitespace (c : Char) : Bool :=
  let n := c.toNat
  n = 9 ∨ n = 10 ∨ n = 12 ∨ n = 13 ∨ n = 32

end Text

namespace Upstream
open Native (stripStart)

/-! ## Bearer headers -/

def constantTimeEq (left right : List UInt8) : Bool :=
  if left.length ≠ right.length then false
  else (left.zip right).foldl (fun diff ab => diff ||| (ab.1 ^^^ ab.2)) 0 = 0

def formatBearerHeader (value : Text) : Option Text :=
  let trimmed := value.trim
  if trimmed = [] then none
  else if trimmed.toAsciiLowercase.startsWith "bearer " then some trimmed
  else some (("Bearer " : Text) ++ trimmed)

def apiKeyFromAuthorization (value : Text) : Option Text :=
  (formatBearerHeader value).map fun normalized =>
    (((stripStart "Bearer " (normalized.dropWhile isAsciiWhitespace)).or
      (stripStart "bearer " normalized)).getD normalized).trim

def authorizationMatchesLocalAccessToken (localAccessToken : Option Text) (value : Text) : Bool :=
  match localAccessToken with
  | none => false
  | some token =>
      match apiKeyFromAuthorization value with
      | none => false
      | some authToken => constantTimeEq authToken.trim.bytes token.trim.bytes

def localAccessTokenMatches (localAccessToken : Option Text) (value : Text) : Bool :=
  match localAccessToken with
  | none => false
  | some token =>
      if constantTimeEq value.trim.bytes token.trim.bytes then true
      else ((apiKeyFromAuthorization value).map fun authToken =>
        constantTimeEq authToken.trim.bytes token.trim.bytes).getD false

/-- The parser of `server/access.rs`. -/
def bearerToken (value : Text) : Option Text :=
  value.trim.splitOnceWhitespace.bind fun (scheme, rest) =>
    if scheme.eqIgnoreAsciiCase "bearer" ∧ rest.trim ≠ [] then some rest.trim else none

/-! ## Sources -/

inductive UpstreamCredentialSource where
  | auto
  | request
  | env
  | codexAuth
  | secret
  deriving DecidableEq

structure UpstreamConfig where
  baseUrl : Text
  credential : UpstreamCredentialSource
  apiKey : Option Text

structure UpstreamAuthRequest where
  inbound : Option Text
  localAccessToken : Option Text
  managedKey : Option Text

structure ResolvedUpstreamAuth where
  header : Option Text
  source : Text

def ResolvedUpstreamAuth.new (header : Option Text) (source : Text) : ResolvedUpstreamAuth :=
  match header with
  | some header => ⟨some header, source⟩
  | none => ⟨none, "none"⟩

/-- The parts of a parsed `url::Url`. -/
structure Url where
  scheme : Text
  username : Text
  password : Option Text
  hostStr : Option Text
  portOrKnownDefault : Option ℕ
  path : Text
  query : Option Text
  fragment : Option Text

def isOfficialDeepseekUrl (url : Url) : Bool :=
  if url.scheme ≠ "https" ∨ url.hostStr.map (·.eqIgnoreAsciiCase "api.deepseek.com") ≠ some true ∨
      url.portOrKnownDefault ≠ some 443 ∨ url.username ≠ [] ∨ url.password.isSome ∨
      url.query.isSome ∨ url.fragment.isSome then false
  else
    let path := toAsciiLowercase (url.path.rdropWhile (· = '/'))
    path = [] ∨ path = lit "/" ∨ path = lit "/v1"

structure CodexRequestMarkers where
  clientMetadata : Bool
  promptCacheKey : Bool
  metadataInstallationId : Bool

def CodexRequestMarkers.hasAny (m : CodexRequestMarkers) : Bool :=
  m.clientMetadata || m.promptCacheKey || m.metadataInstallationId

def codexRequestMarkers (payload : Value) : CodexRequestMarkers where
  clientMetadata := (payload.get "client_metadata").isSome
  promptCacheKey := (payload.get "prompt_cache_key").isSome
  metadataInstallationId :=
    (payload.pointer ["metadata", "x-codex-installation-id"]).isSome

def payloadLooksLikeCodexAppRequest (payload : Value) : Bool := (codexRequestMarkers payload).hasAny

def inboundCredential (request : UpstreamAuthRequest) : Option Text :=
  (request.inbound.filter fun value =>
    !authorizationMatchesLocalAccessToken request.localAccessToken value).bind formatBearerHeader

def configuredCredential (upstream : UpstreamConfig) (request : UpstreamAuthRequest) :
    Option Text :=
  (upstream.apiKey.filter fun value =>
    !localAccessTokenMatches request.localAccessToken value).bind formatBearerHeader

def managedCredential (request : UpstreamAuthRequest) : Option Text :=
  (request.managedKey.filter fun value =>
    !localAccessTokenMatches request.localAccessToken value).bind formatBearerHeader

def codexAuthCredential (request : UpstreamAuthRequest) (directKey : Option Text) : Option Text :=
  (directKey.filter fun value =>
    !localAccessTokenMatches request.localAccessToken value).bind formatBearerHeader

section
/- `Url::parse` -/
variable (parseUrl : Text → Option Url)

def upstreamIsOfficial (upstream : UpstreamConfig) : Bool :=
  ((parseUrl upstream.baseUrl).map isOfficialDeepseekUrl).getD false

def codexAppIsolationApplies (upstream : UpstreamConfig) (payload : Value) : Bool :=
  upstreamIsOfficial parseUrl upstream && payloadLooksLikeCodexAppRequest payload

def resolveUpstreamAuthorization (upstream : UpstreamConfig) (request : UpstreamAuthRequest)
    (payload : Value) (directKey : Option Text) : ResolvedUpstreamAuth :=
  match upstream.credential with
  | .request => .new (inboundCredential request) "request"
  | .env => .new (configuredCredential upstream request) "env"
  | .secret => .new (managedCredential request) "secret"
  | .codexAuth => .new (codexAuthCredential request directKey) "codex_auth"
  | .auto =>
      let fallback :=
        match managedCredential request with
        | some header => .new (some header) "secret"
        | none =>
            match configuredCredential upstream request with
            | some header => .new (some header) "env"
            | none => .new (codexAuthCredential request directKey) "codex_auth"
      if codexAppIsolationApplies parseUrl upstream payload then fallback
      else match inboundCredential request with
        | some header => .new (some header) "request"
        | none => fallback

end

/-! ## What a header carries -/

theorem constantTimeEq_iff {left right : List UInt8} :
    constantTimeEq left right = true ↔ left = right := by
  have hfold : ∀ (left right : List UInt8) (diff : UInt8), left.length = right.length →
      ((left.zip right).foldl (fun diff ab => diff ||| (ab.1 ^^^ ab.2)) diff = 0 ↔
        diff = 0 ∧ left = right) := by
    intro left
    induction left with
    | nil =>
      intro right diff hlength
      simp [length_eq_zero_iff.mp hlength.symm]
    | cons a left ih =>
      intro right diff hlength
      cases right with
      | nil => simp at hlength
      | cons b right =>
        rw [zip_cons_cons, foldl_cons, ih right _ (by simpa using hlength)]
        rw [UInt8.or_eq_zero_iff, UInt8.xor_eq_zero_iff, cons.injEq, and_assoc]
  rw [constantTimeEq]
  split_ifs with hlength
  · constructor
    · simp
    · intro h
      exact absurd (congrArg length h) hlength
  · rw [decide_eq_true_iff, hfold left right 0 (not_not.mp hlength)]
    simp

theorem bytes_injective {s t : Text} (h : s.bytes = t.bytes) : s = t := by
  have hs := Native.fromUtf8_bytes s
  rw [h, Native.fromUtf8_bytes] at hs
  exact (some.inj hs).symm

@[simp] theorem constantTimeEq_bytes (s t : Text) :
    constantTimeEq s.bytes t.bytes = decide (s = t) := by
  rw [Bool.eq_iff_iff, constantTimeEq_iff, decide_eq_true_iff]
  exact ⟨bytes_injective, fun h => h ▸ rfl⟩

/-- The credential of a header, without a bearer scheme in any letter case. -/
def credential (header : Text) : Text := (bearerToken header).getD header.trim

/-- The token behind a scheme in a spelling that the filters do not know. -/
def disguised (token value : Text) : Bool :=
  value.trim.toAsciiLowercase.startsWith "bearer " && !value.trim.startsWith "Bearer " &&
    !value.trim.startsWith "bearer " && trim (value.trim.drop 7) = token.trim

theorem toLower_of_whitespace {c : Char} (h : isWhitespace c = true) : c.toLower = c := by
  have hupper : ¬ (65 ≤ c.toNat ∧ c.toNat ≤ 90) := by
    simp only [isWhitespace, decide_eq_true_eq] at h
    omega
  delta Char.toLower
  rw [dif_neg]
  exact hupper

/-- A bearer scheme holds no space. -/
theorem scheme_not_whitespace {scheme : Text} (h : scheme.toAsciiLowercase = "bearer") :
    ∀ c ∈ scheme, isWhitespace c = false := by
  intro c hc
  rw [← Bool.not_eq_true]
  intro hspace
  have hmem : c.toLower ∈ lit "bearer" := by
    rw [← h]
    exact mem_map_of_mem hc
  rw [toLower_of_whitespace hspace] at hmem
  have hletters : ∀ d ∈ ['b', 'e', 'a', 'r', 'e', 'r'], isWhitespace d = false := by
    simp only [forall_mem_cons]
    exact ⟨by decide, by decide, by decide, by decide, by decide, by decide, by simp⟩
  rw [hletters c hmem] at hspace
  simp at hspace

theorem splitOnceWhitespace_append {scheme : Text} (h : ∀ c ∈ scheme, isWhitespace c = false)
    (rest : Text) : splitOnceWhitespace (scheme ++ ' ' :: rest) = some (scheme, rest) := by
  have hscheme : ∀ c ∈ scheme, (!isWhitespace c) = true := by simpa using h
  have hspace : (!isWhitespace ' ') = false := by decide
  rw [splitOnceWhitespace, dropWhile_append_of_pos hscheme,
    takeWhile_append_of_pos hscheme, dropWhile_cons_of_neg (by simp [hspace]),
    takeWhile_cons_of_neg (by simp [hspace]), append_nil]

/-- The parts of a text that begins with a bearer scheme. -/
theorem bearer_split {trimmed : Text} (h : trimmed.toAsciiLowercase.startsWith "bearer " = true) :
    ∃ scheme : Text, scheme.length = 6 ∧ scheme.toAsciiLowercase = "bearer" ∧
      trimmed = scheme ++ ' ' :: trimmed.drop 7 := by
  obtain ⟨after, hafter⟩ : lit "bearer " <+: trimmed.toAsciiLowercase := by
    simpa [startsWith] using h
  obtain ⟨front, rest, htrimmed, hfront, _⟩ := map_eq_append_iff.mp hafter.symm
  have hword : lit "bearer " = lit "bearer" ++ [' '] := rfl
  rw [hword] at hfront
  obtain ⟨scheme, space, rfl, hscheme, hspace⟩ := map_eq_append_iff.mp hfront
  obtain ⟨c, rfl, hc⟩ := map_eq_singleton_iff.mp hspace
  rw [eq_of_toLower (by decide) hc] at htrimmed
  have hlength : scheme.length = 6 := by
    have hsame := congrArg length hscheme
    rw [length_map] at hsame
    exact hsame
  refine ⟨scheme, hlength, hscheme, ?_⟩
  have hseven : (scheme ++ [' ']).length = 7 := by simp [hlength]
  have hdrop : trimmed.drop 7 = rest := by
    rw [htrimmed, ← hseven, drop_left]
  rw [hdrop, htrimmed, append_assoc]
  rfl

/-! ## The filters -/

theorem head?_dropWhile_ascii {t : Text} (h : ∀ c ∈ t.head?, isWhitespace c = false) :
    t.dropWhile isAsciiWhitespace = t := by
  cases t with
  | nil => rfl
  | cons c t =>
    have hc := h c rfl
    rw [dropWhile_cons_of_neg]
    intro hascii
    simp only [isAsciiWhitespace, decide_eq_true_eq] at hascii
    have hspace : isWhitespace c = true := by
      simp only [isWhitespace, decide_eq_true_eq]
      omega
    rw [hc] at hspace
    simp at hspace

/-- A header of the formatter, as its filters and the other parser read it. -/
inductive Formatted (value header : Text) : Prop where
  /-- The value has a scheme already. -/
  | kept (scheme : Text) (hlength : scheme.length = 6) (hscheme : scheme.toAsciiLowercase = "bearer")
      (hvalue : value.trim = scheme ++ ' ' :: value.trim.drop 7) (hheader : header = value.trim)
  | added (hstart : value.trim.toAsciiLowercase.startsWith "bearer " = false)
      (hheader : header = ("Bearer " : Text) ++ value.trim)

theorem formatted_of_format {value header : Text} (h : formatBearerHeader value = some header) :
    value.trim ≠ [] ∧ Formatted value header := by
  simp only [formatBearerHeader] at h
  split_ifs at h with hempty hstart
  · obtain ⟨scheme, hlength, hscheme, hvalue⟩ := bearer_split hstart
    exact ⟨hempty, .kept scheme hlength hscheme hvalue (some.inj h).symm⟩
  · exact ⟨hempty, .added (by simpa using hstart) (some.inj h).symm⟩

/-- Behind a scheme there is a credential, as nothing is left to trim at the end. -/
theorem rest_trim_ne {value scheme rest : Text} (h : value.trim = scheme ++ ' ' :: rest) :
    rest.trim ≠ [] := by
  intro hempty
  have hblank : ∀ c ∈ rest, isWhitespace c = true :=
    isBlank_iff.mp (by simp [isBlank, hempty])
  have hlast : ∀ c ∈ (' ' :: rest).getLast?, isWhitespace c = true := by
    intro c hc
    rcases mem_cons.mp (mem_of_getLast? hc) with rfl | hmem
    · decide
    · exact hblank c hmem
  have hnot := (trim_ends value).2
  rw [h, getLast?_append_of_ne_nil _ (cons_ne_nil ' ' rest)] at hnot
  obtain ⟨c, hc⟩ := isSome_iff_exists.mp
    (getLast?_isSome.mpr (cons_ne_nil ' ' rest))
  have hyes := hlast c hc
  rw [hnot c hc] at hyes
  simp at hyes

theorem bearerToken_scheme {header scheme rest : Text} (htrim : header.trim = scheme ++ ' ' :: rest)
    (hscheme : scheme.toAsciiLowercase = "bearer") : bearerToken header = some rest.trim := by
  have hword : scheme.eqIgnoreAsciiCase "bearer" = true := by
    rw [eqIgnoreAsciiCase, hscheme]
    decide
  rw [bearerToken, htrim, splitOnceWhitespace_append (scheme_not_whitespace hscheme)]
  simp only [bind_some]
  rw [if_pos ⟨hword, rest_trim_ne htrim⟩]

/-- The other parser finds the credential of every formatted header. -/
theorem bearerToken_formatted {value header : Text} (hne : value.trim ≠ [])
    (h : Formatted value header) : bearerToken header =
      some (if value.trim.toAsciiLowercase.startsWith "bearer " then trim (value.trim.drop 7)
        else value.trim) := by
  cases h with
  | kept scheme hlength hscheme hvalue hheader =>
    have hstart : value.trim.toAsciiLowercase.startsWith "bearer " = true := by
      rw [hvalue, toAsciiLowercase, map_append, ← toAsciiLowercase, hscheme]
      simp only [startsWith, decide_eq_true_eq]
      exact ⟨_, rfl⟩
    rw [if_pos hstart, hheader]
    exact bearerToken_scheme (by rw [trim_trim]; exact hvalue) hscheme
  | added hstart hheader =>
    have htrim : trim (("Bearer " : Text) ++ value.trim) = ("Bearer" : Text) ++ ' ' :: value.trim := by
      refine (trim_of_ends (fun c hc => ?_) (fun c hc => ?_)).2
      · rw [← some.inj (show some 'B' = some c from hc)]
        decide
      · rw [getLast?_append_of_ne_nil _ hne] at hc
        exact (trim_ends value).2 c hc
    rw [hstart, if_neg Bool.false_ne_true, hheader, bearerToken_scheme htrim (by decide),
      trim_trim]

theorem startsWith_lower {t start : Text} (h : t.startsWith start = true) :
    t.toAsciiLowercase.startsWith start.toAsciiLowercase = true := by
  simp only [startsWith, decide_eq_true_eq] at h ⊢
  exact h.map Char.toLower

/-- The key that the filters compare with the token. -/
theorem apiKey_formatted {value header : Text} (h : formatBearerHeader value = some header) :
    apiKeyFromAuthorization value =
      some (if value.trim.startsWith "Bearer " ∨ value.trim.startsWith "bearer " then
        trim (value.trim.drop 7) else value.trim) := by
  have hstrip : ∀ start t : Text, stripStart start t =
      if t.startsWith start then some (t.drop start.length) else none := by
    intro start t
    simp [stripStart, startsWith]
  have hlength : (lit "Bearer ").length = 7 ∧ (lit "bearer ").length = 7 := ⟨rfl, rfl⟩
  obtain ⟨hne, hformatted⟩ := formatted_of_format h
  rw [apiKeyFromAuthorization, h, map_some]
  cases hformatted with
  | kept scheme hsix hscheme hvalue hheader =>
    subst hheader
    rw [head?_dropWhile_ascii (trim_ends value).1, hstrip, hstrip, hlength.1, hlength.2]
    by_cases hupper : value.trim.startsWith "Bearer " = true
    · simp [hupper]
    · by_cases hlower : value.trim.startsWith "bearer " = true
      · simp [hupper, hlower]
      · simp [hupper, hlower]
  | added hstart hheader =>
    subst hheader
    have hno : ¬ (value.trim.startsWith "Bearer " = true ∨ value.trim.startsWith "bearer " = true) := by
      intro hyes
      rcases hyes with hyes | hyes
      · have hlower := startsWith_lower hyes
        rw [show toAsciiLowercase "Bearer " = lit "bearer " by decide, hstart] at hlower
        simp at hlower
      · have hlower := startsWith_lower hyes
        rw [show toAsciiLowercase "bearer " = lit "bearer " by decide, hstart] at hlower
        simp at hlower
    have hhead : (("Bearer " : Text) ++ value.trim).dropWhile isAsciiWhitespace =
        ("Bearer " : Text) ++ value.trim := by
      refine head?_dropWhile_ascii fun c hc => ?_
      rw [← some.inj (show some 'B' = some c from hc)]
      decide
    have hyes : startsWith (("Bearer " : Text) ++ value.trim) "Bearer " = true := by
      simp [startsWith]
    rw [if_neg hno, hhead, hstrip, if_pos hyes, drop_left, some_or, getD_some,
      trim_trim]

/-- A header that has passed the filters carries the token exactly if it is disguised. -/
theorem carries_iff {token value header : Text} (h : formatBearerHeader value = some header)
    (hfilter : authorizationMatchesLocalAccessToken (some token) value = false) :
    credential header = token.trim ↔ disguised token value = true := by
  obtain ⟨hne, hformatted⟩ := formatted_of_format h
  rw [credential, bearerToken_formatted hne hformatted, getD_some]
  simp only [authorizationMatchesLocalAccessToken, apiKey_formatted h, constantTimeEq_bytes,
    decide_eq_false_iff_not] at hfilter
  by_cases hword : value.trim.toAsciiLowercase.startsWith "bearer " = true
  · rw [if_pos hword]
    by_cases hknown : value.trim.startsWith "Bearer " = true ∨ value.trim.startsWith "bearer " = true
    · rw [if_pos hknown, trim_trim] at hfilter
      have hplain : disguised token value = false := by
        rcases hknown with hknown | hknown <;> simp [disguised, hknown]
      rw [hplain]
      exact iff_of_false hfilter Bool.false_ne_true
    · obtain ⟨hupper, hlower⟩ := not_or.mp hknown
      simp [disguised, hword, hupper, hlower]
  · -- the filter has seen the same text as the other parser
    have hunknown : ¬ (value.trim.startsWith "Bearer " = true ∨
        value.trim.startsWith "bearer " = true) := by
      intro hknown
      refine hword ?_
      rcases hknown with hknown | hknown
      · exact startsWith_lower hknown
      · exact startsWith_lower hknown
    rw [if_neg hunknown, trim_trim] at hfilter
    rw [if_neg hword]
    refine iff_of_false hfilter ?_
    simp [disguised, hword]

/-! ## Which value is forwarded -/

section
variable (parseUrl : Text → Option Url) (upstream : UpstreamConfig) (request : UpstreamAuthRequest)
  (payload : Value) (directKey : Option Text)

/-- The values that no filter takes for the token, in the order in which they are tried. -/
def offered : List Text :=
  let inbound := request.inbound.filter fun value =>
    !authorizationMatchesLocalAccessToken request.localAccessToken value
  let others := [request.managedKey, upstream.apiKey, directKey].map fun key =>
    key.filter fun value => !localAccessTokenMatches request.localAccessToken value
  let tried := match upstream.credential with
    | .request => [inbound]
    | .secret => others.take 1
    | .env => (others.drop 1).take 1
    | .codexAuth => others.drop 2
    | .auto => (if codexAppIsolationApplies parseUrl upstream payload then [] else [inbound]) ++ others
  tried.reduceOption

/-- The value that is forwarded. -/
def forwarded : Option Text :=
  (offered parseUrl upstream request payload directKey).find? fun value => !value.isBlank

variable {parseUrl upstream request payload directKey}

theorem new_header (header : Option Text) (source : Text) :
    (ResolvedUpstreamAuth.new header source).header = header := by
  cases header <;> rfl

theorem format_of_blank (h : value.isBlank = true) :
    formatBearerHeader value = none := by
  rw [formatBearerHeader]
  simp only [isBlank, List.isEmpty_iff] at h
  simp [h]

theorem format_of_not_blank (h : value.isBlank = false) :
    ∃ header, formatBearerHeader value = some header := by
  have hne : value.trim ≠ [] := by
    intro hnil
    simp [isBlank, hnil] at h
  simp only [formatBearerHeader, if_neg hne]
  split_ifs
  · exact ⟨_, rfl⟩
  · exact ⟨_, rfl⟩

/-- The first header is that of the first value that is not blank. -/
theorem first_header (tried : List (Option Text)) :
    (tried.filterMap fun value => value.bind formatBearerHeader).head? =
      (tried.reduceOption.find? fun value => !value.isBlank).bind formatBearerHeader := by
  induction tried with
  | nil => rfl
  | cons value tried ih =>
    cases value with
    | none => simpa using ih
    | some value =>
      by_cases hblank : value.isBlank = true
      · simpa [format_of_blank hblank, hblank] using ih
      · have hnot : value.isBlank = false := by simpa using hblank
        obtain ⟨header, hheader⟩ := format_of_not_blank hnot
        simp [hheader, hnot]

theorem head?_filterMap_cons {α β : Type*} (f : α → Option β) (a : α) (as : List α) :
    ((a :: as).filterMap f).head? = (f a).or (as.filterMap f).head? := by
  cases hfa : f a <;> simp [hfa]

theorem resolve_header :
    (resolveUpstreamAuthorization parseUrl upstream request payload directKey).header =
      (forwarded parseUrl upstream request payload directKey).bind formatBearerHeader := by
  rw [forwarded, offered, ← first_header]
  simp only [resolveUpstreamAuthorization, map_cons, map_nil]
  cases upstream.credential with
  | request => simp [new_header, inboundCredential]
  | secret => simp [new_header, managedCredential]
  | env => simp [new_header, configuredCredential]
  | codexAuth => simp [new_header, codexAuthCredential]
  | auto =>
    have hfallback : (match managedCredential request with
        | some header => ResolvedUpstreamAuth.new (some header) "secret"
        | none =>
            match configuredCredential upstream request with
            | some header => .new (some header) "env"
            | none => .new (codexAuthCredential request directKey) "codex_auth").header =
        (managedCredential request).or ((configuredCredential upstream request).or
          (codexAuthCredential request directKey)) := by
      cases managedCredential request with
      | some header => rfl
      | none =>
        cases configuredCredential upstream request with
        | some header => rfl
        | none => exact new_header _ _
    cases codexAppIsolationApplies parseUrl upstream payload with
    | true =>
      simp only [if_true, nil_append, head?_filterMap_cons, filterMap_nil,
        head?_nil, or_none]
      exact hfallback
    | false =>
      simp only [Bool.false_eq_true, if_false, singleton_append, head?_filterMap_cons,
        filterMap_nil, head?_nil, or_none]
      show _ = (inboundCredential request).or ((managedCredential request).or
        ((configuredCredential upstream request).or (codexAuthCredential request directKey)))
      cases inboundCredential request with
      | some header => rfl
      | none => exact hfallback

theorem matches_of_local {localAccessToken : Option Text}
    (h : localAccessTokenMatches localAccessToken value = false) :
    authorizationMatchesLocalAccessToken localAccessToken value = false := by
  cases localAccessToken with
  | none => rfl
  | some token =>
    simp only [localAccessTokenMatches] at h
    split_ifs at h
    rw [authorizationMatchesLocalAccessToken]
    cases hkey : apiKeyFromAuthorization value with
    | none => rfl
    | some key => simpa [hkey] using h

/-- No filter takes an offered value for the token. -/
theorem offered_filtered (h : value ∈ offered parseUrl upstream request payload directKey) :
    authorizationMatchesLocalAccessToken request.localAccessToken value = false := by
  have hinbound : value ∈ [request.inbound.filter fun value =>
      !authorizationMatchesLocalAccessToken request.localAccessToken value].reduceOption →
        authorizationMatchesLocalAccessToken request.localAccessToken value = false := by
    intro hvalue
    have hsome : request.inbound.filter (fun value =>
        !authorizationMatchesLocalAccessToken request.localAccessToken value) = some value := by
      simpa [reduceOption_mem_iff, eq_comm] using hvalue
    simpa using (filter_eq_some_iff.mp hsome).2
  have hothers : ∀ others : List (Option Text), others ⊆ [request.managedKey, upstream.apiKey,
      directKey].map (fun key => key.filter fun value =>
        !localAccessTokenMatches request.localAccessToken value) →
      value ∈ others.reduceOption →
        authorizationMatchesLocalAccessToken request.localAccessToken value = false := by
    intro others hsub hvalue
    obtain ⟨key, _, hkey⟩ := mem_map.mp (hsub (reduceOption_mem_iff.mp hvalue))
    exact matches_of_local (by simpa using (filter_eq_some_iff.mp hkey).2)
  simp only [offered] at h
  cases hsource : upstream.credential with
  | request =>
    rw [hsource] at h
    exact hinbound h
  | secret =>
    rw [hsource] at h
    exact hothers _ (take_subset _ _) h
  | env =>
    rw [hsource] at h
    exact hothers _ (fun key hkey => mem_of_mem_drop (mem_of_mem_take hkey)) h
  | codexAuth =>
    rw [hsource] at h
    exact hothers _ (drop_subset _ _) h
  | auto =>
    rw [hsource, reduceOption_append, mem_append] at h
    rcases h with h | h
    · split_ifs at h
      · simp at h
      · exact hinbound h
    · exact hothers _ (Subset.refl _) h

/-- No header carries the token exactly if the forwarded value is not the token in disguise; with
the official endpoint a request of the Codex app is answered without the client's credential. -/
theorem credential_isolation_iff (parseUrl : Text → Option Url) (upstream : UpstreamConfig)
    (request : UpstreamAuthRequest) (payload : Value) (directKey : Option Text) :
    ((∀ token ∈ request.localAccessToken,
        ∀ header ∈ (resolveUpstreamAuthorization parseUrl upstream request payload directKey).header,
          credential header ≠ token.trim) ∧
      (upstreamIsOfficial parseUrl upstream = true → upstream.credential = .auto →
        payloadLooksLikeCodexAppRequest payload = true → ∀ inbound,
          resolveUpstreamAuthorization parseUrl upstream { request with inbound := inbound } payload
            directKey = resolveUpstreamAuthorization parseUrl upstream request payload directKey)) ↔
      ∀ token ∈ request.localAccessToken,
        ∀ value ∈ forwarded parseUrl upstream request payload directKey,
          disguised token value = false := by
  have hisolated : upstreamIsOfficial parseUrl upstream = true → upstream.credential = .auto →
      payloadLooksLikeCodexAppRequest payload = true → ∀ inbound,
        resolveUpstreamAuthorization parseUrl upstream { request with inbound := inbound } payload
          directKey = resolveUpstreamAuthorization parseUrl upstream request payload directKey := by
    intro hofficial hauto hcodex inbound
    have happlies : codexAppIsolationApplies parseUrl upstream payload = true := by
      rw [codexAppIsolationApplies, hofficial, hcodex, Bool.and_self]
    simp only [resolveUpstreamAuthorization, hauto, happlies, if_true]
    rfl
  rw [and_iff_left hisolated]
  refine forall₂_congr fun token htoken => ?_
  rw [resolve_header]
  cases hvalue : forwarded parseUrl upstream request payload directKey with
  | none => simp
  | some value =>
    have hmem := mem_of_find?_eq_some hvalue
    have hnot := find?_some hvalue
    obtain ⟨header, hheader⟩ := format_of_not_blank (by simpa using hnot)
    have hfilter := offered_filtered hmem
    rw [mem_def.mp htoken] at hfilter
    simp only [bind_some, hheader, mem_some_iff, forall_eq']
    rw [Ne, carries_iff hheader hfilter, Bool.not_eq_true]

end

/-- A configured key with the scheme in capitals. -/
def shoutedConfig : UpstreamConfig := ⟨"https://relay.example.com/v1", .auto, some "BEARER csx_local"⟩

theorem shoutedKey_carries_token : ¬ ∀ token ∈ some (lit "csx_local"),
    ∀ header ∈ (resolveUpstreamAuthorization (fun _ => none) shoutedConfig
      ⟨none, some "csx_local", none⟩ .null none).header, credential header ≠ token.trim := by
  decide +kernel

end Upstream
end CodeSeeX
