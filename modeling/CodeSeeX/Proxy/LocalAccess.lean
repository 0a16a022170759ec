import CodeSeeX.Proxy.UpstreamAuth
import Mathlib.Data.Bool.AllAny

/-!
# Local access

A request without the access token passes if it names a local host. The host is cut out of the
text of a header at the first mark that may end it, and what stands behind the mark is not read.
-/
namespace CodeSeeX.Access
open List

variable {trimmed : Text} {n : ℕ} {t : Text}

open Upstream (bearerToken constantTimeEq)
open Text (takeWhile_mark)

/-! ## Headers -/

/-- The bytes of a header. -/
abbrev HeaderValue := List UInt8

/-- `value.to_str().ok()`: visible ASCII and tabs only. -/
def toStr (value : HeaderValue) : Option Text :=
  if value.all fun b => (32 ≤ b && b < 127) || b = 9 then
    some (value.map fun b => Char.ofNat b.toNat)
  else none

/-- The headers in their order, under lower-case names. -/
abbrev HeaderMap := List (Text × HeaderValue)

def getAll (headers : HeaderMap) (name : Text) : List HeaderValue :=
  (headers.filter fun header => header.1 = name).map Prod.snd

/-- `headers.get(name)`: the first of its values. -/
def get (headers : HeaderMap) (name : Text) : Option HeaderValue := (getAll headers name).head?

def getStr (headers : HeaderMap) (name : Text) : Option Text := (get headers name).bind toStr

/-! ## The guard -/

def authorityHost (authority : Text) : Text :=
  match authority.trim with
  | '[' :: rest => rest.takeWhile (· ≠ ']')
  | trimmed =>
      if trimmed.countP (· = ':') = 1 then trimmed.takeWhile (· ≠ ':') else trimmed

def localNames : List Text := ["localhost", "127.0.0.1", "::1"]

/-- A host that is local without the dots at its end. -/
def hostIsLocal (host : Text) : Bool :=
  (Text.toAsciiLowercase (host.rdropWhile (· = '.'))) ∈ localNames

def authorityHostIsLocal (authority : Text) : Bool := hostIsLocal (authorityHost authority)

structure ManagerAccessPolicy where
  listenerHostIsLocal : Bool

/-- The policy of the configured host. -/
def ManagerAccessPolicy.ofHost (host : Text) : ManagerAccessPolicy := ⟨authorityHostIsLocal host⟩

def fetchMetadataIsCrossSite (headers : HeaderMap) : Bool :=
  ((getStr headers "sec-fetch-site").map (·.eqIgnoreAsciiCase "cross-site")).getD false

def v1AccessTokenHeader : Text := "x-codeseex-token"

def v1AccessTokenMatches (headers : HeaderMap) (accessToken : Text) : Bool :=
  if accessToken.trim = [] then false
  else
    ((getStr headers v1AccessTokenHeader).map fun value =>
      constantTimeEq value.trim.bytes accessToken.bytes).getD false ||
    (((getStr headers "authorization").bind bearerToken).map fun value =>
      constantTimeEq value.bytes accessToken.bytes).getD false

section
variable (urlHost : Text → Option Text)

/-- `urlHost` gives the host of what the URL parser accepts. -/
def originHostIsLocal (origin : Text) : Bool :=
  ((urlHost origin).map authorityHostIsLocal).getD false

def managerRequestIsLocal (policy : ManagerAccessPolicy) (headers : HeaderMap) : Bool :=
  if !policy.listenerHostIsLocal then false
  else if fetchMetadataIsCrossSite headers then false
  else
    let hostIsLocal := ((getStr headers "host").map authorityHostIsLocal).getD false
    let originIsLocal := ((getStr headers "origin").map (originHostIsLocal urlHost)).getD true
    hostIsLocal && originIsLocal

def v1RequestIsAllowed (policy : ManagerAccessPolicy) (headers : HeaderMap) (accessToken : Text) :
    Bool :=
  if v1AccessTokenMatches headers accessToken then true
  else managerRequestIsLocal urlHost policy headers

end

/-! ## Local authorities -/

/-- The hosts that are local, as they stand in an authority. -/
def authorityHosts : List Text := ["localhost", "127.0.0.1", "[::1]"]

/-- A local host, perhaps with a dot at its end; letters in either case. -/
def IsLocalHost (host : Text) : Prop :=
  ∃ name dot : Text, host = name ++ dot ∧ name.toAsciiLowercase ∈ authorityHosts ∧
    (dot = [] ∨ dot = ['.'])

/-- An optional port. -/
def IsPort (port : Text) : Prop :=
  port = [] ∨ ∃ digits : Text, port = ':' :: digits ∧ ∀ c ∈ digits, c.isDigit = true

/-- A local host with an optional port. -/
def IsLocalAuthority (authority : Text) : Prop :=
  ∃ host port : Text, authority = host ++ port ∧ IsLocalHost host ∧ IsPort port

def dots (n : ℕ) : Text := replicate n '.'

/-- What follows the bracket of an IPv6 host: perhaps a dot, perhaps a port. -/
def EndsAuthority (behind : Text) : Prop :=
  ∃ dot port : Text, behind = dot ++ port ∧ (dot = [] ∨ dot = ['.']) ∧ IsPort port

/-- The texts that are taken for local authorities and are none. -/
inductive IsMisread : Text → Prop where
  /-- A local name behind a bracket: the bracket is not closed, holds something else than `::1`
  or is followed by more than a dot and a port. -/
  | brackets {name tail : Text} {n : ℕ} : name.toAsciiLowercase ∈ localNames →
      (∀ c ∈ tail.head?, c = ']') →
      ¬(name = "::1" ∧ n = 0 ∧ ∃ behind, tail = ']' :: behind ∧ EndsAuthority behind) →
      IsMisread ('[' :: (name ++ (dots n ++ tail)))
  /-- A local name with several dots, or with something else than a port behind the colon. -/
  | port {name port : Text} {n : ℕ} : name.toAsciiLowercase ∈ localNames → name ≠ "::1" →
      ':' ∉ port → 2 ≤ n ∨ (∃ c ∈ port, c.isDigit = false) →
      IsMisread (name ++ (dots n ++ ':' :: port))
  /-- A local name with several dots, or an IPv6 host without brackets. -/
  | bare {name : Text} {n : ℕ} : name.toAsciiLowercase ∈ localNames → 2 ≤ n ∨ name = "::1" →
      IsMisread (name ++ dots n)

/-! ## Names -/

variable {name : Text}

theorem toLower_mem {c : Char} (h : c ∈ name) :
    c.toLower ∈ name.toAsciiLowercase := mem_map_of_mem h

/-- Names without letters are in one case only. -/
theorem eq_of_lower {name plain : Text} (h : name.toAsciiLowercase = plain)
    (hplain : ∀ c ∈ plain, ¬(97 ≤ c.toNat ∧ c.toNat ≤ 122)) : name = plain := by
  subst h
  refine (map_id name).symm.trans (map_congr_left fun c hc => ?_)
  exact Text.eq_of_toLower (hplain _ (toLower_mem hc)) rfl

theorem local_colon (h : name.toAsciiLowercase ∈ localNames) : name = "::1" ∨ ':' ∉ name := by
  have hall : ∀ t ∈ localNames, t = "::1" ∨ ':' ∉ t := by decide
  rcases hall _ h with hv6 | hcolon
  · exact .inl (eq_of_lower hv6 (all_iff_forall_prop.mp (by decide +kernel)))
  · refine .inr fun hmem => hcolon ?_
    exact toLower_mem hmem

theorem getLast_ne_dot (h : name.toAsciiLowercase ∈ localNames ++ authorityHosts) :
    ∀ hne : name ≠ [], ¬decide (name.getLast hne = '.') = true := by
  have hall : ∀ t ∈ localNames ++ authorityHosts, t.getLast? ≠ some '.' := by decide
  intro hne hdot
  rw [decide_eq_true_eq] at hdot
  have hlast : name.toAsciiLowercase.getLast? = some '.' := by
    rw [Text.toAsciiLowercase, getLast?_map, getLast?_eq_getLast_of_ne_nil hne, hdot]
    rfl
  exact hall _ h hlast

/-- The dots behind a name are what is cut off. -/
theorem rdropWhile_dots (h : name.toAsciiLowercase ∈ localNames ++ authorityHosts) (n : ℕ) :
    (name ++ dots n).rdropWhile (· = '.') = name := by
  induction n with
  | zero =>
    rw [dots, replicate_zero, append_nil, rdropWhile_eq_self_iff]
    exact getLast_ne_dot h
  | succ n ih =>
    rw [dots, replicate_succ', ← append_assoc, rdropWhile_concat_pos _ _ _ (by simp)]
    exact ih

theorem hostIsLocal_iff {host : Text} : hostIsLocal host = true ↔
    ∃ (name : Text) (n : ℕ), host = name ++ dots n ∧ name.toAsciiLowercase ∈ localNames := by
  rw [hostIsLocal, decide_eq_true_eq]
  constructor
  · intro h
    refine ⟨host.rdropWhile (· = '.'), (host.rtakeWhile (· = '.')).length, ?_, h⟩
    have hdots : host.rtakeWhile (· = '.') = dots (host.rtakeWhile (· = '.')).length := by
      refine eq_replicate_of_mem fun c hc => ?_
      simpa using mem_rtakeWhile_imp hc
    rw [← hdots, rdropWhile_append_rtakeWhile]
  · rintro ⟨name, n, rfl, h⟩
    rw [rdropWhile_dots (mem_append_left _ h)]
    exact h

/-! ## Authorities -/

/-- The host of a trimmed authority. -/
def cutAuthority (trimmed : Text) : Text :=
  match trimmed with
  | '[' :: rest => rest.takeWhile (· ≠ ']')
  | trimmed =>
      if trimmed.countP (· = ':') = 1 then trimmed.takeWhile (· ≠ ':') else trimmed

theorem cutAuthority_of_head (h : trimmed.head? ≠ some '[') :
    cutAuthority trimmed =
      if trimmed.countP (· = ':') = 1 then trimmed.takeWhile (· ≠ ':') else trimmed := by
  rw [cutAuthority]
  intro rest heq
  rw [heq] at h
  exact h rfl

theorem isLocalAuthority_iff {authority : Text} : IsLocalAuthority authority ↔
    ∃ name behind : Text, authority = name ++ behind ∧ name.toAsciiLowercase ∈ authorityHosts ∧
      EndsAuthority behind := by
  constructor
  · rintro ⟨host, port, rfl, ⟨name, dot, rfl, hname, hdot⟩, hport⟩
    exact ⟨name, dot ++ port, append_assoc .., hname, dot, port, rfl, hdot, hport⟩
  · rintro ⟨name, behind, rfl, hname, dot, port, rfl, hdot, hport⟩
    exact ⟨name ++ dot, port, (append_assoc ..).symm, ⟨name, dot, rfl, hname, hdot⟩, hport⟩

/-- Of the hosts in an authority one stands in brackets, the others begin with no mark and hold
no colon. -/
theorem authorityHost_cases (h : name.toAsciiLowercase ∈ authorityHosts) :
    name = "[::1]" ∨ (name.toAsciiLowercase ∈ localNames ∧ ':' ∉ name ∧ '[' ∉ name ∧ name ≠ []) := by
  have hall : ∀ t ∈ authorityHosts, t = "[::1]" ∨ (t ∈ localNames ∧ ':' ∉ t ∧ '[' ∉ t ∧ t ≠ []) := by
    decide
  rcases hall _ h with hv6 | ⟨hlocal, hcolon, hbracket, hne⟩
  · exact .inl (eq_of_lower hv6 (all_iff_forall_prop.mp (by decide +kernel)))
  · refine .inr ⟨hlocal, fun hmem => hcolon (toLower_mem hmem),
      fun hmem => hbracket (toLower_mem hmem), fun hnil => hne ?_⟩
    rw [hnil]
    rfl

theorem bracket_notMem (h : name.toAsciiLowercase ∈ localNames) :
    '[' ∉ name ∧ ']' ∉ name ∧ name ≠ [] := by
  have hall : ∀ t ∈ localNames, '[' ∉ t ∧ ']' ∉ t ∧ t ≠ [] := by decide
  obtain ⟨hopen, hclose, hne⟩ := hall _ h
  refine ⟨fun hmem => hopen (toLower_mem hmem), fun hmem => hclose (toLower_mem hmem),
    fun hnil => hne ?_⟩
  rw [hnil]
  rfl

theorem mem_dots {c : Char} (h : c ∈ dots n) : c = '.' := eq_of_mem_replicate h

/-- A text is local in the eyes of the guard, and no local authority. -/
def LooksLocal (trimmed : Text) : Prop :=
  hostIsLocal (cutAuthority trimmed) = true ∧ ¬IsLocalAuthority trimmed

theorem misread_of_brackets {rest : Text} (h : LooksLocal ('[' :: rest)) :
    IsMisread ('[' :: rest) := by
  obtain ⟨name, n, hcut, hname⟩ := hostIsLocal_iff.mp h.1
  have hcut' : rest.takeWhile (· ≠ ']') = name ++ dots n := hcut
  have hrest : rest = name ++ (dots n ++ rest.dropWhile (· ≠ ']')) := by
    rw [← append_assoc, ← hcut', takeWhile_append_dropWhile]
  have htail : ∀ c ∈ (rest.dropWhile (· ≠ ']')).head?, c = ']' := by
    intro c hc
    have hnot := head?_dropWhile_not (fun c => decide (c ≠ ']')) rest
    rw [Option.mem_def.mp hc] at hnot
    simpa using hnot
  rw [hrest]
  refine IsMisread.brackets hname htail ?_
  rintro ⟨rfl, rfl, behind, hbehind, hends⟩
  refine h.2 (isLocalAuthority_iff.mpr ⟨"[::1]", behind, ?_, by decide, hends⟩)
  rw [hrest, hbehind]
  rfl

/-- What may follow a name without brackets. -/
theorem endsAuthority_port (hn : n < 2) {port : Text} (hport : IsPort port) :
    EndsAuthority (dots n ++ port) := by
  refine ⟨dots n, port, rfl, ?_, hport⟩
  interval_cases n
  · exact .inl rfl
  · exact .inr rfl

theorem authorityHost_of_local (h : name.toAsciiLowercase ∈ localNames)
    (hv6 : name ≠ "::1") : name.toAsciiLowercase ∈ authorityHosts := by
  have hall : ∀ t ∈ localNames, t = "::1" ∨ t ∈ authorityHosts := by decide
  rcases hall _ h with heq | hmem
  · exact absurd (eq_of_lower heq (all_iff_forall_prop.mp (by decide +kernel))) hv6
  · exact hmem

theorem countP_eq_zero {mark : Char} : t.countP (· = mark) = 0 ↔ mark ∉ t := by
  rw [List.countP_eq_zero]
  exact ⟨fun h hmem => h mark hmem (by simp), fun h c hc heq => h (of_decide_eq_true heq ▸ hc)⟩

/-- A text with one colon. -/
theorem one_colon_iff : t.countP (· = ':') = 1 ↔
    ∃ front port : Text, t = front ++ ':' :: port ∧ ':' ∉ front ∧ ':' ∉ port := by
  constructor
  · intro hcount
    have hfront : ':' ∉ t.takeWhile (· ≠ ':') := by
      intro hmem
      simpa using mem_takeWhile_imp hmem
    have hsplit : t = t.takeWhile (· ≠ ':') ++ t.dropWhile (· ≠ ':') :=
      takeWhile_append_dropWhile.symm
    cases hback : t.dropWhile (· ≠ ':') with
    | nil =>
      rw [hback, append_nil] at hsplit
      rw [hsplit, countP_eq_zero.mpr hfront] at hcount
      omega
    | cons c port =>
      have hc : c = ':' := by
        have hnot := head?_dropWhile_not (fun c => decide (c ≠ ':')) t
        rw [hback] at hnot
        simpa using hnot
      subst hc
      rw [hback] at hsplit
      refine ⟨_, port, hsplit, hfront, countP_eq_zero.mp ?_⟩
      rw [hsplit, countP_append, countP_eq_zero.mpr hfront, countP_cons_of_pos (by simp)]
        at hcount
      omega
  · rintro ⟨front, port, rfl, hfront, hport⟩
    rw [countP_append, countP_eq_zero.mpr hfront, countP_cons_of_pos (by simp),
      countP_eq_zero.mpr hport]

theorem misread_of_plain (hhead : trimmed.head? ≠ some '[')
    (h : LooksLocal trimmed) : IsMisread trimmed := by
  obtain ⟨hlocal, hstrict⟩ := h
  rw [isLocalAuthority_iff] at hstrict
  rw [cutAuthority_of_head hhead] at hlocal
  split_ifs at hlocal with hcolon
  · obtain ⟨front, port, rfl, hfront, hport⟩ := one_colon_iff.mp hcolon
    rw [(@takeWhile_mark _ (':' :: port) _ hfront (by simp)).1] at hlocal
    obtain ⟨name, n, rfl, hname⟩ := hostIsLocal_iff.mp hlocal
    have hv6 : name ≠ "::1" := by
      rintro rfl
      exact hfront (mem_append_left _ (by decide))
    rw [append_assoc] at hstrict ⊢
    refine IsMisread.port hname hv6 hport ?_
    by_contra hboth
    rw [not_or, not_le] at hboth
    obtain ⟨hn, hdigits⟩ := hboth
    push Not at hdigits
    refine hstrict ⟨name, _, rfl, authorityHost_of_local hname hv6,
      endsAuthority_port hn (.inr ⟨port, rfl, fun c hc => ?_⟩)⟩
    simpa using hdigits c hc
  · obtain ⟨name, n, rfl, hname⟩ := hostIsLocal_iff.mp hlocal
    refine IsMisread.bare hname ?_
    by_contra hboth
    rw [not_or, not_le] at hboth
    refine hstrict ⟨name, dots n, rfl, authorityHost_of_local hname hboth.2, ?_⟩
    have hends := endsAuthority_port hboth.1 (.inl rfl)
    rwa [append_nil] at hends

/-! ### What is misread is taken for local, and is not -/

theorem dots_eq {dot : Text} (hdot : dot = [] ∨ dot = ['.']) (h : dots n = dot) : n < 2 := by
  have hlength := congrArg length h
  rw [dots, length_replicate] at hlength
  rcases hdot with rfl | rfl
  · rw [length_nil] at hlength
    omega
  · rw [length_singleton] at hlength
    omega

/-- The name and the dots behind it are told apart. -/
theorem name_dots_inj {name other : Text} {dot : Text} (hname : name.toAsciiLowercase ∈ localNames)
    (hother : other.toAsciiLowercase ∈ localNames) (hdot : dot = [] ∨ dot = ['.'])
    (h : name ++ dots n = other ++ dot) : name = other ∧ n < 2 := by
  have hmany : ∃ m, dot = dots m := by
    rcases hdot with rfl | rfl
    · exact ⟨0, rfl⟩
    · exact ⟨1, rfl⟩
  obtain ⟨m, rfl⟩ := hmany
  have hcut := congrArg (rdropWhile fun c => decide (c = '.')) h
  rw [rdropWhile_dots (mem_append_left _ hname),
    rdropWhile_dots (mem_append_left _ hother)] at hcut
  subst hcut
  exact ⟨rfl, dots_eq hdot (append_cancel_left h)⟩

theorem head_ne_bracket {name back : Text} (h : name.toAsciiLowercase ∈ localNames) :
    (name ++ back).head? ≠ some '[' := by
  obtain ⟨hopen, _, hne⟩ := bracket_notMem h
  rw [head?_append_of_ne_nil _ hne]
  intro hhead
  exact hopen (mem_of_mem_head? hhead)

theorem looksLocal_brackets {name tail : Text} {n : ℕ}
    (hname : name.toAsciiLowercase ∈ localNames) (htail : ∀ c ∈ tail.head?, c = ']')
    (hbent : ¬(name = "::1" ∧ n = 0 ∧ ∃ behind, tail = ']' :: behind ∧ EndsAuthority behind)) :
    LooksLocal ('[' :: (name ++ (dots n ++ tail))) := by
  obtain ⟨_, hclose, _⟩ := bracket_notMem hname
  have hinner : ']' ∉ name ++ dots n := by
    rw [mem_append, not_or]
    exact ⟨hclose, fun hmem => absurd (mem_dots hmem) (by decide)⟩
  constructor
  · refine hostIsLocal_iff.mpr ⟨name, n, ?_, hname⟩
    rw [cutAuthority, ← append_assoc]
    exact (takeWhile_mark hinner htail).1
  · rw [isLocalAuthority_iff]
    rintro ⟨other, behind, heq, hother, hends⟩
    rcases authorityHost_cases hother with rfl | ⟨_, _, hopen, hne⟩
    · have hrest : name ++ dots n ++ tail = ("::1" : Text) ++ ']' :: behind := by
        rw [append_assoc]
        exact (cons.inj heq).2
      have hv6 : ']' ∉ ("::1" : Text) := by decide
      have hcut := takeWhile_mark hinner htail
      rw [hrest, (@takeWhile_mark _ (']' :: behind) _ hv6 (by simp)).1,
        (@takeWhile_mark _ (']' :: behind) _ hv6 (by simp)).2] at hcut
      have hsame : name ++ dots n = ("::1" : Text) ++ [] := hcut.1.symm
      obtain ⟨rfl, _⟩ := name_dots_inj hname (by decide) (.inl rfl) hsame
      have hnone := congrArg length (append_cancel_left hsame)
      rw [dots, length_replicate, length_nil] at hnone
      exact hbent ⟨rfl, hnone, behind, hcut.2.symm, hends⟩
    · have hhead := congrArg head? heq
      rw [head?_append_of_ne_nil _ hne] at hhead
      exact hopen (mem_of_mem_head? hhead.symm)

theorem looksLocal_port {name port : Text} (hname : name.toAsciiLowercase ∈ localNames)
    (hv6 : name ≠ "::1") (hport : ':' ∉ port) (hbent : 2 ≤ n ∨ ∃ c ∈ port, c.isDigit = false) :
    LooksLocal (name ++ (dots n ++ ':' :: port)) := by
  have hfront : ':' ∉ name ++ dots n := by
    rw [mem_append, not_or]
    exact ⟨(local_colon hname).resolve_left hv6, fun hmem => absurd (mem_dots hmem) (by decide)⟩
  constructor
  · rw [cutAuthority_of_head (head_ne_bracket hname), ← append_assoc,
      if_pos (one_colon_iff.mpr ⟨_, port, rfl, hfront, hport⟩),
      (@takeWhile_mark _ (':' :: port) _ hfront (by simp)).1]
    exact hostIsLocal_iff.mpr ⟨name, n, rfl, hname⟩
  · rw [isLocalAuthority_iff]
    rintro ⟨other, behind, heq, hother, dot, digits, rfl, hdot, hdigits⟩
    rcases authorityHost_cases hother with rfl | ⟨hlocal, hcolon, _, _⟩
    · exact head_ne_bracket hname (congrArg head? heq)
    · rw [← append_assoc, ← append_assoc] at heq
      have hother' : ':' ∉ other ++ dot := by
        rw [mem_append, not_or]
        refine ⟨hcolon, ?_⟩
        rcases hdot with rfl | rfl <;> decide
      rcases hdigits with rfl | ⟨digits, rfl, hdigits⟩
      · rw [append_nil] at heq
        refine hother' (heq ▸ ?_)
        exact mem_append_right _ mem_cons_self
      · have hcut := @takeWhile_mark _ (':' :: port) _ hfront (by simp)
        rw [heq, (@takeWhile_mark _ (':' :: digits) _ hother' (by simp)).1,
          (@takeWhile_mark _ (':' :: digits) _ hother' (by simp)).2] at hcut
        have hn := (name_dots_inj hname hlocal hdot hcut.1.symm).2
        obtain rfl := (cons.inj hcut.2).2
        rcases hbent with hmany | ⟨c, hc, hnot⟩
        · omega
        · rw [hdigits c hc] at hnot
          cases hnot

theorem looksLocal_bare (hname : name.toAsciiLowercase ∈ localNames)
    (hbent : 2 ≤ n ∨ name = "::1") : LooksLocal (name ++ dots n) := by
  have hdots : ':' ∉ dots n := fun hmem => absurd (mem_dots hmem) (by decide)
  constructor
  · rw [cutAuthority_of_head (head_ne_bracket hname), if_neg]
    · exact hostIsLocal_iff.mpr ⟨name, n, rfl, hname⟩
    · rw [countP_append, countP_eq_zero.mpr hdots]
      rcases local_colon hname with rfl | hcolon
      · decide
      · rw [countP_eq_zero.mpr hcolon]
        omega
  · rw [isLocalAuthority_iff]
    rintro ⟨other, behind, heq, hother, dot, port, rfl, hdot, hport⟩
    rcases authorityHost_cases hother with rfl | ⟨hlocal, hcolon, _, hne⟩
    · exact head_ne_bracket hname (congrArg head? heq)
    · rcases local_colon hname with rfl | hplain
      · have hhead := congrArg head? heq
        rw [head?_append_of_ne_nil _ hne] at hhead
        exact hcolon (mem_of_mem_head? hhead.symm)
      · have hfront : ':' ∉ name ++ dots n := by
          rw [mem_append, not_or]
          exact ⟨hplain, hdots⟩
        rcases hport with rfl | ⟨digits, rfl, _⟩
        · rw [append_nil] at heq
          obtain ⟨rfl, hn⟩ := name_dots_inj hname hlocal hdot heq
          rcases hbent with hmany | rfl
          · omega
          · exact absurd hplain (by decide)
        · refine hfront (heq ▸ ?_)
          exact mem_append_right _ (mem_append_right _ mem_cons_self)

/-- The misread texts are exactly those that look local without being local authorities. -/
theorem isMisread_iff : IsMisread trimmed ↔ LooksLocal trimmed := by
  constructor
  · intro h
    cases h with
    | brackets hname htail hbent => exact looksLocal_brackets hname htail hbent
    | port hname hv6 hport hbent => exact looksLocal_port hname hv6 hport hbent
    | bare hname hbent => exact looksLocal_bare hname hbent
  · intro h
    by_cases hhead : trimmed.head? = some '['
    · cases trimmed with
      | nil => cases hhead
      | cons c rest =>
        obtain rfl := Option.some.inj hhead
        exact misread_of_brackets h
    · exact misread_of_plain hhead h

/-- The guard takes every local authority for one. -/
theorem hostIsLocal_of_authority (h : IsLocalAuthority trimmed) :
    hostIsLocal (cutAuthority trimmed) = true := by
  obtain ⟨name, behind, rfl, hname, dot, port, rfl, hdot, hport⟩ := isLocalAuthority_iff.mp h
  have hmany : ∃ n, dot = dots n := by
    rcases hdot with rfl | rfl
    · exact ⟨0, rfl⟩
    · exact ⟨1, rfl⟩
  obtain ⟨n, rfl⟩ := hmany
  rcases authorityHost_cases hname with rfl | ⟨hlocal, hcolon, hopen, hne⟩
  · exact rfl
  · have hfront : ':' ∉ name ++ dots n := by
      rw [mem_append, not_or]
      exact ⟨hcolon, fun hmem => absurd (mem_dots hmem) (by decide)⟩
    rw [cutAuthority_of_head (head_ne_bracket hlocal), ← append_assoc]
    rcases hport with rfl | ⟨digits, rfl, hdigits⟩
    · rw [append_nil, countP_eq_zero.mpr hfront, if_neg (by omega)]
      exact hostIsLocal_iff.mpr ⟨name, n, rfl, hlocal⟩
    · have hport' : ':' ∉ digits := fun hmem => absurd (hdigits ':' hmem) (by decide)
      rw [if_pos (one_colon_iff.mpr ⟨_, digits, rfl, hfront, hport'⟩),
        (@takeWhile_mark _ (':' :: digits) _ hfront (by simp)).1]
      exact hostIsLocal_iff.mpr ⟨name, n, rfl, hlocal⟩

/-- The guard takes a text for local if it is a local authority or misread, within blanks. -/
def IsTakenForLocal (t : Text) : Prop := IsLocalAuthority t.trim ∨ IsMisread t.trim

theorem authorityHostIsLocal_iff :
    authorityHostIsLocal t = true ↔ IsTakenForLocal t := by
  constructor
  · intro h
    by_cases hlocal : IsLocalAuthority t.trim
    · exact .inl hlocal
    · exact .inr (isMisread_iff.mpr ⟨h, hlocal⟩)
  · intro h
    cases h with
    | inl hlocal => exact hostIsLocal_of_authority hlocal
    | inr hmisread => exact (isMisread_iff.mp hmisread).1

/-! ### Blanks -/

theorem blank_notMem (h : name.toAsciiLowercase ∈ authorityHosts) :
    ∀ c ∈ name, Text.isWhitespace c = false := by
  have hall : ∀ t ∈ authorityHosts, t.all (fun c => !Text.isWhitespace c) = true := by decide
  intro c hc
  by_contra hblank
  rw [Bool.not_eq_false] at hblank
  -- A blank has no other case, so it would be in the lower-case name.
  have hlower : c.toLower = c := by
    have hn : ¬(65 ≤ c.toNat ∧ c.toNat ≤ 90) := by
      have hblank' := of_decide_eq_true hblank
      omega
    delta Char.toLower
    rw [dif_neg]
    exact hn
  have hmem := toLower_mem hc
  rw [hlower] at hmem
  have hnot := all_eq_true.mp (hall _ h) c hmem
  rw [hblank] at hnot
  cases hnot

/-- A local authority is not set within blanks. -/
theorem IsLocalAuthority.trim_eq {authority : Text} (h : IsLocalAuthority authority) :
    authority.trim = authority := by
  obtain ⟨name, behind, rfl, hname, dot, port, rfl, hdot, hport⟩ := isLocalAuthority_iff.mp h
  have hdots : ∀ c ∈ dot, Text.isWhitespace c = false := by
    intro c hc
    rcases hdot with rfl | rfl
    · cases hc
    · obtain rfl := mem_singleton.mp hc
      rfl
  have hports : ∀ c ∈ port, Text.isWhitespace c = false := by
    intro c hc
    rcases hport with rfl | ⟨digits, rfl, hdigits⟩
    · cases hc
    · cases mem_cons.mp hc with
      | inl heq => exact heq ▸ rfl
      | inr hmem => exact Text.isWhitespace_of_isDigit (hdigits c hmem)
  have hall : ∀ c ∈ name ++ (dot ++ port), Text.isWhitespace c = false := by
    intro c hc
    rw [mem_append, mem_append] at hc
    rcases hc with hc | hc | hc
    · exact blank_notMem hname c hc
    · exact hdots c hc
    · exact hports c hc
  exact (Text.trim_of_ends (fun c hc => hall c (mem_of_mem_head? hc))
    fun c hc => hall c (mem_of_getLast? hc)).2

theorem IsLocalHost.authority {host : Text} (h : IsLocalHost host) : IsLocalAuthority host :=
  ⟨host, [], (append_nil host).symm, h, .inl rfl⟩

theorem IsLocalAuthority.taken {authority : Text} (h : IsLocalAuthority authority) :
    IsTakenForLocal authority := .inl (h.trim_eq.symm ▸ h)

/-- What is taken for local and is no local authority is misread or set within blanks. -/
theorem not_isLocalAuthority_iff (h : IsTakenForLocal t) :
    ¬IsLocalAuthority t ↔ IsMisread t.trim ∨ t.trim ≠ t := by
  constructor
  · intro hnot
    by_cases htrim : t.trim = t
    · refine .inl (h.resolve_left fun hlocal => hnot ?_)
      rwa [htrim] at hlocal
    · exact .inr htrim
  · intro hbent hlocal
    cases hbent with
    | inl hmisread =>
      refine (isMisread_iff.mp hmisread).2 ?_
      rwa [hlocal.trim_eq]
    | inr htrim => exact htrim hlocal.trim_eq

/-! ## Local requests -/

/-- A host that the listener can be bound to; an IPv6 host stands without brackets, too. -/
def IsLoopback (host : Text) : Prop := IsLocalHost host ∨ host = "::1"

section
variable (urlHost : Text → Option Text)

/-- An origin is text, and a URL with a local host. -/
def IsLocalOrigin (value : HeaderValue) : Prop :=
  ∃ origin host, toStr value = some origin ∧ urlHost origin = some host ∧ IsLocalHost host

/-- A request to a loopback listener that names a local authority, from local origins only. -/
structure IsLocalRequest (configuredHost : Text) (headers : HeaderMap) : Prop where
  listener : IsLoopback configuredHost
  sameSite : ∀ site ∈ getStr headers "sec-fetch-site", site.eqIgnoreAsciiCase "cross-site" = false
  authority : ∃ authority, getStr headers "host" = some authority ∧ IsLocalAuthority authority
  origins : ∀ value ∈ getAll headers "origin", IsLocalOrigin urlHost value

/-- In all that is read of the request it looks local. -/
structure LooksLocalRequest (configuredHost : Text) (headers : HeaderMap) : Prop where
  listener : IsTakenForLocal configuredHost
  sameSite : ∀ site ∈ getStr headers "sec-fetch-site", site.eqIgnoreAsciiCase "cross-site" = false
  authority : ∃ authority, getStr headers "host" = some authority ∧ IsTakenForLocal authority
  /-- Of the origins the first is read if it is text. -/
  origin : ∀ origin ∈ getStr headers "origin",
    ∃ host, urlHost origin = some host ∧ IsTakenForLocal host

/-- What is wrong with a request that may look local. -/
inductive HidesFault (configuredHost : Text) (headers : HeaderMap) : Prop where
  | listener : ¬IsLoopback configuredHost → HidesFault configuredHost headers
  | misread {authority : Text} : getStr headers "host" = some authority →
      IsMisread authority.trim → HidesFault configuredHost headers
  | blanks {authority : Text} : getStr headers "host" = some authority →
      authority.trim ≠ authority → HidesFault configuredHost headers
  | noText {value : HeaderValue} : value ∈ getAll headers "origin" → toStr value = none →
      HidesFault configuredHost headers
  | foreign {value : HeaderValue} {origin : Text} : value ∈ getAll headers "origin" →
      toStr value = some origin → (∀ host ∈ urlHost origin, ¬IsLocalHost host) →
      HidesFault configuredHost headers

/-- No fault is hidden behind a local look. -/
def ReadPlainly (configuredHost : Text) (headers : HeaderMap) : Prop :=
  LooksLocalRequest urlHost configuredHost headers → ¬HidesFault urlHost configuredHost headers

variable {urlHost}

variable {headers : HeaderMap}

theorem fetchMetadataIsCrossSite_iff : fetchMetadataIsCrossSite headers = false ↔
      ∀ site ∈ getStr headers "sec-fetch-site", site.eqIgnoreAsciiCase "cross-site" = false := by
  rw [fetchMetadataIsCrossSite]
  cases getStr headers "sec-fetch-site" with
  | none => exact ⟨fun _ => nofun, fun _ => rfl⟩
  | some site => simp

theorem originHostIsLocal_iff {origin : Text} : originHostIsLocal urlHost origin = true ↔
    ∃ host, urlHost origin = some host ∧ IsTakenForLocal host := by
  rw [originHostIsLocal]
  cases urlHost origin with
  | none => simp
  | some host => simp [authorityHostIsLocal_iff]

variable {configuredHost : Text}

/-- The guard admits exactly what looks local. -/
theorem managerRequestIsLocal_iff :
    managerRequestIsLocal urlHost (.ofHost configuredHost) headers = true ↔
      LooksLocalRequest urlHost configuredHost headers := by
  have hhost : ((getStr headers "host").map authorityHostIsLocal).getD false = true ↔
      ∃ authority, getStr headers "host" = some authority ∧ IsTakenForLocal authority := by
    cases getStr headers "host" with
    | none => simp
    | some authority => simp [authorityHostIsLocal_iff]
  have horigin : ((getStr headers "origin").map (originHostIsLocal urlHost)).getD true = true ↔
      ∀ origin ∈ getStr headers "origin",
        ∃ host, urlHost origin = some host ∧ IsTakenForLocal host := by
    cases getStr headers "origin" with
    | none => simp
    | some origin => simp [originHostIsLocal_iff]
  constructor
  · intro h
    rw [managerRequestIsLocal] at h
    split_ifs at h with hlistener hsite
    rw [Bool.and_eq_true] at h
    rw [Bool.not_eq_true', Bool.not_eq_false] at hlistener
    rw [Bool.not_eq_true] at hsite
    exact ⟨authorityHostIsLocal_iff.mp hlistener, fetchMetadataIsCrossSite_iff.mp hsite,
      hhost.mp h.1, horigin.mp h.2⟩
  · intro h
    have hlistener : (!(ManagerAccessPolicy.ofHost configuredHost).listenerHostIsLocal) = false := by
      rw [Bool.not_eq_false']
      exact authorityHostIsLocal_iff.mpr h.listener
    rw [managerRequestIsLocal, hlistener, if_neg (by simp),
      fetchMetadataIsCrossSite_iff.mpr h.sameSite, if_neg (by simp), Bool.and_eq_true]
    exact ⟨hhost.mpr h.authority, horigin.mpr h.origin⟩

/-- The first value of a header is one of them. -/
theorem mem_getAll_of_getStr {name text : Text} (h : getStr headers name = some text) :
    ∃ value ∈ getAll headers name, toStr value = some text := by
  obtain ⟨value, hvalue, htext⟩ := Option.bind_eq_some_iff.mp h
  exact ⟨value, mem_of_mem_head? hvalue, htext⟩

theorem IsLoopback.taken {host : Text} (h : IsLoopback host) : IsTakenForLocal host := by
  cases h with
  | inl hlocal => exact hlocal.authority.taken
  | inr hv6 =>
    subst hv6
    exact authorityHostIsLocal_iff.mp (by decide)

theorem IsLocalRequest.looksLocal (h : IsLocalRequest urlHost configuredHost headers) :
    LooksLocalRequest urlHost configuredHost headers where
  listener := h.listener.taken
  sameSite := h.sameSite
  authority := by
    obtain ⟨authority, hget, hlocal⟩ := h.authority
    exact ⟨authority, hget, hlocal.taken⟩
  origin := by
    intro origin horigin
    obtain ⟨value, hvalue, htext⟩ := mem_getAll_of_getStr horigin
    obtain ⟨text, host, htext', hhost, hlocal⟩ := h.origins value hvalue
    obtain rfl : origin = text := Option.some.inj (htext.symm.trans htext')
    exact ⟨host, hhost, hlocal.authority.taken⟩

/-- Of what looks local the faults are what keeps it from being local. -/
theorem LooksLocalRequest.isLocal_iff (h : LooksLocalRequest urlHost configuredHost headers) :
    IsLocalRequest urlHost configuredHost headers ↔
      ¬HidesFault urlHost configuredHost headers := by
  obtain ⟨authority, hget, htaken⟩ := h.authority
  constructor
  · intro hlocal hfault
    obtain ⟨other, hget', hother⟩ := hlocal.authority
    obtain rfl : authority = other := Option.some.inj (hget.symm.trans hget')
    cases hfault with
    | listener hnot => exact hnot hlocal.listener
    | @misread found hfound hmisread =>
      obtain rfl : authority = found := Option.some.inj (hget.symm.trans hfound)
      exact (not_isLocalAuthority_iff htaken).mpr (.inl hmisread) hother
    | @blanks found hfound hblanks =>
      obtain rfl : authority = found := Option.some.inj (hget.symm.trans hfound)
      exact (not_isLocalAuthority_iff htaken).mpr (.inr hblanks) hother
    | noText hvalue hnone =>
      obtain ⟨text, _, htext, _⟩ := hlocal.origins _ hvalue
      rw [hnone] at htext
      cases htext
    | @foreign value origin hvalue htext hforeign =>
      obtain ⟨text, host, htext', hhost, hlocalHost⟩ := hlocal.origins _ hvalue
      obtain rfl : origin = text := Option.some.inj (htext.symm.trans htext')
      exact hforeign host hhost hlocalHost
  · intro hplain
    refine ⟨?_, h.sameSite, ⟨authority, hget, ?_⟩, ?_⟩
    · by_contra hnot
      exact hplain (.listener hnot)
    · by_contra hnot
      cases (not_isLocalAuthority_iff htaken).mp hnot with
      | inl hmisread => exact hplain (.misread hget hmisread)
      | inr hblanks => exact hplain (.blanks hget hblanks)
    · intro value hvalue
      cases htext : toStr value with
      | none => exact absurd (.noText hvalue htext) hplain
      | some origin =>
        by_contra hnot
        refine hplain (.foreign hvalue htext fun host hhost hlocal => hnot ?_)
        exact ⟨origin, host, htext, hhost, hlocal⟩

theorem managerRequest_iff_readPlainly :
    (managerRequestIsLocal urlHost (.ofHost configuredHost) headers = true ↔
      IsLocalRequest urlHost configuredHost headers) ↔
      ReadPlainly urlHost configuredHost headers := by
  rw [managerRequestIsLocal_iff]
  constructor
  · intro hiff hlooks
    exact hlooks.isLocal_iff.mp (hiff.mp hlooks)
  · intro hplain
    exact ⟨fun hlooks => hlooks.isLocal_iff.mpr (hplain hlooks), fun hlocal => hlocal.looksLocal⟩

variable (urlHost)

/-- Without the token the guards admit exactly the local requests if none hides a fault behind a
local look. -/
theorem guards_exact_iff (configuredHost accessToken : Text) (headers : HeaderMap)
    (htoken : v1AccessTokenMatches headers accessToken = false) :
    ((managerRequestIsLocal urlHost (.ofHost configuredHost) headers = true ↔
        IsLocalRequest urlHost configuredHost headers) ∧
      (v1RequestIsAllowed urlHost (.ofHost configuredHost) headers accessToken = true ↔
        IsLocalRequest urlHost configuredHost headers)) ↔
      ReadPlainly urlHost configuredHost headers := by
  have hsame : v1RequestIsAllowed urlHost (.ofHost configuredHost) headers accessToken =
      managerRequestIsLocal urlHost (.ofHost configuredHost) headers := by
    rw [v1RequestIsAllowed, htoken, if_neg (by simp)]
  rw [hsame, and_self]
  exact managerRequest_iff_readPlainly

end

/-- A header of visible characters. -/
def asciiValue (text : Text) : HeaderValue := text.map fun c => UInt8.ofNat c.toNat

theorem guards_exact_localhost :
    v1AccessTokenMatches [("host", asciiValue "localhost:8787")] "secret" = false ∧
    (((managerRequestIsLocal (fun _ => none) (.ofHost "127.0.0.1")
          [("host", asciiValue "localhost:8787")] = true ↔
        IsLocalRequest (fun _ => none) "127.0.0.1" [("host", asciiValue "localhost:8787")]) ∧
      (v1RequestIsAllowed (fun _ => none) (.ofHost "127.0.0.1")
          [("host", asciiValue "localhost:8787")] "secret" = true ↔
        IsLocalRequest (fun _ => none) "127.0.0.1" [("host", asciiValue "localhost:8787")])) ↔
      ReadPlainly (fun _ => none) "127.0.0.1" [("host", asciiValue "localhost:8787")]) :=
  ⟨by decide +kernel, guards_exact_iff (fun _ => none) "127.0.0.1" "secret"
    [("host", asciiValue "localhost:8787")] (by decide +kernel)⟩

/-- A foreign host whose name begins like a local one is admitted, and so is a request whose origin
is not text. -/
theorem foreignHost_admitted :
    (v1AccessTokenMatches [("host", asciiValue "[::1].evil.com")] "secret" = false ∧
      v1RequestIsAllowed (fun _ => none) (.ofHost "127.0.0.1")
        [("host", asciiValue "[::1].evil.com")] "secret" = true ∧
      ¬IsLocalRequest (fun _ => none) "127.0.0.1" [("host", asciiValue "[::1].evil.com")]) ∧
    v1AccessTokenMatches [("host", asciiValue "localhost"), ("origin", [0xff])] "secret" = false ∧
      v1RequestIsAllowed (fun _ => none) (.ofHost "127.0.0.1")
        [("host", asciiValue "localhost"), ("origin", [0xff])] "secret" = true ∧
      ¬IsLocalRequest (fun _ => none) "127.0.0.1"
        [("host", asciiValue "localhost"), ("origin", [0xff])] := by
  refine ⟨⟨by decide +kernel, by decide +kernel, ?_⟩, by decide +kernel, by decide +kernel, ?_⟩
  · intro hlocal
    obtain ⟨authority, hget, hauthority⟩ := hlocal.authority
    have hhost : getStr [("host", asciiValue "[::1].evil.com")] "host" =
        some ("[::1].evil.com" : Text) := by decide +kernel
    obtain rfl := Option.some.inj (hhost.symm.trans hget)
    have hname : ("::1" : Text).toAsciiLowercase ∈ localNames := by decide
    refine (@looksLocal_brackets "::1" "].evil.com" 0 hname (by rintro _ ⟨⟩; rfl) ?_).2 hauthority
    rintro ⟨_, _, behind, hbehind, dot, port, rfl, hdot, hport⟩
    have hrest : (".evil.com" : Text) = dot ++ port := (cons.inj hbehind).2
    rcases hdot with rfl | rfl
    · rcases hport with rfl | ⟨digits, rfl, _⟩ <;> cases hrest
    · rcases hport with rfl | ⟨digits, rfl, _⟩ <;> cases hrest
  · intro hlocal
    obtain ⟨text, _, htext, _⟩ := hlocal.origins [0xff] (by decide)
    have hnone : toStr [0xff] = none := by decide
    rw [hnone] at htext
    cases htext

end CodeSeeX.Access
