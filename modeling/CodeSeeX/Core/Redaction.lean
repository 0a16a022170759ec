import CodeSeeX.Json

/-!
# Redaction of inline data URLs

The scanner of `redact_inline_data_urls` and the truncation of texts. A redacted
text holds no `data:` marker at all, so redaction is idempotent.
-/
namespace CodeSeeX.Redaction
open Text List

variable {text : Text} {c : Char}

def dataMarker : Text := "data:"

def isDataUrlTerminator (ch : Char) : Bool :=
  ch ∈ ['"', '\'', ')', ']', '}', '<', '>', '\n', '\r', '\t', ' ']

/-- 64-bit FNV-1a. -/
def stableHashHex (bytes : List UInt8) : Text :=
  hex16 (bytes.foldl (fun hash byte => (hash ^^^ byte.toUInt64) * 0x100000001b3)
    0xcbf29ce484222325)

/-- The replacement of one inline data URL. -/
def omitted (segment : Text) : Text :=
  ("[inline-data-url omitted chars=" : Text) ++ ofNat segment.length ++
    " bytes=" ++ ofNat (utf8Len segment) ++
    " hash=" ++ stableHashHex (bytes segment) ++ "]"

/-- The segment that starts at a marker: its first character and everything up to the first
terminator behind it. -/
def segmentOf : Text → Text
  | [] => []
  | ch :: rest => ch :: rest.takeWhile fun c => !isDataUrlTerminator c

def afterSegment : Text → Text
  | [] => []
  | _ :: rest => rest.dropWhile fun c => !isDataUrlTerminator c

theorem afterSegment_length_lt {t : Text} (h : t ≠ []) : (afterSegment t).length < t.length := by
  cases t with
  | nil => contradiction
  | cons ch rest =>
    have := (dropWhile_sublist (l := rest) fun c => !isDataUrlTerminator c).length_le
    simp only [afterSegment, length_cons]
    omega

def redactInlineDataUrls (text : Text) : Text :=
  match _h : Infix.splitFirst dataMarker text with
  | none => text
  | some (before, rest) =>
      before ++ omitted (segmentOf rest) ++ redactInlineDataUrls (afterSegment rest)
termination_by text.length
decreasing_by
  have happ := congrArg length (Infix.splitFirst_append _h)
  have hne : rest ≠ [] := by
    rintro rfl
    simpa [dataMarker] using Infix.splitFirst_starts _h
  have hlt := afterSegment_length_lt hne
  simp only [length_append] at happ
  omega

def truncateText (text : Text) (maxChars : ℕ) : Text :=
  let charCount := text.length
  if charCount ≤ maxChars then text
  else text.take maxChars ++ ("...[truncated chars=" : Text) ++ ofNat charCount ++
    " bytes=" ++ ofNat (utf8Len text) ++ "]"

/-! ### A redacted text holds no marker -/

/-- The inside of the replacement holds no colon, and its two ends are brackets. -/
theorem omitted_eq (segment : Text) :
    ∃ body, omitted segment = '[' :: (body ++ [']']) ∧ ':' ∉ body := by
  refine ⟨("inline-data-url omitted chars=" : Text) ++ ofNat segment.length ++
    " bytes=" ++ ofNat (utf8Len segment) ++
    " hash=" ++ stableHashHex (bytes segment), ?_, ?_⟩
  · have hopen : ("[inline-data-url omitted chars=" : Text) =
        '[' :: ("inline-data-url omitted chars=" : Text) := by decide
    have hclose : ("]" : Text) = [']'] := by decide
    simp only [omitted, hopen, hclose, cons_append, append_assoc]
  · have hchars : ':' ∉ ("inline-data-url omitted chars=" : Text) := by decide
    have hbytes : ':' ∉ (" bytes=" : Text) := by decide
    have hhash : ':' ∉ (" hash=" : Text) := by decide
    simp only [mem_append, not_or]
    exact ⟨⟨⟨⟨⟨hchars, notMem_ofNat (by decide) _⟩, hbytes⟩,
      notMem_ofNat (by decide) _⟩, hhash⟩, notMem_hex16 (by decide) _⟩

theorem marker_not_in_redacted (text : Text) :
    ¬ dataMarker <:+: redactInlineDataUrls text := by
  fun_induction redactInlineDataUrls text with
  | case1 text hnone => exact Infix.splitFirst_eq_none.mp hnone
  | case2 text before rest hsome ih =>
    obtain ⟨body, homitted, hbody⟩ := omitted_eq (segmentOf rest)
    have hbefore : ¬ dataMarker <:+: before :=
      Infix.splitFirst_not_infix (by simp [dataMarker]) hsome
    have hbody' : ¬ dataMarker <:+: body := Infix.not_infix_of_notMem (by decide) hbody
    have hshape : before ++ omitted (segmentOf rest) ++ redactInlineDataUrls (afterSegment rest) =
        before ++ '[' :: (body ++ ']' :: redactInlineDataUrls (afterSegment rest)) := by
      simp [homitted]
    rw [hshape, Infix.infix_append_cons_iff (by decide), Infix.infix_append_cons_iff (by decide)]
    simp [hbefore, hbody', ih]

theorem redactInlineDataUrls_of_not_infix (h : ¬ dataMarker <:+: text) :
    redactInlineDataUrls text = text := by
  fun_cases redactInlineDataUrls text with
  | case1 hnone => rfl
  | case2 before rest hsome => simp [Infix.splitFirst_eq_none.mpr h] at hsome

theorem redactInlineDataUrls_idempotent (text : Text) :
    redactInlineDataUrls (redactInlineDataUrls text) = redactInlineDataUrls text :=
  redactInlineDataUrls_of_not_infix (marker_not_in_redacted text)

theorem marker_not_in_truncated (h : ¬ dataMarker <:+: text) (maxChars : ℕ) :
    ¬ dataMarker <:+: truncateText text maxChars := by
  unfold truncateText
  dsimp only
  split_ifs
  · exact h
  · have htake : ¬ dataMarker <:+: text.take maxChars :=
      fun hin => h (hin.trans ( take_prefix maxChars text).isInfix)
    have hdots : ("...[truncated chars=" : Text) = '.' :: ("..[truncated chars=" : Text) := by
      decide
    have htail : ':' ∉ ("..[truncated chars=" : Text) ++ ofNat text.length ++ " bytes=" ++
        ofNat (utf8Len text) ++ "]" := by
      have hchars : ':' ∉ ("..[truncated chars=" : Text) := by decide
      have hbytes : ':' ∉ (" bytes=" : Text) := by decide
      have hclose : ':' ∉ ("]" : Text) := by decide
      simp only [mem_append, not_or]
      exact ⟨⟨⟨⟨hchars, notMem_ofNat (by decide) _⟩, hbytes⟩,
        notMem_ofNat (by decide) _⟩, hclose⟩
    have htail' := Infix.not_infix_of_notMem (by decide : ':' ∈ dataMarker) htail
    simp only [hdots, append_assoc, cons_append] at htail' ⊢
    rw [Infix.infix_append_cons_iff (by decide)]
    simp [htake, htail']

/-! ### Data URLs with a payload -/

/-- Some `data:` marker is followed by a payload, a character that does not end the URL. -/
def HasDataUrl (text : Text) : Prop :=
  ∃ c ∈ text, isDataUrlTerminator c = false ∧ dataMarker ++ [c] <:+: text

instance (text : Text) : Decidable (HasDataUrl text) :=
  decidableBEx _ _

theorem hasDataUrl_iff :
    HasDataUrl text ↔ ∃ c, isDataUrlTerminator c = false ∧ dataMarker ++ [c] <:+: text := by
  constructor
  · rintro ⟨c, _, hc, hin⟩
    exact ⟨c, hc, hin⟩
  · rintro ⟨c, hc, hin⟩
    exact ⟨c, hin.subset (by simp), hc, hin⟩

theorem not_hasDataUrl_of_not_infix (h : ¬ dataMarker <:+: text) :
    ¬ HasDataUrl text := by
  rw [hasDataUrl_iff]
  rintro ⟨c, _, hin⟩
  exact h ((prefix_append dataMarker [c]).isInfix.trans hin)

theorem not_hasDataUrl_of_colon_notMem (h : ':' ∉ text) : ¬ HasDataUrl text :=
  not_hasDataUrl_of_not_infix (Infix.not_infix_of_notMem (by decide) h)

@[simp] theorem not_hasDataUrl_redacted (text : Text) :
    ¬ HasDataUrl (redactInlineDataUrls text) :=
  not_hasDataUrl_of_not_infix (marker_not_in_redacted text)

/-- A terminator separates the data URLs on its two sides. -/
theorem hasDataUrl_append_cons {xs ys : Text} (hc : isDataUrlTerminator c = true)
    (hmarker : c ∉ dataMarker) :
    HasDataUrl (xs ++ c :: ys) ↔ HasDataUrl xs ∨ HasDataUrl ys := by
  simp only [hasDataUrl_iff]
  have hsep : ∀ p, isDataUrlTerminator p = false → c ∉ dataMarker ++ [p] := by
    intro p hp hmem
    rcases mem_append.mp hmem with hmem | hmem
    · exact hmarker hmem
    · rw [mem_singleton.mp hmem, hp] at hc
      contradiction
  constructor
  · rintro ⟨p, hp, hin⟩
    rcases (Infix.infix_append_cons_iff (hsep p hp)).mp hin with hin | hin
    · exact .inl ⟨p, hp, hin⟩
    · exact .inr ⟨p, hp, hin⟩
  · rintro (⟨p, hp, hin⟩ | ⟨p, hp, hin⟩)
    · exact ⟨p, hp, (Infix.infix_append_cons_iff (hsep p hp)).mpr (.inl hin)⟩
    · exact ⟨p, hp, (Infix.infix_append_cons_iff (hsep p hp)).mpr (.inr hin)⟩

/-- A joined text holds a data URL exactly if one of its parts does. -/
theorem hasDataUrl_join {parts : List Text} (hc : isDataUrlTerminator c = true)
    (hmarker : c ∉ dataMarker) :
    HasDataUrl (join [c] parts) ↔ ∃ part ∈ parts, HasDataUrl part := by
  have hparts : ∀ p, isDataUrlTerminator p = false →
      (dataMarker ++ [p] <:+: join [c] parts ↔ ∃ part ∈ parts, dataMarker ++ [p] <:+: part) := by
    intro p hp
    apply Infix.infix_intercalate_iff (by simp)
    intro hmem
    rcases mem_append.mp hmem with hmem | hmem
    · exact hmarker hmem
    · rw [mem_singleton.mp hmem, hp] at hc
      contradiction
  simp only [hasDataUrl_iff]
  constructor
  · rintro ⟨p, hp, hin⟩
    obtain ⟨part, hpart, hin⟩ := (hparts p hp).mp hin
    exact ⟨part, hpart, p, hp, hin⟩
  · rintro ⟨part, hpart, p, hp, hin⟩
    exact ⟨p, hp, (hparts p hp).mpr ⟨part, hpart, hin⟩⟩

/-- A label without marker in front of a text adds no data URL. -/
theorem hasDataUrl_label {label ys : Text} (hlabel : ¬ dataMarker <:+: label)
    (hc : c ∉ dataMarker) : HasDataUrl (label ++ c :: ys) ↔ HasDataUrl ys := by
  simp only [hasDataUrl_iff]
  constructor
  · rintro ⟨p, hp, a, b, hab⟩
    have hmarker : dataMarker <:+: label ++ c :: ys := ⟨a, [p] ++ b, by rw [← hab]; simp⟩
    refine ⟨p, hp, ?_⟩
    -- the marker stands before or behind `c`, and before it there is none
    have hcut : ∃ a', a = label ++ c :: a' := by
      rw [append_assoc, append_assoc] at hab
      rcases append_eq_append_iff.mp hab with ⟨m, hl, hm⟩ | ⟨m, ha, hm⟩
      · exfalso
        rcases append_eq_append_iff.mp hm with ⟨n, hn, _⟩ | ⟨n, hn, hrest⟩
        · exact hlabel (hl ▸ ⟨a, n, by rw [hn]; simp⟩)
        · cases n with
          | nil =>
            exact hlabel (hl ▸ ⟨a, [], by rw [hn]; simp⟩)
          | cons d n =>
            have hd : c = d := by simpa using congrArg head? hrest
            exact hc (by rw [hn, hd]; simp)
      · cases m with
        | nil =>
          have hchars : dataMarker = ['d', 'a', 't', 'a', ':'] := by decide
          have hd : c = 'd' := by simpa [hchars] using congrArg head? hm
          exact absurd (by simp [hchars]) (hd ▸ hc)
        | cons d m =>
          have hd : c = d := by simpa using congrArg head? hm
          exact ⟨m, by rw [ha, hd]⟩
    obtain ⟨a', rfl⟩ := hcut
    refine ⟨a', b, ?_⟩
    simpa using hab
  · rintro ⟨p, hp, hin⟩
    exact ⟨p, hp, hin.trans ⟨label ++ [c], [], by simp⟩⟩

theorem not_blank_of_hasDataUrl (h : HasDataUrl text) :
    isBlank text = false := by
  obtain ⟨c, _, hin⟩ := hasDataUrl_iff.mp h
  rw [Bool.eq_false_iff]
  intro hblank
  have hcolon : ':' ∈ text := hin.subset (mem_append_left [c] (by decide))
  have := isBlank_iff.mp hblank ':' hcolon
  revert this
  decide

end CodeSeeX.Redaction
