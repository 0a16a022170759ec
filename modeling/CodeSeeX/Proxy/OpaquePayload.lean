import CodeSeeX.General.Base64Url
import CodeSeeX.Proxy.ResponseHistory

/-!
# Opaque payloads

A payload that the client keeps is encrypted under the key of the installation and written as a
prefix and three segments: nonce, tag and ciphertext. What comes back may be any text. The reader
looks at the number of the segments and at their symbols, but not at their lengths.
-/
namespace CodeSeeX.Opaque
open Base64Url ResponseHistory List

variable {opaquePrefix : Text} {nonce tag ciphertext : Bytes} {plaintext : Bytes}

open Native (stripStart stripStart_append stripStart_eq_some)

/-! ## Outcomes -/

/-- A call returns a value or an error, or violates what a called routine demands. -/
inductive Attempt (α : Type) where
  | ok (a : α)
  | error (message : Text)
  | panic
  deriving DecidableEq

namespace Attempt
variable {α β : Type}

protected def bind (m : Attempt α) (k : α → Attempt β) : Attempt β :=
  match m with
  | ok a => k a
  | error message => error message
  | panic => panic

instance : Monad Attempt where
  pure := ok
  bind := Attempt.bind

/-- `option.context(message)?` -/
def ofOption (message : Text) : Option α → Attempt α
  | some a => ok a
  | none => error message

/-- `result?` -/
def ofExcept : Except Text α → Attempt α
  | .ok a => ok a
  | .error message => error message

@[simp] theorem ok_bind (a : α) (k : α → Attempt β) : (ok a >>= k) = k a := rfl
@[simp] theorem error_bind (message : Text) (k : α → Attempt β) :
    ((error message : Attempt α) >>= k) = error message := rfl
@[simp] theorem ofOption_some (message : Text) (a : α) : ofOption message (some a) = ok a := rfl
@[simp] theorem ofExcept_ok (a : α) : ofExcept (.ok a) = ok a := rfl

end Attempt

/-! ## The codec -/

/-- Twelve bytes, as AES-GCM takes them. -/
abbrev Nonce := { bytes : Bytes // bytes.length = 12 }
abbrev Key := { bytes : Bytes // bytes.length = 32 }
/-- The bytes of a random UUID, of which any are allowed (version 4 fixes six bits). -/
abbrev UuidBytes := { bytes : Bytes // bytes.length = 16 }

/-- `Nonce::from_slice` asserts the length. -/
def nonceFromSlice (bytes : Bytes) : Attempt Nonce :=
  if h : bytes.length = 12 then .ok ⟨bytes, h⟩ else .panic

def nonceBytes (seed : UuidBytes) : Nonce :=
  ⟨seed.1.take 12, by rw [length_take, seed.2]; rfl⟩

/-- The ciphers and readers of other crates; the secret is that of the environment or the key
file. -/
structure OpaqueCrates where
  secret : Except Text Text
  sha256 : Bytes → Key
  encrypt : Key → Nonce → Bytes → Option Bytes
  decrypt : Key → Nonce → Bytes → Option Bytes
  /-- What is said of a segment that is no base64. -/
  decodeError : Text → Text
  payloadFromSlice : Bytes → Except Text CompactionPayload
  textFromUtf8 : Bytes → Except Text Text
  /-- The text of a standard base64. -/
  standardText : Text → Option Text

/-- AES-GCM: a ciphertext is accepted exactly if it encrypts the plaintext, and is longer by the
tag. -/
structure OpaqueCrates.Correct (crates : OpaqueCrates) : Prop where
  decrypt_iff : ∀ key nonce plaintext encrypted,
    crates.decrypt key nonce encrypted = some plaintext ↔
      crates.encrypt key nonce plaintext = some encrypted
  length_encrypt : ∀ key nonce plaintext encrypted,
    crates.encrypt key nonce plaintext = some encrypted →
      encrypted.length = plaintext.length + 16

def compactionPrefix : Text := "codeseex-compaction-v1:"
def reasoningPrefix : Text := "codeseex-reasoning-v1:"

/-- A prefix and the three segments. -/
def payloadText (opaquePrefix : Text) (nonce tag ciphertext : Bytes) : Text :=
  opaquePrefix ++ (encode nonce ++ '.' :: (encode tag ++ '.' :: encode ciphertext))

section
variable (crates : OpaqueCrates)

def compactionKey : Except Text Key :=
  crates.secret.map fun secret => crates.sha256 secret.trim.bytes

def encodeOpaqueBytes (seed : UuidBytes) (opaquePrefix : Text) (plaintext : Bytes) :
    Except Text Text := do
  let key ← compactionKey crates
  let nonce := nonceBytes seed
  match crates.encrypt key nonce plaintext with
  | none => .error "failed to encrypt opaque payload: aead::Error"
  | some encrypted =>
      let tagStart := encrypted.length - 16
      return payloadText opaquePrefix nonce.1 (encrypted.drop tagStart) (encrypted.take tagStart)

/-- `URL_SAFE_NO_PAD.decode(segment)?` -/
def decodeSegment (segment : Text) : Attempt Bytes :=
  .ofOption (crates.decodeError segment) (decode segment)

def decodeOpaqueBytes (opaquePrefix value : Text) : Attempt Bytes := do
  let raw := value.trim
  let encoded ← .ofOption "not a CodeSeeX opaque payload" (stripStart opaquePrefix raw)
  match encoded.splitOn '.' with
  | [first, second, third] =>
      let nonce ← decodeSegment crates first
      let tag ← decodeSegment crates second
      let ciphertext ← decodeSegment crates third
      let key ← .ofExcept (compactionKey crates)
      let nonce ← nonceFromSlice nonce
      .ofOption "failed to decrypt opaque payload: aead::Error"
        (crates.decrypt key nonce (ciphertext ++ tag))
  | _ => .error "invalid opaque payload segment count"

def decodeOpaqueText (opaquePrefix value : Text) : Attempt Text := do
  let plaintext ← decodeOpaqueBytes crates opaquePrefix value
  .ofExcept (crates.textFromUtf8 plaintext)

def decodeCompactionPayload (value : Text) : Attempt CompactionPayload := do
  let plaintext ← decodeOpaqueBytes crates compactionPrefix value
  .ofExcept (crates.payloadFromSlice plaintext)

def decodeReasoningContent (value : Text) : Attempt (Option Text) :=
  match decodeOpaqueText crates reasoningPrefix value with
  | .ok text => .ok (some text)
  | .error _ => .ok (crates.standardText value.trim)
  | .panic => .panic

/-- What is replayed of a payload that cannot be decoded. -/
def visibleFallback (item : Value) (error : Text) : CompactionReplay :=
  { text := formatCompactionContext (undecodedCompactionText error
      ((visibleCompactionText item).getD "No visible compact summary was available."))
    toolFacts := [] }

def compactionReplayFromItem (item : Value) : Attempt (Option CompactionReplay) :=
  if item.getStr "type" ≠ some ("compaction" : Text) then .ok none
  else match item.getStr "encrypted_content" with
    | some encryptedContent =>
        match decodeCompactionPayload crates encryptedContent with
        | .ok payload =>
            .ok (some { text := formatCompactionContext (renderCompactionPayload payload)
                        toolFacts := payload.toolFacts })
        | .error error => .ok (some (visibleFallback item error))
        | .panic => .panic
    | none =>
        .ok ((visibleCompactionText item).map fun text =>
          { text := formatCompactionContext text, toolFacts := [] })

end

/-! ## Segments -/

theorem dot_notMem_encode (bytes : Bytes) : '.' ∉ encode bytes := by
  intro h
  have hdot : '.' ∉ alphabet := by decide +kernel
  exact hdot (mem_alphabet_of_encode h)

theorem isWhitespace_of_mem_encode {bytes : Bytes} {c : Char} (h : c ∈ encode bytes) :
    Text.isWhitespace c = false := by
  have hall : alphabet.all (fun c => !Text.isWhitespace c) = true := by decide +kernel
  have hc := all_eq_true.mp hall c (mem_alphabet_of_encode h)
  rwa [Bool.not_eq_true'] at hc

/-- The segments of a payload are found. -/
theorem splitOn_segments (nonce tag ciphertext : Bytes) :
    splitOn '.' (encode nonce ++ '.' :: (encode tag ++ '.' :: encode ciphertext)) =
      [encode nonce, encode tag, encode ciphertext] := by
  have hjoin : encode nonce ++ '.' :: (encode tag ++ '.' :: encode ciphertext) =
      ['.'].intercalate [encode nonce, encode tag, encode ciphertext] := by
    simp [intercalate]
  rw [hjoin]
  refine splitOn_intercalate '.' (fun segment hsegment => ?_) (by simp)
  simp only [mem_cons, not_mem_nil, or_false] at hsegment
  rcases hsegment with rfl | rfl | rfl
  · exact dot_notMem_encode nonce
  · exact dot_notMem_encode tag
  · exact dot_notMem_encode ciphertext

/-- Three segments are joined by the dots between them. -/
theorem eq_of_splitOn {encoded first second third : Text}
    (h : encoded.splitOn '.' = [first, second, third]) :
    encoded = first ++ '.' :: (second ++ '.' :: third) := by
  have hjoin : ['.'].intercalate (encoded.splitOn '.') = encoded := intercalate_splitOn '.'
  rw [h] at hjoin
  rw [← hjoin]
  simp [intercalate]

theorem payloadText_injective {nonce' tag' ciphertext' : Bytes}
    (h : payloadText opaquePrefix nonce tag ciphertext =
      payloadText opaquePrefix nonce' tag' ciphertext') :
    nonce = nonce' ∧ tag = tag' ∧ ciphertext = ciphertext' := by
  have hsplit := congrArg (splitOn '.') (append_cancel_left h)
  rw [splitOn_segments, splitOn_segments] at hsplit
  simp only [cons.injEq, and_true] at hsplit
  exact ⟨encode_injective hsplit.1, encode_injective hsplit.2.1, encode_injective hsplit.2.2⟩

/-- A payload stands within no blanks if its prefix does not begin with one. -/
theorem trim_payloadText (hhead : ∀ c ∈ opaquePrefix.head?, Text.isWhitespace c = false)
    (nonce tag ciphertext : Bytes) :
    (payloadText opaquePrefix nonce tag ciphertext).trim =
      payloadText opaquePrefix nonce tag ciphertext := by
  have hdot : Text.isWhitespace '.' = false := by decide
  refine (Text.trim_of_ends (fun c hc => ?_) fun c hc => ?_).2
  · rw [payloadText] at hc
    cases opaquePrefix with
    | cons d opaquePrefix => exact hhead c hc
    | nil =>
      cases hnonce : encode nonce with
      | nil =>
        rw [hnonce] at hc
        obtain rfl : '.' = c := Option.some.inj hc
        exact hdot
      | cons d rest =>
        rw [hnonce] at hc
        obtain rfl : d = c := Option.some.inj hc
        exact isWhitespace_of_mem_encode (hnonce ▸ mem_cons_self)
  · have hlast : (payloadText opaquePrefix nonce tag ciphertext).getLast? =
        ('.' :: encode ciphertext).getLast? := by
      rw [payloadText, ← append_assoc, ← cons_append, ← append_assoc]
      exact getLast?_append_of_ne_nil _ (cons_ne_nil _ _)
    rw [hlast] at hc
    cases mem_cons.mp (mem_of_getLast? hc) with
    | inl heq => exact heq ▸ hdot
    | inr hmem => exact isWhitespace_of_mem_encode hmem

/-! ## Reading a payload -/

section
variable {crates : OpaqueCrates} {opaquePrefix value : Text}

/-- A payload of the right shape comes down to the key and the cipher. -/
theorem decodeSegment_encode (bytes : Bytes) : decodeSegment crates (encode bytes) = .ok bytes := by
  rw [decodeSegment, decode_encode]
  rfl

theorem decode_of_payloadText (h : value.trim = payloadText opaquePrefix nonce tag ciphertext) :
    decodeOpaqueBytes crates opaquePrefix value = (do
      let key ← .ofExcept (compactionKey crates)
      let nonce ← nonceFromSlice nonce
      .ofOption "failed to decrypt opaque payload: aead::Error"
        (crates.decrypt key nonce (ciphertext ++ tag))) := by
  simp only [decodeOpaqueBytes, h, payloadText, stripStart_append, Attempt.ofOption_some,
    Attempt.ok_bind, splitOn_segments, decodeSegment_encode]

/-- What is no payload of the right shape is an error. -/
theorem payloadText_of_decode
    (h : ∀ error, decodeOpaqueBytes crates opaquePrefix value ≠ .error error) :
    ∃ nonce tag ciphertext, value.trim = payloadText opaquePrefix nonce tag ciphertext := by
  have hsegment : ∀ segment, (∃ bytes, segment = encode bytes) ∨
      ∃ error, decodeSegment crates segment = .error error := by
    intro segment
    cases hdecode : decode segment with
    | some bytes => exact Or.inl ⟨bytes, (encode_of_decode hdecode).symm⟩
    | none => exact Or.inr ⟨_, by rw [decodeSegment, hdecode]; rfl⟩
  rw [decodeOpaqueBytes] at h
  cases hstrip : stripStart opaquePrefix value.trim with
  | none =>
    rw [hstrip] at h
    exact absurd rfl (h _)
  | some encoded =>
    simp only [hstrip, Attempt.ofOption_some, Attempt.ok_bind] at h
    split at h
    · rename_i first second third hsplit
      rcases hsegment first with ⟨nonce, rfl⟩ | ⟨error, herror⟩
      · rcases hsegment second with ⟨tag, rfl⟩ | ⟨error, herror⟩
        · rcases hsegment third with ⟨ciphertext, rfl⟩ | ⟨error, herror⟩
          · refine ⟨nonce, tag, ciphertext, ?_⟩
            rw [stripStart_eq_some hstrip, eq_of_splitOn hsplit]
            rfl
          · simp only [decodeSegment_encode, herror, Attempt.ok_bind, Attempt.error_bind] at h
            exact absurd rfl (h error)
        · simp only [decodeSegment_encode, herror, Attempt.ok_bind, Attempt.error_bind] at h
          exact absurd rfl (h error)
      · simp only [herror, Attempt.error_bind] at h
        exact absurd rfl (h error)
    · exact absurd rfl (h _)

theorem key_of_decode
    (h : ∀ error, decodeOpaqueBytes crates opaquePrefix value ≠ .error error) :
    ∃ key nonce tag ciphertext, compactionKey crates = .ok key ∧
      value.trim = payloadText opaquePrefix nonce tag ciphertext := by
  obtain ⟨nonce, tag, ciphertext, hvalue⟩ := payloadText_of_decode h
  rw [decode_of_payloadText hvalue] at h
  cases hkey : compactionKey crates with
  | error error =>
    rw [hkey] at h
    exact absurd rfl (h error)
  | ok key => exact ⟨key, nonce, tag, ciphertext, rfl, hvalue⟩

/-- A payload whose nonce has another length makes the reader panic. -/
theorem decode_eq_panic_iff : decodeOpaqueBytes crates opaquePrefix value = .panic ↔
    ∃ key nonce tag ciphertext, compactionKey crates = .ok key ∧
      value.trim = payloadText opaquePrefix nonce tag ciphertext ∧ nonce.length ≠ 12 := by
  constructor
  · intro h
    obtain ⟨key, nonce, tag, ciphertext, hkey, hvalue⟩ :=
      @key_of_decode crates opaquePrefix value (by rw [h]; nofun)
    refine ⟨key, nonce, tag, ciphertext, hkey, hvalue, fun hlength => ?_⟩
    rw [decode_of_payloadText hvalue, hkey, Attempt.ofExcept_ok, Attempt.ok_bind, nonceFromSlice,
      dif_pos hlength, Attempt.ok_bind] at h
    cases hdecrypt : crates.decrypt key ⟨nonce, hlength⟩ (ciphertext ++ tag) with
    | none =>
      rw [hdecrypt] at h
      cases h
    | some plaintext =>
      rw [hdecrypt] at h
      cases h
  · rintro ⟨key, nonce, tag, ciphertext, hkey, hvalue, hlength⟩
    rw [decode_of_payloadText hvalue, hkey, Attempt.ofExcept_ok, Attempt.ok_bind, nonceFromSlice,
      dif_neg hlength]
    rfl

/-- A payload is read if its parts are what the cipher accepts. -/
theorem decode_eq_ok_iff :
    decodeOpaqueBytes crates opaquePrefix value = .ok plaintext ↔
    ∃ (key : Key) (nonce : Nonce) (tag ciphertext : Bytes), compactionKey crates = .ok key ∧
      value.trim = payloadText opaquePrefix nonce.1 tag ciphertext ∧
      crates.decrypt key nonce (ciphertext ++ tag) = some plaintext := by
  constructor
  · intro h
    obtain ⟨key, nonce, tag, ciphertext, hkey, hvalue⟩ :=
      @key_of_decode crates opaquePrefix value (by rw [h]; nofun)
    rw [decode_of_payloadText hvalue, hkey, Attempt.ofExcept_ok, Attempt.ok_bind,
      nonceFromSlice] at h
    split_ifs at h with hlength
    · rw [Attempt.ok_bind] at h
      cases hdecrypt : crates.decrypt key ⟨nonce, hlength⟩ (ciphertext ++ tag) with
      | none =>
        rw [hdecrypt] at h
        cases h
      | some read =>
        rw [hdecrypt] at h
        cases h
        exact ⟨key, ⟨nonce, hlength⟩, tag, ciphertext, hkey, hvalue, hdecrypt⟩
    · cases h
  · rintro ⟨key, nonce, tag, ciphertext, hkey, hvalue, hdecrypt⟩
    rw [decode_of_payloadText hvalue, hkey, Attempt.ofExcept_ok, Attempt.ok_bind, nonceFromSlice,
      dif_pos nonce.2, Attempt.ok_bind, hdecrypt]
    rfl

/-! ## Writing a payload -/

/-- What is written has a tag of sixteen bytes, the end of what the cipher returns. -/
theorem encode_eq_ok_iff (h : crates.Correct) {seed : UuidBytes} :
    encodeOpaqueBytes crates seed opaquePrefix plaintext = .ok value ↔
    ∃ key tag ciphertext, compactionKey crates = .ok key ∧ tag.length = 16 ∧
      crates.encrypt key (nonceBytes seed) plaintext = some (ciphertext ++ tag) ∧
      value = payloadText opaquePrefix (nonceBytes seed).1 tag ciphertext := by
  rw [encodeOpaqueBytes]
  cases hkey : compactionKey crates with
  | error error =>
    constructor
    · nofun
    · rintro ⟨key, tag, ciphertext, hok, _⟩
      cases hok
  | ok key =>
    show (match crates.encrypt key (nonceBytes seed) plaintext with
      | none => Except.error _
      | some encrypted => _) = _ ↔ _
    cases hencrypt : crates.encrypt key (nonceBytes seed) plaintext with
    | none =>
      constructor
      · nofun
      · rintro ⟨other, tag, ciphertext, hother, _, hsome, _⟩
        obtain rfl := Except.ok.inj hother
        rw [hencrypt] at hsome
        cases hsome
    | some encrypted =>
      have hlength := h.length_encrypt _ _ _ _ hencrypt
      constructor
      · intro heq
        refine ⟨key, _, _, rfl, ?_, ?_, (Except.ok.inj heq).symm⟩
        · rw [length_drop]
          omega
        · rw [hencrypt, take_append_drop]
      · rintro ⟨other, tag, ciphertext, hother, htag, hsome, rfl⟩
        obtain rfl := Except.ok.inj hother
        obtain rfl := Option.some.inj (hencrypt.symm.trans hsome)
        have hstart : (ciphertext ++ tag).length - 16 = ciphertext.length := by
          rw [length_append]
          omega
        show Except.ok _ = _
        rw [hstart, drop_left, take_left]

theorem exists_seed (nonce : Nonce) : ∃ seed, nonceBytes seed = nonce := by
  refine ⟨⟨nonce.1 ++ [0, 0, 0, 0], by rw [length_append, nonce.2]; rfl⟩, ?_⟩
  apply Subtype.ext
  show (nonce.1 ++ [0, 0, 0, 0]).take 12 = nonce.1
  exact take_left' nonce.2

end

/-! ## The codec as a whole -/

section
variable (crates : OpaqueCrates) (opaquePrefix value : Text)

/-- A text that the installation has written. -/
def IsEncoding : Prop :=
  ∃ seed plaintext, encodeOpaqueBytes crates seed opaquePrefix plaintext = .ok value

/-- Reading undoes writing, and every other text is an error; then the visible summary is
replayed and a reasoning is taken for a standard base64. -/
structure ReadsItsOwn : Prop where
  undone : ∀ seed plaintext, encodeOpaqueBytes crates seed opaquePrefix plaintext = .ok value →
    decodeOpaqueBytes crates opaquePrefix value = .ok plaintext
  refused : ¬IsEncoding crates opaquePrefix value →
    ∃ error, decodeOpaqueBytes crates opaquePrefix value = .error error
  fallsBack : opaquePrefix = compactionPrefix → ¬IsEncoding crates opaquePrefix value →
    ∀ item : Value, item.getStr "type" = some ("compaction" : Text) →
      item.getStr "encrypted_content" = some value →
        ∃ error, compactionReplayFromItem crates item = .ok (some (visibleFallback item error))
  reasoning : opaquePrefix = reasoningPrefix → ¬IsEncoding crates opaquePrefix value →
    decodeReasoningContent crates value = .ok (crates.standardText value.trim)

/-- The texts of the right shape that are treated in another way. -/
inductive IsMisdecoded : Prop where
  /-- The nonce has another length. -/
  | nonce {key : Key} {nonce tag ciphertext : Bytes} : compactionKey crates = .ok key →
      value.trim = payloadText opaquePrefix nonce tag ciphertext → nonce.length ≠ 12 → IsMisdecoded
  /-- A true encryption whose tag is cut off at another place, or that stands within blanks. -/
  | cut {key : Key} {nonce : Nonce} {plaintext tag ciphertext : Bytes} :
      compactionKey crates = .ok key →
      value.trim = payloadText opaquePrefix nonce.1 tag ciphertext →
      crates.encrypt key nonce plaintext = some (ciphertext ++ tag) →
      tag.length ≠ 16 ∨ value.trim ≠ value → IsMisdecoded

variable {crates opaquePrefix value}

theorem decode_of_encode (h : crates.Correct)
    (hhead : ∀ c ∈ opaquePrefix.head?, Text.isWhitespace c = false) {seed : UuidBytes}
    (hencode : encodeOpaqueBytes crates seed opaquePrefix plaintext = .ok value) :
    decodeOpaqueBytes crates opaquePrefix value = .ok plaintext := by
  obtain ⟨key, tag, ciphertext, hkey, _, hencrypt, rfl⟩ := (encode_eq_ok_iff h).mp hencode
  exact decode_eq_ok_iff.mpr ⟨key, nonceBytes seed, tag, ciphertext, hkey,
    trim_payloadText hhead .., (h.decrypt_iff ..).mpr hencrypt⟩

/-- A text that is no encoding is an error unless it is one of the misread ones. -/
theorem error_of_not_misdecoded (h : crates.Correct)
    (hplain : ¬IsMisdecoded crates opaquePrefix value)
    (hother : ¬IsEncoding crates opaquePrefix value) :
    ∃ error, decodeOpaqueBytes crates opaquePrefix value = .error error := by
  cases hdecode : decodeOpaqueBytes crates opaquePrefix value with
  | error error => exact ⟨error, rfl⟩
  | panic =>
    obtain ⟨key, nonce, tag, ciphertext, hkey, hvalue, hlength⟩ := decode_eq_panic_iff.mp hdecode
    exact absurd (.nonce hkey hvalue hlength) hplain
  | ok plaintext =>
    obtain ⟨key, nonce, tag, ciphertext, hkey, hvalue, hdecrypt⟩ := decode_eq_ok_iff.mp hdecode
    have hencrypt := (h.decrypt_iff ..).mp hdecrypt
    refine absurd ?_ hother
    have hcut : ¬(tag.length ≠ 16 ∨ value.trim ≠ value) :=
      fun hcut => hplain (.cut hkey hvalue hencrypt hcut)
    rw [not_or, not_not, not_not] at hcut
    obtain ⟨seed, rfl⟩ := exists_seed nonce
    exact ⟨seed, plaintext, (encode_eq_ok_iff h).mpr
      ⟨key, tag, ciphertext, hkey, hcut.1, hencrypt, hcut.2.symm.trans hvalue⟩⟩

section
variable (h : crates.Correct) (hhead : ∀ c ∈ opaquePrefix.head?, Text.isWhitespace c = false)
include h hhead

theorem readsItsOwn_of_not_misdecoded (hplain : ¬IsMisdecoded crates opaquePrefix value) :
    ReadsItsOwn crates opaquePrefix value where
  undone := fun _ _ hencode => decode_of_encode h hhead hencode
  refused := error_of_not_misdecoded h hplain
  fallsBack := by
    rintro rfl hother item htype hcontent
    obtain ⟨error, herror⟩ := error_of_not_misdecoded h hplain hother
    refine ⟨error, ?_⟩
    have hpayload : decodeCompactionPayload crates value = .error error := by
      rw [decodeCompactionPayload, herror, Attempt.error_bind]
    simp only [compactionReplayFromItem, htype, hcontent, hpayload, ne_eq, not_true_eq_false,
      if_false]
  reasoning := by
    rintro rfl hother
    obtain ⟨error, herror⟩ := error_of_not_misdecoded h hplain hother
    rw [decodeReasoningContent, decodeOpaqueText, herror, Attempt.error_bind]

/-- What is written has a tag of sixteen bytes and no blanks around it. -/
theorem not_cut_of_isEncoding (hencoding : IsEncoding crates opaquePrefix value)
    (hvalue : value.trim = payloadText opaquePrefix nonce tag ciphertext) :
    tag.length = 16 ∧ value.trim = value := by
  obtain ⟨seed, plaintext, hencode⟩ := hencoding
  obtain ⟨key, tag', ciphertext', _, htag, _, rfl⟩ := (encode_eq_ok_iff h).mp hencode
  have htrim := trim_payloadText hhead (nonceBytes seed).1 tag' ciphertext'
  rw [htrim] at hvalue
  obtain ⟨_, rfl, _⟩ := payloadText_injective hvalue
  exact ⟨htag, htrim⟩

end

theorem not_readsItsOwn_of_panic (h : decodeOpaqueBytes crates opaquePrefix value = .panic) :
    ¬ReadsItsOwn crates opaquePrefix value := by
  intro hreads
  by_cases hencoding : IsEncoding crates opaquePrefix value
  · obtain ⟨seed, plaintext, hencode⟩ := hencoding
    have hok := hreads.undone seed plaintext hencode
    rw [h] at hok
    cases hok
  · obtain ⟨error, herror⟩ := hreads.refused hencoding
    rw [h] at herror
    cases herror

theorem not_readsItsOwn_of_misdecoded (h : crates.Correct)
    (hhead : ∀ c ∈ opaquePrefix.head?, Text.isWhitespace c = false)
    (hmis : IsMisdecoded crates opaquePrefix value) : ¬ReadsItsOwn crates opaquePrefix value := by
  cases hmis with
  | nonce hkey hvalue hlength =>
    exact not_readsItsOwn_of_panic
      (decode_eq_panic_iff.mpr ⟨_, _, _, _, hkey, hvalue, hlength⟩)
  | cut hkey hvalue hencrypt hcut =>
    intro hreads
    by_cases hencoding : IsEncoding crates opaquePrefix value
    · obtain ⟨htag, htrim⟩ := not_cut_of_isEncoding h hhead hencoding hvalue
      cases hcut with
      | inl hother => exact hother htag
      | inr hother => exact hother htrim
    · obtain ⟨error, herror⟩ := hreads.refused hencoding
      have hok := decode_eq_ok_iff.mpr
        ⟨_, _, _, _, hkey, hvalue, (h.decrypt_iff ..).mpr hencrypt⟩
      rw [herror] at hok
      cases hok

/-- The reader reads its own exactly if the text is none of the misread ones. -/
theorem readsItsOwn_iff (crates : OpaqueCrates) (opaquePrefix value : Text) (h : crates.Correct)
    (hhead : ∀ c ∈ opaquePrefix.head?, Text.isWhitespace c = false) :
    ReadsItsOwn crates opaquePrefix value ↔ ¬IsMisdecoded crates opaquePrefix value :=
  ⟨fun hreads hmis => not_readsItsOwn_of_misdecoded h hhead hmis hreads,
    readsItsOwn_of_not_misdecoded h hhead⟩

end

/-! ## A nonce of three bytes -/

/-- A cipher that only appends a tag. -/
def plainCrates : OpaqueCrates where
  secret := .ok "codeseex"
  sha256 := fun _ => ⟨replicate 32 0, rfl⟩
  encrypt := fun _ _ plaintext => some (plaintext ++ replicate 16 0)
  decrypt := fun _ _ encrypted =>
    if replicate 16 0 <:+ encrypted then some (encrypted.take (encrypted.length - 16)) else none
  decodeError := fun _ => "Invalid input"
  payloadFromSlice := fun _ => .error "expected value at line 1 column 1"
  textFromUtf8 := fun _ => .error "invalid utf-8 sequence"
  standardText := fun _ => none

theorem plainCrates_correct : plainCrates.Correct where
  decrypt_iff := by
    intro key nonce plaintext encrypted
    show (if _ then _ else _) = _ ↔ some _ = _
    rw [Option.ite_none_right_eq_some, Option.some.injEq, Option.some.injEq]
    constructor
    · rintro ⟨⟨front, rfl⟩, hfront⟩
      rw [length_append, length_replicate, Nat.add_sub_cancel, take_left] at hfront
      rw [hfront]
    · rintro rfl
      refine ⟨suffix_append _ _, ?_⟩
      rw [length_append, length_replicate, Nat.add_sub_cancel, take_left]
  length_encrypt := by
    intro key nonce plaintext encrypted h
    obtain rfl := Option.some.inj h
    rw [length_append, length_replicate]

theorem readsItsOwn_threeBytes :
    ReadsItsOwn plainCrates compactionPrefix "codeseex-compaction-v1:AAAA.AAAA.AAAA" ↔
      ¬IsMisdecoded plainCrates compactionPrefix "codeseex-compaction-v1:AAAA.AAAA.AAAA" :=
  readsItsOwn_iff plainCrates compactionPrefix "codeseex-compaction-v1:AAAA.AAAA.AAAA"
    plainCrates_correct (by rintro _ ⟨⟩; decide)

/-- The three segments are base64, the first of three bytes only. -/
theorem threeBytes_panic :
    decodeOpaqueBytes plainCrates compactionPrefix "codeseex-compaction-v1:AAAA.AAAA.AAAA" =
        .panic ∧
      ¬ReadsItsOwn plainCrates compactionPrefix "codeseex-compaction-v1:AAAA.AAAA.AAAA" := by
  have hpanic : decodeOpaqueBytes plainCrates compactionPrefix
      "codeseex-compaction-v1:AAAA.AAAA.AAAA" = .panic := by decide +kernel
  exact ⟨hpanic, not_readsItsOwn_of_panic hpanic⟩

end CodeSeeX.Opaque
