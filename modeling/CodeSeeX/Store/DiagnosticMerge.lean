import CodeSeeX.Store.Memory

/-!
# Diagnostics that are merged again

A merge copies the stored diagnostic through `memory_json_value` once more. The copy of a
copy is the copy itself for the values of `settled`, and a field outlives later merges
exactly if its value is one of them.
-/
namespace CodeSeeX.Store
open List Text

variable {value : Text} (values : List Value) {items : List Value} (fields : List (Text × Value))
  {key : Text} {next existing : List (Text × Value)}

section Crates
variable (crates : StoreCrates)

/-! ## Texts -/

/-- What `truncate_chars_with_hash` writes behind the kept characters. -/
def omissionMarker (value : Text) (maxChars : ℕ) : Text :=
  ("\n[CodeSeeX omitted " : Text) ++ ofNat (value.length - maxChars) ++
    (" chars; hash=" : Text) ++ stableHashHex crates (bytes value) ++ ("]" : Text)

/-- A short text, a data URL, or a text that is over the limit by the length of its marker and
whose cut form happens to have the same hash. The digits of a length of 64 bits always fit. -/
def settledText (value : Text) : Bool :=
  if looksLikeInlineDataUrl value then
    (ofNat value.length).length + 66 ≤ maxMemoryStringChars
  else value.length ≤ maxMemoryStringChars ∨
    ((omissionMarker crates value maxMemoryStringChars).length =
        value.length - maxMemoryStringChars ∧
      stableHashHex crates (bytes (value.take maxMemoryStringChars ++
        omissionMarker crates value maxMemoryStringChars)) =
          stableHashHex crates (bytes value))

/-- The items that an array keeps have to be settled; a cut array is its own copy only if one
item was left out, as the notice of its copy says. -/
def keptVerdicts (verdicts : List Bool) : Bool :=
  if verdicts.length ≤ maxMemoryArrayItems then verdicts.all id
  else (verdicts.length - maxMemoryArrayItems) % 2 ^ 64 = 1 ∧
    (verdicts.take (maxMemoryArrayItems / 2)).all id ∧
      (verdicts.drop (verdicts.length - maxMemoryArrayItems / 2)).all id

mutual
/-- The values whose copy is copied to itself. -/
def settled : Value → Bool
  | .string value => settledText crates value
  | .array values => keptVerdicts (settledItems values)
  | .object fields => settledFields fields
  | _ => true

def settledItems : List Value → List Bool
  | [] => []
  | value :: values => settled value :: settledItems values

def settledFields : List (Text × Value) → Bool
  | [] => true
  | (_, value) :: fields => settled value && settledFields fields
end

variable {crates}

theorem truncateCharsWithHash_long {maxChars : ℕ} (h : maxChars < value.length) :
    truncateCharsWithHash crates value maxChars =
      value.take maxChars ++ omissionMarker crates value maxChars := by
  rw [truncateCharsWithHash, if_neg (not_le.mpr h), omissionMarker]
  simp only [append_assoc]

@[simp] theorem stableHashHex_length (bytes : List UInt8) :
    (stableHashHex crates bytes).length = 16 := by
  simp [stableHashHex, hex16]

/-- A text without a colon is no data URL. -/
theorem not_dataUrl_of_colon (h : ':' ∉ value) :
    looksLikeInlineDataUrl value = false := by
  have hlower : ':' ∉ value.toAsciiLowercase := by
    intro hc
    obtain ⟨c, hmem, hc⟩ := mem_map.mp hc
    exact h (eq_of_toLower (by decide) hc ▸ hmem)
  have hdata : contains value.toAsciiLowercase "data:" = false :=
    decide_eq_false (Infix.not_infix_of_notMem (by decide) hlower)
  simp [looksLikeInlineDataUrl, hdata]

theorem not_dataUrl_redacted (value : Text) :
    looksLikeInlineDataUrl (redactedDataUrl crates value) = false := by
  apply not_dataUrl_of_colon
  have hopen : ':' ∉ ("[redacted inline data url; original_chars=" : Text) := by decide
  have hhash : ':' ∉ ("; hash=" : Text) := by decide
  have hclose : ':' ∉ ("]" : Text) := by decide
  simp only [redactedDataUrl, mem_append, not_or]
  exact ⟨⟨⟨⟨hopen, notMem_ofNat (by decide) _⟩, hhash⟩, notMem_hex16 (by decide) _⟩, hclose⟩

theorem redactedDataUrl_length (value : Text) :
    (redactedDataUrl crates value).length = (ofNat value.length).length + 66 := by
  simp only [redactedDataUrl, length_append, stableHashHex_length]
  have hopen : ("[redacted inline data url; original_chars=" : Text).length = 42 := by decide
  have hhash : ("; hash=" : Text).length = 7 := by decide
  have hclose : ("]" : Text).length = 1 := by decide
  omega

theorem omissionMarker_eq_iff (value other : Text) (maxChars : ℕ) :
    omissionMarker crates value maxChars = omissionMarker crates other maxChars ↔
      value.length - maxChars = other.length - maxChars ∧
        stableHashHex crates (bytes value) = stableHashHex crates (bytes other) := by
  constructor
  · intro h
    have hdigits : (ofNat (value.length - maxChars)).length =
        (ofNat (other.length - maxChars)).length := by
      have hlengths := congrArg length h
      simp only [omissionMarker, length_append, stableHashHex_length] at hlengths
      omega
    simp only [omissionMarker, append_assoc, append_cancel_left_eq] at h
    obtain ⟨hcount, hrest⟩ := append_inj h hdigits
    rw [append_cancel_left_eq, append_cancel_right_eq] at hrest
    exact ⟨ofNat_injective hcount, hrest⟩
  · rintro ⟨hcount, hhash⟩
    simp only [omissionMarker, hcount, hhash]

/-- A mark that is neither in the marker nor the line feed in front of it is in the kept part. -/
theorem infix_take_of_cut {value pat : Text} {maxChars : ℕ} {c : Char} (hfeed : '\n' ∉ pat)
    (hc : c ∈ pat) (hlow : c.toNat < 65) (hdigit : c.isDigit = false)
    (hhex : ∀ k < 16, Nat.digitChar k ≠ c) (hopen : c ∉ ("[CodeSeeX omitted " : Text))
    (hhash : c ∉ (" chars; hash=" : Text)) (hclose : c ∉ ("]" : Text))
    (h : pat <:+: toAsciiLowercase (value.take maxChars ++
      omissionMarker crates value maxChars)) :
    pat <:+: value.toAsciiLowercase := by
  let body : Text := ("[CodeSeeX omitted " : Text) ++ ofNat (value.length - maxChars) ++
    (" chars; hash=" : Text) ++ stableHashHex crates (bytes value) ++ ("]" : Text)
  have hmarker : omissionMarker crates value maxChars = '\n' :: body := by
    have hstart : ("\n[CodeSeeX omitted " : Text) = '\n' :: ("[CodeSeeX omitted " : Text) := by
      decide
    simp only [omissionMarker, body, hstart, cons_append]
  have hbody : c ∉ body := by
    simp only [body, mem_append, not_or]
    exact ⟨⟨⟨⟨hopen, notMem_ofNat hdigit _⟩, hhash⟩, notMem_hex16 hhex _⟩, hclose⟩
  have hlower : c ∉ body.toAsciiLowercase := by
    intro hmem
    obtain ⟨d, hd, hdc⟩ := mem_map.mp hmem
    exact hbody (eq_of_toLower (by omega) hdc ▸ hd)
  have hfeedLower : Char.toLower '\n' = '\n' := by decide
  rw [hmarker, toAsciiLowercase, map_append, map_cons, hfeedLower,
    Infix.infix_append_cons_iff hfeed] at h
  rcases h with h | h
  · exact h.trans (( take_prefix maxChars value).map Char.toLower).isInfix
  · exact absurd h (Infix.not_infix_of_notMem hc hlower)

section
variable {value : Text} (h : looksLikeInlineDataUrl value = false)
include h

/-- The line feed of the marker separates the marks of a data URL from it. -/
theorem not_dataUrl_cut (maxChars : ℕ) :
    looksLikeInlineDataUrl (value.take maxChars ++ omissionMarker crates value maxChars) =
      false := by
  by_contra hlooks
  rw [Bool.not_eq_false] at hlooks
  have hboth := of_decide_eq_true hlooks
  have hdata := @infix_take_of_cut crates value "data:" maxChars ':' (by decide) (by decide)
    (by decide) (by decide) (by decide) (by decide) (by decide) (by decide)
    (of_decide_eq_true hboth.1)
  have hbase := @infix_take_of_cut crates value ";base64," maxChars ',' (by decide) (by decide)
    (by decide) (by decide) (by decide) (by decide) (by decide) (by decide)
    (of_decide_eq_true hboth.2)
  have hvalue : looksLikeInlineDataUrl value = true :=
    decide_eq_true ⟨decide_eq_true hdata, decide_eq_true hbase⟩
  rw [h] at hvalue
  exact absurd hvalue (by decide)

theorem sanitize_short (hshort : value.length ≤ maxMemoryStringChars) :
    sanitizeMemoryString crates value = value := by
  rw [sanitizeMemoryString, h, if_neg Bool.false_ne_true, truncateCharsWithHash, if_pos hshort]

theorem sanitize_long (hlong : maxMemoryStringChars < value.length) :
    sanitizeMemoryString crates value = value.take maxMemoryStringChars ++
      omissionMarker crates value maxMemoryStringChars := by
  rw [sanitizeMemoryString, h, if_neg Bool.false_ne_true, truncateCharsWithHash_long hlong]

end

theorem sanitize_dataUrl_iff (value : Text) :
    sanitizeMemoryString crates (redactedDataUrl crates value) = redactedDataUrl crates value ↔
      (ofNat value.length).length + 66 ≤ maxMemoryStringChars := by
  have hlooks := @not_dataUrl_redacted crates value
  rw [← @redactedDataUrl_length crates value]
  constructor
  · intro hfixed
    by_contra hlong
    rw [sanitize_long hlooks (not_le.mp hlong)] at hfixed
    have hlength := congrArg length hfixed
    have hmarker : (omissionMarker crates (redactedDataUrl crates value)
        maxMemoryStringChars).length ≤ (redactedDataUrl crates value).length -
          maxMemoryStringChars := by
      rw [length_append, length_take] at hlength
      omega
    have hfeed : '\n' ∈ omissionMarker crates (redactedDataUrl crates value)
        maxMemoryStringChars := by
      have hstart : '\n' ∈ ("\n[CodeSeeX omitted " : Text) := by decide
      simp only [omissionMarker, mem_append]
      exact .inl (.inl (.inl (.inl hstart)))
    have hnone : '\n' ∉ redactedDataUrl crates value := by
      have hopen : '\n' ∉ ("[redacted inline data url; original_chars=" : Text) := by decide
      have hhash : '\n' ∉ ("; hash=" : Text) := by decide
      have hclose : '\n' ∉ ("]" : Text) := by decide
      simp only [redactedDataUrl, mem_append, not_or]
      exact ⟨⟨⟨⟨hopen, notMem_ofNat (by decide) _⟩, hhash⟩,
        notMem_hex16 (by decide) _⟩, hclose⟩
    apply hnone
    rw [← hfixed]
    exact mem_append_right _ hfeed
  · intro hshort
    exact sanitize_short hlooks hshort

theorem sanitize_cut_iff (h : looksLikeInlineDataUrl value = false)
    (hlong : maxMemoryStringChars < value.length) :
    sanitizeMemoryString crates (value.take maxMemoryStringChars ++
        omissionMarker crates value maxMemoryStringChars) =
      value.take maxMemoryStringChars ++ omissionMarker crates value maxMemoryStringChars ↔
    (omissionMarker crates value maxMemoryStringChars).length =
        value.length - maxMemoryStringChars ∧
      stableHashHex crates (bytes (value.take maxMemoryStringChars ++
        omissionMarker crates value maxMemoryStringChars)) =
          stableHashHex crates (bytes value) := by
  have htake : (value.take maxMemoryStringChars).length = maxMemoryStringChars := by
    rw [length_take]
    omega
  have hmarker : 0 < (omissionMarker crates value maxMemoryStringChars).length := by
    simp only [omissionMarker, length_append, stableHashHex_length]
    omega
  have hlength : (value.take maxMemoryStringChars ++
      omissionMarker crates value maxMemoryStringChars).length =
        maxMemoryStringChars + (omissionMarker crates value maxMemoryStringChars).length := by
    rw [length_append, htake]
  rw [sanitize_long (not_dataUrl_cut h _) (by omega), take_left' htake,
    append_cancel_left_eq, omissionMarker_eq_iff, hlength, Nat.add_sub_cancel_left]

theorem sanitize_twice_iff (value : Text) :
    sanitizeMemoryString crates (sanitizeMemoryString crates value) =
      sanitizeMemoryString crates value ↔ settledText crates value = true := by
  cases hlooks : looksLikeInlineDataUrl value with
  | true =>
    have hredacted : sanitizeMemoryString crates value = redactedDataUrl crates value := by
      rw [sanitizeMemoryString, if_pos hlooks]
    rw [hredacted, sanitize_dataUrl_iff, settledText, if_pos hlooks, decide_eq_true_eq]
  | false =>
    rw [settledText, hlooks, if_neg Bool.false_ne_true, decide_eq_true_eq]
    by_cases hshort : value.length ≤ maxMemoryStringChars
    · have hfixed := @sanitize_short crates value hlooks hshort
      rw [hfixed, hfixed]
      simp [hshort]
    · rw [sanitize_long hlooks (not_le.mp hshort),
        sanitize_cut_iff hlooks (not_le.mp hshort), or_iff_right hshort]

/-! ## Arrays -/

theorem memoryItems_eq_map :
    memoryItems crates values = values.map (memoryJsonValue crates) := by
  induction values with
  | nil => rfl
  | cons value values ih => rw [memoryItems, ih, map_cons]

theorem settledItems_eq_map :
    settledItems crates values = values.map (settled crates) := by
  induction values with
  | nil => rfl
  | cons value values ih => rw [settledItems, ih, map_cons]

theorem natValue_eq_iff (m n : ℕ) : natValue m = natValue n ↔ m % 2 ^ 64 = n % 2 ^ 64 := by
  constructor
  · intro h
    have hread := congrArg Value.asU64 h
    simpa [natValue, Value.asU64] using hread
  · intro h
    have hword : UInt64.ofNat m = UInt64.ofNat n := by
      apply UInt64.toNat_inj.mp
      simpa using h
    rw [natValue, natValue, hword]

theorem memory_notice (length : ℕ) :
    memoryJsonValue crates (omittedItemsNotice length) = omittedItemsNotice length := by
  have htext : sanitizeMemoryString crates "array middle omitted from in-memory adapter state" =
      ("array middle omitted from in-memory adapter state" : Text) := by
    refine sanitize_short (not_dataUrl_of_colon (by decide)) ?_
    have hlength : ("array middle omitted from in-memory adapter state" : Text).length = 49 := by
      decide
    rw [hlength]
    decide
  simp only [omittedItemsNotice, memoryJsonValue, memoryFields, htext, natValue]

/-- The items of a cut array: both ends around the notice. -/
theorem keptItems_long (h : maxMemoryArrayItems < items.length) :
    keptItems items = items.take 128 ++ omittedItemsNotice items.length ::
      items.drop (items.length - 128) := by
  rw [keptItems, if_neg (not_le.mpr h)]
  simp [maxMemoryArrayItems]

theorem keptItems_short (h : items.length ≤ maxMemoryArrayItems) :
    keptItems items = items := if_pos h

theorem keptItems_around {front back : List Value} (notice : Value) (hfront : front.length = 128)
    (hback : back.length = 128) : keptItems (front ++ notice :: back) =
      front ++ omittedItemsNotice 257 :: back := by
  have hlength : (front ++ notice :: back).length = 257 := by
    rw [length_append, length_cons]
    omega
  rw [keptItems_long (by rw [hlength]; decide), hlength, take_left' hfront]
  have hdrop : (front ++ notice :: back).drop (257 - 128) = back := by
    have hshape : front ++ notice :: back = (front ++ [notice]) ++ back := by simp
    rw [hshape, drop_left' (by simp [hfront])]
  rw [hdrop]

section
variable {values : List Value}
  (h : ∀ value ∈ values, memoryJsonValue crates (memoryJsonValue crates value) = memoryJsonValue crates value ↔ settled crates value = true)
include h

theorem fixed_items_iff :
    (values.map (memoryJsonValue crates)).map (memoryJsonValue crates) =
        values.map (memoryJsonValue crates) ↔
      (values.map (settled crates)).all id = true := by
  rw [map_map, map_inj_left, all_map, all_eq_true]
  constructor
  · intro hfixed value hvalue
    exact (h value hvalue).mp (hfixed value hvalue)
  · intro hsettled value hvalue
    exact (h value hvalue).mpr (hsettled value hvalue)

theorem array_twice_iff :
    keptItems (memoryItems crates (keptItems (memoryItems crates values))) =
        keptItems (memoryItems crates values) ↔
      keptVerdicts (settledItems crates values) = true := by
  simp only [memoryItems_eq_map, settledItems_eq_map]
  by_cases hshort : values.length ≤ maxMemoryArrayItems
  · have hkept : keptItems (values.map (memoryJsonValue crates)) =
        values.map (memoryJsonValue crates) := keptItems_short (by simpa using hshort)
    rw [hkept, keptItems_short (by simpa using hshort), keptVerdicts,
      if_pos (by simpa using hshort)]
    exact fixed_items_iff h
  · have hlong : 256 < values.length := not_le.mp hshort
    have hfront := fixed_items_iff fun value hvalue =>
      h value (mem_of_mem_take (i := 128) hvalue)
    have hback := fixed_items_iff fun value hvalue =>
      h value (mem_of_mem_drop (i := values.length - 128) hvalue)
    have hkept : keptItems (values.map (memoryJsonValue crates)) =
        (values.take 128).map (memoryJsonValue crates) ++ omittedItemsNotice values.length ::
          (values.drop (values.length - 128)).map (memoryJsonValue crates) := by
      rw [keptItems_long (by rw [length_map]; exact hlong), length_map, map_take,
        map_drop]
    have hcount : omittedItemsNotice 257 = omittedItemsNotice values.length ↔
        (values.length - maxMemoryArrayItems) % 2 ^ 64 = 1 := by
      simp only [omittedItemsNotice, Value.object.injEq, cons.injEq, Prod.mk.injEq, true_and,
        and_true, natValue_eq_iff]
      exact eq_comm
    have hlength : ((values.take 128).map (memoryJsonValue crates)).length = 128 := by
      rw [length_map, length_take]
      omega
    rw [hkept, map_append, map_cons, memory_notice,
      keptItems_around _ (by simp; omega) (by simp; omega), keptVerdicts,
      if_neg (by simpa using hshort), decide_eq_true_eq, length_map, ← map_take,
      ← map_drop]
    constructor
    · intro heq
      obtain ⟨htake, hrest⟩ := append_inj heq (by rw [length_map])
      obtain ⟨hnotice, hdrop⟩ := cons.inj hrest
      exact ⟨hcount.mp hnotice, hfront.mp htake, hback.mp hdrop⟩
    · intro hall
      obtain ⟨hnotice, htake, hdrop⟩ := hall
      rw [hfront.mpr htake, hback.mpr hdrop, hcount.mpr hnotice]

end

/-! ## Values -/

mutual
theorem memory_twice_iff : ∀ value : Value,
    memoryJsonValue crates (memoryJsonValue crates value) = memoryJsonValue crates value ↔
      settled crates value = true
  | .null => by simp [memoryJsonValue, settled]
  | .bool b => by simp [memoryJsonValue, settled]
  | .number n => by simp [memoryJsonValue, settled]
  | .string s => by
      simp only [memoryJsonValue, settled, Value.string.injEq]
      exact sanitize_twice_iff s
  | .array values => by
      simp only [memoryJsonValue, settled, Value.array.injEq]
      exact array_twice_iff (items_twice_iff values)
  | .object fields => by
      simp only [memoryJsonValue, settled, Value.object.injEq]
      exact fields_twice_iff fields

theorem items_twice_iff : ∀ values : List Value, ∀ value ∈ values,
    memoryJsonValue crates (memoryJsonValue crates value) = memoryJsonValue crates value ↔
      settled crates value = true
  | [] => by simp
  | value :: values => by
      rw [forall_mem_cons]
      exact ⟨memory_twice_iff value, items_twice_iff values⟩

theorem fields_twice_iff : ∀ fields : List (Text × Value),
    memoryFields crates (memoryFields crates fields) = memoryFields crates fields ↔
      settledFields crates fields = true
  | [] => by simp [memoryFields, settledFields]
  | (key, value) :: fields => by
      simp only [memoryFields, settledFields, cons.injEq, Prod.mk.injEq, true_and,
        Bool.and_eq_true]
      exact and_congr (memory_twice_iff value) (fields_twice_iff fields)
end

/-! ## Merges -/

theorem lookup_memoryFields (key : Text) :
    (memoryFields crates fields).lookup key = (fields.lookup key).map (memoryJsonValue crates) := by
  induction fields with
  | nil => rfl
  | cons first fields ih =>
    obtain ⟨k, value⟩ := first
    rw [memoryFields, lookup_cons, lookup_cons]
    cases key == k with
    | true => rfl
    | false => exact ih

theorem keys_memoryFields :
    (memoryFields crates fields).map Prod.fst = fields.map Prod.fst := by
  induction fields with
  | nil => rfl
  | cons first fields ih => rw [memoryFields, map_cons, map_cons, ih]

/-- A field that is not among the inserted ones stays. -/
theorem lookup_insertFields_of_none (h : next.lookup key = none) :
    (next.foldl (fun fields field => Value.insertField field.1 field.2 fields) existing).lookup
      key = existing.lookup key := by
  induction next generalizing existing with
  | nil => rfl
  | cons first next ih =>
    obtain ⟨k, value⟩ := first
    rw [lookup_cons] at h
    have hne : key ≠ k := by
      rintro rfl
      simp at h
    rw [beq_eq_false_iff_ne.mpr hne] at h
    rw [foldl_cons, ih h, Value.lookup_insertField_ne hne]

theorem lookup_insertFields {value : Value} (hnodup : (next.map Prod.fst).Nodup)
    (h : next.lookup key = some value) :
    (next.foldl (fun fields field => Value.insertField field.1 field.2 fields) existing).lookup
      key = some value := by
  induction next generalizing existing with
  | nil => simp at h
  | cons first next ih =>
    obtain ⟨k, w⟩ := first
    rw [map_cons, nodup_cons] at hnodup
    rw [foldl_cons]
    by_cases heq : key = k
    · subst heq
      obtain rfl : w = value := by simpa using h
      have hnone : next.lookup key = none := by
        rw [lookup_eq_none_iff]
        intro field hfield
        rw [bne_iff_ne]
        intro hkey
        have hmem : field.1 ∈ next.map Prod.fst := mem_map_of_mem hfield
        rw [← hkey] at hmem
        exact hnodup.1 hmem
      rw [lookup_insertFields_of_none hnone, Value.lookup_insertField_self]
    · rw [lookup_cons, beq_eq_false_iff_ne.mpr heq] at h
      exact ih hnodup.2 h

variable (crates) in
/-- The diagnostic after later merges. -/
def mergedAfter (stored : Value) (laters : List Value) : Value :=
  laters.foldl (fun stored next => mergeRequestDiagnostic crates (some stored) next) stored

/-- The diagnostic is an object with the field. -/
def HoldsField (key : Text) (value stored : Value) : Prop :=
  ∃ fields, stored = .object fields ∧ fields.lookup key = some value

theorem HoldsField.get {value stored : Value} (h : HoldsField key value stored) :
    stored.get key = some value := by
  obtain ⟨fields, rfl, hlookup⟩ := h
  exact hlookup

theorem holdsField_first {existing : Option Value} {fields : List (Text × Value)} {key : Text}
    {value : Value} (hnodup : (fields.map Prod.fst).Nodup) (h : fields.lookup key = some value) :
    HoldsField key (memoryJsonValue crates value)
      (mergeRequestDiagnostic crates existing (.object fields)) := by
  have hlookup : (memoryFields crates fields).lookup key = some (memoryJsonValue crates value) := by
    rw [lookup_memoryFields, h, Option.map_some]
  have hkeys : ((memoryFields crates fields).map Prod.fst).Nodup := by
    rw [keys_memoryFields]
    exact hnodup
  simp only [mergeRequestDiagnostic, memoryJsonValue]
  split
  · rename_i stored next _ hnext
    obtain rfl : memoryFields crates fields = next := by simpa using hnext
    exact ⟨_, rfl, lookup_insertFields hkeys hlookup⟩
  · exact ⟨_, rfl, hlookup⟩

/-- A later object that does not mention the field copies it, and another value drops it. -/
theorem holdsField_merge {key : Text} {value stored later : Value}
    (h : HoldsField key value stored) (hlater : later.get key = none) :
    (later.asObject.isSome = true → HoldsField key (memoryJsonValue crates value)
      (mergeRequestDiagnostic crates (some stored) later)) ∧
    (later.asObject.isSome = false →
      (mergeRequestDiagnostic crates (some stored) later).get key = none) := by
  obtain ⟨fields, rfl, hlookup⟩ := h
  cases later with
  | object next =>
    have hnone : (memoryFields crates next).lookup key = none := by
      have hnext : next.lookup key = none := hlater
      rw [lookup_memoryFields, hnext, Option.map_none]
    refine ⟨fun _ => ⟨_, rfl, ?_⟩, fun h => absurd h (by simp [Value.asObject])⟩
    rw [lookup_insertFields_of_none hnone, lookup_memoryFields, hlookup, Option.map_some]
  | null => exact ⟨fun h => absurd h (by simp [Value.asObject]), fun _ => rfl⟩
  | bool b => exact ⟨fun h => absurd h (by simp [Value.asObject]), fun _ => rfl⟩
  | number n => exact ⟨fun h => absurd h (by simp [Value.asObject]), fun _ => rfl⟩
  | string s => exact ⟨fun h => absurd h (by simp [Value.asObject]), fun _ => rfl⟩
  | array items => exact ⟨fun h => absurd h (by simp [Value.asObject]), fun _ => rfl⟩

section
variable {key : Text} {value stored : Value} {laters : List Value} (h : HoldsField key value stored)
include h

theorem holdsField_mergedAfter (hfixed : memoryJsonValue crates value = value)
    (hlaters : ∀ later ∈ laters, later.get key = none)
    (hobjects : ∀ later ∈ laters, later.asObject.isSome = true) :
    HoldsField key value (mergedAfter crates stored laters) := by
  induction laters generalizing stored with
  | nil => exact h
  | cons later laters ih =>
    rw [forall_mem_cons] at hlaters hobjects
    have hnext := (@holdsField_merge crates _ _ _ _ h hlaters.1).1 hobjects.1
    rw [hfixed] at hnext
    exact ih hnext hlaters.2 hobjects.2

/-- A field that stays through all merges has met objects only. -/
theorem objects_of_kept (hlaters : ∀ later ∈ laters, later.get key = none)
    (hkept : ∀ n, (mergedAfter crates stored (laters.take n)).get key = some value) :
    (∀ later ∈ laters, later.asObject.isSome = true) ∧
      (laters ≠ [] → memoryJsonValue crates value = value) := by
  induction laters generalizing stored with
  | nil => simp
  | cons later laters ih =>
    rw [forall_mem_cons] at hlaters
    have hfirst : (mergeRequestDiagnostic crates (some stored) later).get key = some value :=
      hkept 1
    have hmerge := @holdsField_merge crates key value stored later h hlaters.1
    have hobject : later.asObject.isSome = true := by
      by_contra hother
      rw [hmerge.2 (by simpa using hother)] at hfirst
      simp at hfirst
    have hnext := hmerge.1 hobject
    have hfixed : memoryJsonValue crates value = value := by
      rw [hnext.get] at hfirst
      exact Option.some.inj hfirst
    rw [hfixed] at hnext
    have hrest := ih hnext hlaters.2 fun n => hkept (n + 1)
    rw [forall_mem_cons]
    exact ⟨⟨hobject, hrest.1⟩, fun _ => hfixed⟩

end

/-- The copy is idempotent, and a field outlives merges that do not mention it, exactly on the
settled values and for merges of objects. -/
theorem diagnostic_kept_iff (value : Value) :
    (memoryJsonValue crates (memoryJsonValue crates value) = memoryJsonValue crates value ↔
      settled crates value = true) ∧
    ∀ (existing : Option Value) (fields : List (Text × Value)) (key : Text) (laters : List Value),
      (fields.map Prod.fst).Nodup → fields.lookup key = some value →
      (∀ later ∈ laters, later.get key = none) →
      ((∀ n, (mergedAfter crates (mergeRequestDiagnostic crates existing (.object fields))
          (laters.take n)).get key = some (memoryJsonValue crates value)) ↔
        laters = [] ∨ ((∀ later ∈ laters, later.asObject.isSome = true) ∧
          settled crates value = true)) := by
  refine ⟨memory_twice_iff value, ?_⟩
  intro existing fields key laters hnodup hlookup hlaters
  have hfirst := @holdsField_first crates existing _ _ _ hnodup hlookup
  constructor
  · intro hkept
    obtain ⟨hobjects, hfixed⟩ := objects_of_kept hfirst hlaters hkept
    by_cases hnil : laters = []
    · exact .inl hnil
    · exact .inr ⟨hobjects, (memory_twice_iff value).mp (hfixed hnil)⟩
  · intro hcases n
    rcases hcases with rfl | ⟨hobjects, hsettled⟩
    · rw [take_nil]
      exact hfirst.get
    · have hfixed := (memory_twice_iff value).mpr hsettled
      refine (holdsField_mergedAfter hfirst hfixed (fun later hlater => ?_)
        fun later hlater => ?_).get
      · exact hlaters later (mem_of_mem_take hlater)
      · exact hobjects later (mem_of_mem_take hlater)

end Crates

/-- A list of 257 entries, of which each copy says that one was omitted. -/
def fullList : Value := .array (replicate 257 .null)

theorem fullList_kept : ((mergedAfter epochCrates (mergeRequestDiagnostic epochCrates none
    (.object [("note", fullList)])) [.object [("kind", .null)]]).get "note") =
      some (memoryJsonValue epochCrates fullList) :=
  ((@diagnostic_kept_iff epochCrates fullList).2 none
    [("note", fullList)] "note" [.object [("kind", .null)]] (by decide +kernel) rfl
    (by simp [Value.get])).mpr (.inr ⟨by simp [Value.asObject], by decide +kernel⟩) 1

/-- A list of 258 entries: the first copy says that two were omitted, the next says one. -/
def longList : Value := .array (replicate 258 .null)

theorem longList_not_kept :
    memoryJsonValue epochCrates (memoryJsonValue epochCrates longList) ≠
        memoryJsonValue epochCrates longList ∧
      (mergedAfter epochCrates (mergeRequestDiagnostic epochCrates none
        (.object [("list", longList)])) [.object []]).get "list" ≠
          some (memoryJsonValue epochCrates longList) := by
  have hnot : memoryJsonValue epochCrates (memoryJsonValue epochCrates longList) ≠
      memoryJsonValue epochCrates longList := by
    intro h
    have hsettled := (memory_twice_iff longList).mp h
    revert hsettled
    decide +kernel
  refine ⟨hnot, fun hkept => hnot ?_⟩
  exact Option.some.inj hkept

end CodeSeeX.Store
