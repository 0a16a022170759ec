import CodeSeeX.Core.CatalogLayers

/-!
# Price lists as documents

A price list is read from a document and written back as one. Reading trims texts, works the
offset of a time zone out of its name, counts minutes and rounds numbers to binary64; a list
that was read, or changed by an override, is in that form already.
-/
namespace CodeSeeX.Pricing
open Config Checks List Option Text

variable {label : Text} {rates next : List (Text × ModelRates)} {windows : List PeakWindow}
  {field : Option Value} {rule : PeakValley} {table : PricingTable} {key current : Text}

/-! ## Writing -/

/-- The decimal texts that the printing crate can choose for a number. -/
abbrev DecimalText := {t : Text // ∀ c ∈ t, c.isDigit ∨ c ∈ ['+', '-', '.', 'e']}

section
variable (shortest : ℚ → DecimalText)

/-- The binary64 number that a rational number is. -/
def doubleOf (q : ℚ) : Double where
  mantissa := q.num
  exponent := -(Nat.log2 q.den : ℤ)
  shortest := (shortest q).1
  shortest_chars := (shortest q).2

def f64Value (q : ℚ) : Value := .number (.float (doubleOf shortest q))

def ModelRates.toValue (rates : ModelRates) : Value :=
  .object [("cache_miss_input", f64Value shortest rates.cacheMissInput),
    ("cached_input", f64Value shortest rates.cachedInput),
    ("output", f64Value shortest rates.output)]

def PeakWindow.toValue (window : PeakWindow) : Value :=
  .object [("from", .string (minuteToHhmm window.fromMinute)),
    ("to", .string (minuteToHhmm window.toMinute))]

def PeakValley.toValue (rule : PeakValley) : Value :=
  .object [("enabled", .bool rule.enabled), ("multiplier", f64Value shortest rule.multiplier),
    ("timezone", .string rule.timezone), ("windows", .array (rule.windows.map PeakWindow.toValue))]

def rateMapValue (rates : List (Text × ModelRates)) : Value :=
  .object (rates.map fun entry => (entry.1, entry.2.toValue shortest))

def PricingTable.toValue (table : PricingTable) : Value :=
  .object [("currency", .string table.currency), ("groups", rateMapValue shortest table.groups),
    ("peak_valley", table.peakValley.toValue shortest),
    ("rates", rateMapValue shortest table.rates), ("revision", .string table.revision),
    ("unit", .string table.unit)]

end

/-! ## Reading -/

/-- A field that is read if it is there. -/
def fieldOr {α : Type} (field : Option Value) (default : α) (read : Value → Except Text α) :
    Except Text α :=
  match field with
  | some value => read value
  | none => .ok default

/-- A text that is trimmed, or the one that stands for none. -/
def trimmedOr (value : Value) (key default : Text) : Text := ((value.getStr key).getD default).trim

def parsePeakWindows (value : Value) : Except Text (List PeakWindow) := do
  let items ← require value.asArray "peak_valley.windows must be an array"
  items.mapM parsePeakWindow

def PeakValley.fromValue (value : Value) : Except Text PeakValley := do
  let _ ← require value.asObject "peak_valley must be an object"
  let timezone := trimmedOr value "timezone" "Asia/Shanghai"
  let utcOffsetMinutes ← require (timezoneUtcOffsetMinutes timezone)
    (("unsupported peak_valley timezone: " : Text) ++ timezone)
  let multiplier ← fieldOr (value.get "multiplier") 2 fun value =>
    require (asF64 value) "peak_valley.multiplier must be a number"
  ensure (1 ≤ multiplier ∧ multiplier ≤ maxPeakMultiplier)
    "peak_valley.multiplier must be between 1 and 100"
  let enabled ← fieldOr (value.get "enabled") true fun value =>
    require value.asBool "peak_valley.enabled must be a boolean"
  let windows ← fieldOr (value.get "windows") [] parsePeakWindows
  ensure (windows.all fun window => window.fromMinute < window.toMinute)
    "peak_valley window must start before it ends"
  pure {
    enabled := enabled
    timezone := timezone
    utcOffsetMinutes := utcOffsetMinutes
    multiplier := multiplier
    windows := windows }

def PricingTable.fromValue (value : Value) : Except Text PricingTable := do
  let _ ← require value.asObject "pricing must be an object"
  let revision := trimmedOr value "revision" "0.0.0"
  ensure (revision ≠ []) "pricing.revision must not be empty"
  let peakValley ← fieldOr (value.get "peak_valley") PeakValley.default PeakValley.fromValue
  let groups ← fieldOr (value.get "groups") [] (parseRateMap "pricing.groups")
  let rates ← fieldOr (value.get "rates") [] (parseRateMap "pricing.rates")
  pure {
    revision := revision
    currency := trimmedOr value "currency" "CNY"
    unit := trimmedOr value "unit" "per_1m_tokens"
    peakValley := peakValley
    groups := groups
    rates := rates }

/-- The price lists that are read from documents and changed by overrides. -/
inductive Produced : PricingTable → Prop where
  | fromValue {value : Value} {table : PricingTable} :
      PricingTable.fromValue value = .ok table → Produced table
  | override {value : Value} {table next : PricingTable} :
      Produced table → withOverrideValue table value = .ok next → Produced next

/-- An empty document is the list that stands for none. -/
theorem default_produced : Produced PricingTable.default :=
  @Produced.fromValue (.object []) _ rfl

/-! ## Numbers -/

/-- A number of binary form. -/
def IsBinary (q : ℚ) : Prop := ∃ k : ℕ, q.den = 2 ^ k

theorem isBinary_natCast (n : ℕ) : IsBinary n := ⟨0, Rat.den_natCast n⟩

theorem isBinary_intCast (n : ℤ) : IsBinary n := ⟨0, Rat.den_intCast n⟩

theorem isBinary_zpow (m e : ℤ) : IsBinary ((m : ℚ) * 2 ^ e) := by
  rcases Int.eq_nat_or_neg e with ⟨k, rfl | rfl⟩
  · have hint : (m : ℚ) * 2 ^ ((k : ℕ) : ℤ) = ((m * 2 ^ k : ℤ) : ℚ) := by
      push_cast
      rw [zpow_natCast]
    rw [hint]
    exact isBinary_intCast _
  · have hquotient : (m : ℚ) * 2 ^ (-((k : ℕ) : ℤ)) = ((m : ℤ) : ℚ) / ((2 ^ k : ℤ) : ℚ) := by
      rw [zpow_neg, zpow_natCast, div_eq_mul_inv]
      push_cast
      rfl
    have hden := Rat.den_dvd m (2 ^ k)
    rw [Rat.divInt_eq_div, ← hquotient] at hden
    have hnat : ((m : ℚ) * 2 ^ (-((k : ℕ) : ℤ))).den ∣ 2 ^ k := by
      exact_mod_cast hden
    obtain ⟨j, _, hj⟩ := (Nat.dvd_prime_pow Nat.prime_two).mp hnat
    exact ⟨j, hj⟩

variable {value : Value}

theorem isBinary_of_asF64 {q : ℚ} (h : asF64 value = some q) : IsBinary q := by
  cases value with
  | number n =>
    cases n with
    | posInt n =>
      obtain rfl := some.inj h
      exact isBinary_natCast _
    | negInt n =>
      obtain rfl := some.inj h
      have hneg := isBinary_intCast (-(natAsF64 n.toInt.natAbs : ℤ))
      push_cast at hneg
      exact hneg
    | float d =>
      obtain rfl := some.inj h
      exact isBinary_zpow _ _
  | null => cases h
  | bool b => cases h
  | string s => cases h
  | array items => cases h
  | object fields => cases h

/-- A number of binary form is read back as it was written. -/
theorem asF64_f64Value (shortest : ℚ → DecimalText) {q : ℚ} (h : IsBinary q) :
    asF64 (f64Value shortest q) = some q := by
  obtain ⟨k, hk⟩ := h
  have hnumber : (q.num : ℚ) * 2 ^ (-(Nat.log2 q.den : ℤ)) = q := by
    rw [hk, Nat.log2_two_pow, zpow_neg, zpow_natCast, ← div_eq_mul_inv]
    conv_rhs => rw [← Rat.num_div_den q, hk]
    push_cast
    rfl
  exact congrArg some hnumber

/-! ## Times of the day -/

theorem parseU32_twoDigits {n : ℕ} (h : n < 100) : parseU32 (twoDigits n) = some n := by
  have hall : ∀ n < 100, parseU32 (twoDigits n) = some n := by decide +kernel
  exact hall n h

theorem digit_of_mem_twoDigits {n : ℕ} {c : Char} (h : c ∈ twoDigits n) : c.isDigit = true := by
  rw [twoDigits] at h
  split_ifs at h
  · rcases mem_cons.mp h with rfl | hmem
    · rfl
    · exact digit_of_mem_ofNat hmem
  · exact digit_of_mem_ofNat h

theorem trim_of_digits {text : Text} (h : ∀ c ∈ text, c.isDigit = true) : text.trim = text :=
  (trim_of_ends (fun c hc => isWhitespace_of_isDigit (h c (mem_of_mem_head? hc)))
    fun c hc => isWhitespace_of_isDigit (h c (mem_of_getLast? hc))).2

theorem colon_notMem_twoDigits (n : ℕ) : ':' ∉ twoDigits n := by
  intro h
  exact absurd (digit_of_mem_twoDigits h) (by decide)

theorem parseHhmm_lt {text : Text} {minute : ℕ} (h : parseHhmm text = some minute) :
    minute < 24 * 60 := by
  simp only [parseHhmm, bind_eq_bind, bind_eq_some_iff] at h
  obtain ⟨_, _, hour, _, min, _, hminute⟩ := h
  split_ifs at hminute with hout
  have := some.inj hminute
  omega

theorem parseHhmm_minuteToHhmm {minute : ℕ} (h : minute < 24 * 60) :
    parseHhmm (minuteToHhmm minute) = some minute := by
  have hdigits : ∀ n, (twoDigits n).trim = twoDigits n := fun n =>
    trim_of_digits fun c hc => digit_of_mem_twoDigits hc
  have hne : ∀ n, twoDigits n ≠ [] := by
    intro n
    rw [twoDigits]
    split_ifs
    · exact cons_ne_nil _ _
    · exact Nat.toDigits_ne_nil
  have htrim : (minuteToHhmm minute).trim = minuteToHhmm minute := by
    refine (trim_of_ends (fun c hc => ?_) fun c hc => ?_).2
    · rw [minuteToHhmm, head?_append_of_ne_nil _ (hne _)] at hc
      exact isWhitespace_of_isDigit (digit_of_mem_twoDigits (mem_of_mem_head? hc))
    · rw [minuteToHhmm, getLast?_append_of_ne_nil _ (cons_ne_nil _ _),
        getLast?_cons_of_ne_nil (hne _)] at hc
      exact isWhitespace_of_isDigit (digit_of_mem_twoDigits (mem_of_getLast? hc))
  have hsplit : splitOnce ":" (minuteToHhmm minute) =
      some (twoDigits (minute / 60), twoDigits (minute % 60)) := by
    show splitOnce [':'] (twoDigits (minute / 60) ++ ':' :: twoDigits (minute % 60)) = _
    exact splitOnce_cons (colon_notMem_twoDigits _) _
  have hhour : parseU32 (twoDigits (minute / 60)) = some (minute / 60) :=
    parseU32_twoDigits (by omega)
  have hminute : parseU32 (twoDigits (minute % 60)) = some (minute % 60) :=
    parseU32_twoDigits (by omega)
  have hin : ¬(minute / 60 > 23 ∨ minute % 60 > 59) := by omega
  have hsum : minute / 60 * 60 + minute % 60 = minute := by omega
  simp only [parseHhmm, htrim, hsplit, hdigits, hhour, hminute, bind_eq_bind,
    bind_some, if_neg hin, hsum]

/-! ## What was read -/

/-- Rates as they are read: not negative, and of binary form. -/
structure ModelRates.IsRead (rates : ModelRates) : Prop where
  cached_nonneg : 0 ≤ rates.cachedInput
  miss_nonneg : 0 ≤ rates.cacheMissInput
  output_nonneg : 0 ≤ rates.output
  cached_binary : IsBinary rates.cachedInput
  miss_binary : IsBinary rates.cacheMissInput
  output_binary : IsBinary rates.output

/-- A rate map as it is read: trimmed names in order, none empty. -/
structure RatesRead (rates : List (Text × ModelRates)) : Prop where
  sorted : rates.Pairwise fun a b => a.1 < b.1
  named : ∀ e ∈ rates, e.1.trim = e.1 ∧ e.1 ≠ []
  read : ∀ e ∈ rates, e.2.IsRead

/-- A rule as it is read. -/
structure PeakValley.IsRead (rule : PeakValley) : Prop where
  timezone_trim : rule.timezone.trim = rule.timezone
  offset_eq : timezoneUtcOffsetMinutes rule.timezone = some rule.utcOffsetMinutes
  multiplier_mem : 1 ≤ rule.multiplier ∧ rule.multiplier ≤ maxPeakMultiplier
  multiplier_binary : IsBinary rule.multiplier
  windows_mem : ∀ w ∈ rule.windows, w.fromMinute < w.toMinute ∧ w.toMinute < 24 * 60

/-- A price list as it is read. -/
structure PricingTable.IsRead (table : PricingTable) : Prop where
  revision_ne : table.revision ≠ []
  revision_trim : table.revision.trim = table.revision
  currency_trim : table.currency.trim = table.currency
  unit_trim : table.unit.trim = table.unit
  rule : table.peakValley.IsRead
  groups : RatesRead table.groups
  rates : RatesRead table.rates

theorem ratesFromValue_isRead {rates : ModelRates}
    (h : ratesFromValue value = some rates) : rates.IsRead := by
  have hread : ∀ {key : Text} {q : ℚ}, (match value.get key with
      | some value => asF64 value
      | none => some 0) = some q → IsBinary q := by
    intro key q hq
    cases hget : value.get key with
    | none =>
      rw [hget] at hq
      obtain rfl := some.inj hq
      exact isBinary_natCast 0
    | some field =>
      rw [hget] at hq
      exact isBinary_of_asF64 hq
  simp only [ratesFromValue, bind_eq_bind, bind_eq_some_iff] at h
  obtain ⟨_, _, cached, hcached, miss, hmiss, output, houtput, heq⟩ := h
  split_ifs at heq with hnonneg
  obtain rfl := some.inj heq
  exact ⟨hnonneg.1, hnonneg.2.1, hnonneg.2.2, hread hcached, hread hmiss, hread houtput⟩

variable {rates : List (Text × ModelRates)}

theorem RatesRead.insertEntry (h : RatesRead rates) {key : Text}
    (htrim : key.trim = key) (hne : key ≠ []) {value : ModelRates} (hvalue : value.IsRead) :
    RatesRead (BTreeMap.insertEntry key value rates) where
  sorted := BTreeMap.insertEntry_sorted key value h.sorted
  named e he := by
    rcases BTreeMap.mem_insertEntry he with rfl | he
    · exact ⟨htrim, hne⟩
    · exact h.named e he
  read e he := by
    rcases BTreeMap.mem_insertEntry he with rfl | he
    · exact hvalue
    · exact h.read e he

theorem RatesRead.insertAll {rates entries : List (Text × ModelRates)} (h : RatesRead rates)
    (hnamed : ∀ e ∈ entries, e.1.trim = e.1 ∧ e.1 ≠ []) (hread : ∀ e ∈ entries, e.2.IsRead) :
    RatesRead (insertAll entries rates) := by
  induction entries generalizing rates with
  | nil => exact h
  | cons e entries ih =>
    rw [forall_mem_cons] at hnamed hread
    exact ih (h.insertEntry hnamed.1.1 hnamed.1.2 hread.1) hnamed.2 hread.2

/-- One field of a rate map. -/
def readRateField (label : Text) (rates : List (Text × ModelRates)) (field : Text × Value) :
    Except Text (List (Text × ModelRates)) := do
  ensure (field.1.trim ≠ []) (label ++ " contains an empty key")
  let value ← require (ratesFromValue field.2)
    (label ++ "." ++ field.1.trim ++ " must contain non-negative finite numbers")
  pure (BTreeMap.insertEntry field.1.trim value rates)

theorem parseRateMap_eq (label : Text) (value : Value) : parseRateMap label value =
    (require value.asObject (label ++ " must be an object")).bind fun fields =>
      fields.foldlM (readRateField label) [] := rfl

theorem readRateFields_isRead {fields : List (Text × Value)} (hrates : RatesRead rates)
    (h : fields.foldlM (readRateField label) rates = .ok next) : RatesRead next := by
  induction fields generalizing rates with
  | nil =>
    obtain rfl := Except.ok.inj h
    exact hrates
  | cons field fields ih =>
    simp only [foldlM_cons, bind_ok, readRateField, ensure_ok, require_ok,
      decide_eq_true_eq] at h
    obtain ⟨second, ⟨_, hne, read, hread, hsecond⟩, hrest⟩ := h
    obtain rfl := Except.ok.inj hsecond
    exact ih (hrates.insertEntry (trim_trim _) hne (ratesFromValue_isRead hread)) hrest

theorem ratesRead_nil : RatesRead [] :=
  ⟨List.Pairwise.nil, fun _ he => absurd he not_mem_nil, fun _ he => absurd he not_mem_nil⟩

theorem parseRateMap_isRead (h : parseRateMap label value = .ok rates) : RatesRead rates := by
  obtain ⟨fields, _, hfields⟩ := bind_ok.mp h
  exact readRateFields_isRead ratesRead_nil hfields

theorem parsePeakWindow_lt {window : PeakWindow}
    (h : parsePeakWindow value = .ok window) : window.toMinute < 24 * 60 := by
  simp only [parsePeakWindow, bind_ok, require_ok] at h
  obtain ⟨_, _, _, _, _, _, _, _, _, hstop, heq⟩ := h
  obtain rfl := Except.ok.inj heq
  exact parseHhmm_lt hstop

theorem mapM_parsePeakWindow_lt {values : List Value}
    (h : values.mapM parsePeakWindow = .ok windows) : ∀ w ∈ windows, w.toMinute < 24 * 60 := by
  induction values generalizing windows with
  | nil =>
    obtain rfl := Except.ok.inj h
    exact fun _ hw => absurd hw not_mem_nil
  | cons value values ih =>
    rw [mapM_cons] at h
    simp only [bind_ok] at h
    obtain ⟨window, hwindow, rest, hrest, heq⟩ := h
    obtain rfl := Except.ok.inj heq
    exact forall_mem_cons.mpr ⟨parsePeakWindow_lt hwindow, ih hrest⟩

/-- A field that is not there stands for a value of its own. -/
theorem fieldOr_ok {α : Type} {default a : α} {read : Value → Except Text α}
    (h : fieldOr field default read = .ok a) :
    (field = none ∧ a = default) ∨ ∃ value, field = some value ∧ read value = .ok a := by
  cases field with
  | none => exact Or.inl ⟨rfl, (Except.ok.inj h).symm⟩
  | some value => exact Or.inr ⟨value, rfl, h⟩

theorem fieldOr_isRead (h : fieldOr field [] (parseRateMap label) = .ok rates) :
    RatesRead rates := by
  rcases fieldOr_ok h with ⟨_, rfl⟩ | ⟨value, _, hvalue⟩
  · exact ratesRead_nil
  · exact parseRateMap_isRead hvalue

theorem default_isRead : PeakValley.default.IsRead where
  timezone_trim := by decide
  offset_eq := by decide
  multiplier_mem := by norm_num [PeakValley.default, maxPeakMultiplier]
  multiplier_binary := isBinary_natCast 2
  windows_mem := by decide

theorem PeakValley.fromValue_isRead (h : PeakValley.fromValue value = .ok rule) : rule.IsRead := by
  simp only [PeakValley.fromValue, bind_ok, ensure_ok, require_ok, decide_eq_true_eq] at h
  obtain ⟨_, _, offset, hoffset, multiplier, hmultiplier, _, hmem, enabled, _, windows, hwindows, _,
    hstart, heq⟩ := h
  obtain rfl := Except.ok.inj heq
  refine ⟨trim_trim _, hoffset, hmem, ?_, fun w hw => ⟨?_, ?_⟩⟩
  · rcases fieldOr_ok hmultiplier with ⟨_, rfl⟩ | ⟨field, _, hfield⟩
    · exact isBinary_natCast 2
    · exact isBinary_of_asF64 (require_ok.mp hfield)
  · simpa using all_eq_true.mp hstart w hw
  · rcases fieldOr_ok hwindows with ⟨_, rfl⟩ | ⟨field, _, hfield⟩
    · exact absurd hw not_mem_nil
    · simp only [parsePeakWindows, bind_ok] at hfield
      obtain ⟨items, _, hitems⟩ := hfield
      exact mapM_parsePeakWindow_lt hitems w hw

theorem PricingTable.fromValue_isRead (h : PricingTable.fromValue value = .ok table) :
    table.IsRead := by
  simp only [PricingTable.fromValue, bind_ok, ensure_ok, decide_eq_true_eq] at h
  obtain ⟨_, _, _, hrevision, rule, hrule, groups, hgroups, rates, hrates, heq⟩ := h
  obtain rfl := Except.ok.inj heq
  refine ⟨hrevision, trim_trim _, trim_trim _, trim_trim _, ?_,
    fieldOr_isRead hgroups, fieldOr_isRead hrates⟩
  rcases fieldOr_ok hrule with ⟨_, rfl⟩ | ⟨field, _, hfield⟩
  · exact default_isRead
  · exact PeakValley.fromValue_isRead hfield

/-! ### Overrides -/

section Override
variable {value : Value}

theorem overrideText_trim (h : current.trim = current) :
    (overrideText value key current).trim = overrideText value key current := by
  rw [overrideText, nonEmptyTrimmed]
  cases value.getStr key with
  | none => exact h
  | some text =>
    rw [map_some, Option.filter]
    split_ifs
    · exact trim_trim text
    · exact h

theorem overrideText_ne (h : current ≠ []) :
    overrideText value key current ≠ [] := by
  rw [overrideText, nonEmptyTrimmed]
  cases value.getStr key with
  | none => exact h
  | some text =>
    rw [map_some, Option.filter]
    split_ifs with hne
    · simpa using hne
    · exact h

section
variable {rule next : PeakValley} (hrule : rule.IsRead)
include hrule

theorem overrideMultiplier_isRead (h : overrideMultiplier value rule = .ok next) : next.IsRead := by
  rw [overrideMultiplier] at h
  cases hmultiplier : (value.get "peak_multiplier").bind asF64 with
  | none =>
    rw [hmultiplier] at h
    obtain rfl := Except.ok.inj h
    exact hrule
  | some multiplier =>
    rw [hmultiplier] at h
    dsimp only at h
    split_ifs at h with hout
    obtain rfl := Except.ok.inj h
    rw [not_or, not_lt, gt_iff_lt, not_lt] at hout
    obtain ⟨field, _, hfield⟩ := bind_eq_some_iff.mp hmultiplier
    exact { hrule with
      multiplier_mem := hout
      multiplier_binary := isBinary_of_asF64 hfield }

theorem overrideTimezone_isRead (h : overrideTimezone value rule = .ok next) : next.IsRead := by
  rw [overrideTimezone] at h
  cases htimezone : value.getStr "timezone" with
  | none =>
    rw [htimezone] at h
    obtain rfl := Except.ok.inj h
    exact hrule
  | some timezone =>
    rw [htimezone] at h
    simp only [bind_ok, require_ok] at h
    obtain ⟨offset, hoffset, heq⟩ := h
    obtain rfl := Except.ok.inj heq
    exact { hrule with
      timezone_trim := trim_trim timezone
      offset_eq := hoffset }

theorem overrideWindows_isRead (h : overrideWindows value rule = .ok next) : next.IsRead := by
  rw [overrideWindows] at h
  cases hwindows : value.get "peak_windows" with
  | none =>
    rw [hwindows] at h
    obtain rfl := Except.ok.inj h
    exact hrule
  | some windows =>
    rw [hwindows] at h
    simp only [bind_ok, ensure_ok] at h
    obtain ⟨items, _, parsed, hparsed, _, hstart, heq⟩ := h
    obtain rfl := Except.ok.inj heq
    refine { hrule with windows_mem := fun w hw => ⟨?_, mapM_parsePeakWindow_lt hparsed w hw⟩ }
    simpa using all_eq_true.mp hstart w hw

end

theorem overrideRates_isRead {key label : Text} (hrates : RatesRead rates)
    (h : overrideRates value key label rates = .ok next) :
    RatesRead next := by
  rw [overrideRates] at h
  cases hentries : value.get key with
  | none =>
    rw [hentries] at h
    obtain rfl := Except.ok.inj h
    exact hrates
  | some field =>
    rw [hentries] at h
    simp only [bind_ok] at h
    obtain ⟨entries, hparsed, heq⟩ := h
    obtain rfl := Except.ok.inj heq
    obtain ⟨_, hnamed, hread⟩ := parseRateMap_isRead hparsed
    exact hrates.insertAll hnamed hread

theorem withOverrideValue_isRead {table next : PricingTable} (htable : table.IsRead)
    (h : withOverrideValue table value = .ok next) : next.IsRead := by
  simp only [withOverrideValue, bind_ok] at h
  obtain ⟨_, _, first, hfirst, second, hsecond, third, hthird, rates, hrates, groups, hgroups,
    heq⟩ := h
  obtain rfl := Except.ok.inj heq
  have henabled : ({ table.peakValley with enabled :=
      ((value.get "peak_valley_enabled").bind Value.asBool).getD table.peakValley.enabled } :
        PeakValley).IsRead := { htable.rule with }
  exact {
    revision_ne := overrideText_ne htable.revision_ne
    revision_trim := overrideText_trim htable.revision_trim
    currency_trim := overrideText_trim htable.currency_trim
    unit_trim := overrideText_trim htable.unit_trim
    rule := overrideWindows_isRead (overrideTimezone_isRead
      (overrideMultiplier_isRead henabled hfirst) hsecond) hthird
    groups := overrideRates_isRead htable.groups hgroups
    rates := overrideRates_isRead htable.rates hrates }

end Override

theorem Produced.isRead (h : Produced table) : table.IsRead := by
  induction h with
  | fromValue hread => exact PricingTable.fromValue_isRead hread
  | override _ hnext ih => exact withOverrideValue_isRead ih hnext

/-! ## The round trip -/

section RoundTrip
variable (shortest : ℚ → DecimalText)

theorem ratesFromValue_toValue {rates : ModelRates} (h : rates.IsRead) :
    ratesFromValue (rates.toValue shortest) = some rates := by
  simp only [ratesFromValue, bind_eq_bind, bind_eq_some_iff]
  refine ⟨_, rfl, rates.cachedInput, asF64_f64Value shortest h.cached_binary,
    rates.cacheMissInput, asF64_f64Value shortest h.miss_binary,
    rates.output, asF64_f64Value shortest h.output_binary, ?_⟩
  exact if_pos ⟨h.cached_nonneg, h.miss_nonneg, h.output_nonneg⟩

/-- The entries are read in their order, and each is appended. -/
theorem readRateFields_toValue (label : Text) {front rates : List (Text × ModelRates)}
    (hsorted : (front ++ rates).Pairwise fun a b => a.1 < b.1)
    (hnamed : ∀ e ∈ rates, e.1.trim = e.1 ∧ e.1 ≠ []) (hread : ∀ e ∈ rates, e.2.IsRead) :
    (rates.map fun e => (e.1, e.2.toValue shortest)).foldlM (readRateField label) front =
      .ok (front ++ rates) := by
  induction rates generalizing front with
  | nil => rw [append_nil]; rfl
  | cons e rates ih =>
    rw [forall_mem_cons] at hnamed hread
    have hbelow : ∀ a ∈ front, a.1 < e.1 := fun a ha =>
      (pairwise_append.mp hsorted).2.2 a ha e mem_cons_self
    have hstep : readRateField label front (e.1, e.2.toValue shortest) = .ok (front ++ [e]) := by
      simp only [readRateField, bind_ok, ensure_ok, require_ok, decide_eq_true_eq]
      refine ⟨(), ?_, e.2, ratesFromValue_toValue shortest hread.1, ?_⟩
      · rw [hnamed.1.1]
        exact hnamed.1.2
      · rw [hnamed.1.1, BTreeMap.insertEntry_last hbelow]
        rfl
    rw [append_cons] at hsorted ⊢
    rw [map_cons, foldlM_cons, hstep]
    exact ih hsorted hnamed.2 hread.2

theorem parseRateMap_toValue (label : Text) {rates : List (Text × ModelRates)}
    (h : RatesRead rates) : parseRateMap label (rateMapValue shortest rates) = .ok rates :=
  @readRateFields_toValue shortest label [] rates h.sorted h.named h.read

theorem mapM_parsePeakWindow_toValue
    (h : ∀ w ∈ windows, w.fromMinute < w.toMinute ∧ w.toMinute < 24 * 60) :
    (windows.map PeakWindow.toValue).mapM parsePeakWindow = .ok windows := by
  induction windows with
  | nil => rfl
  | cons w windows ih =>
    rw [forall_mem_cons] at h
    have hfirst : parsePeakWindow w.toValue = .ok w := by
      simp only [parsePeakWindow, bind_ok, require_ok]
      exact ⟨_, rfl, _, rfl, _, rfl, _, parseHhmm_minuteToHhmm (by omega), _,
        parseHhmm_minuteToHhmm (by omega), rfl⟩
    rw [map_cons, mapM_cons, hfirst, ih h.2]
    rfl

theorem PeakValley.fromValue_toValue (h : rule.IsRead) :
    PeakValley.fromValue (rule.toValue shortest) = .ok rule := by
  have htimezone : trimmedOr (rule.toValue shortest) "timezone" "Asia/Shanghai" = rule.timezone :=
    h.timezone_trim
  have hmultiplier : require (asF64 (f64Value shortest rule.multiplier))
      "peak_valley.multiplier must be a number" = .ok rule.multiplier :=
    require_ok.mpr (asF64_f64Value shortest h.multiplier_binary)
  simp only [PeakValley.fromValue, bind_ok, ensure_ok, require_ok, htimezone, decide_eq_true_eq]
  refine ⟨_, rfl, rule.utcOffsetMinutes, h.offset_eq, rule.multiplier, hmultiplier, (),
    h.multiplier_mem, rule.enabled, rfl, rule.windows, ?_, (), ?_, rfl⟩
  · exact mapM_parsePeakWindow_toValue h.windows_mem
  · rw [List.all_eq_true]
    intro w hw
    simpa using (h.windows_mem w hw).1

theorem PricingTable.fromValue_toValue (h : table.IsRead) :
    PricingTable.fromValue (table.toValue shortest) = .ok table := by
  have hrevision : trimmedOr (table.toValue shortest) "revision" "0.0.0" = table.revision :=
    h.revision_trim
  have hcurrency : trimmedOr (table.toValue shortest) "currency" "CNY" = table.currency :=
    h.currency_trim
  have hunit : trimmedOr (table.toValue shortest) "unit" "per_1m_tokens" = table.unit :=
    h.unit_trim
  simp only [PricingTable.fromValue, bind_ok, ensure_ok, hrevision, hcurrency, hunit,
    decide_eq_true_eq]
  exact ⟨_, rfl, (), h.revision_ne, table.peakValley,
    PeakValley.fromValue_toValue shortest h.rule, table.groups,
    parseRateMap_toValue shortest _ h.groups, table.rates,
    parseRateMap_toValue shortest _ h.rates, rfl⟩

end RoundTrip

/-- A price list that was read from a document, or changed by overrides since, is written as a
document that is read as this list. -/
theorem pricing_roundTrip (shortest : ℚ → DecimalText) {table : PricingTable}
    (h : Produced table) : PricingTable.fromValue (table.toValue shortest) = .ok table :=
  PricingTable.fromValue_toValue shortest h.isRead

/-- An override with a time zone, a window and a rate, each written in its own way. -/
def looseOverride : Value :=
  .object [("peak_windows", .array [.object [("from", .string " 9:05 "), ("to", .string "+10:7")]]),
    ("rates", .object [(" deepseek-v4-pro ", .object [("output", .number (.posInt 2))])]),
    ("timezone", .string " UTC ")]

/-- The built-in list with this override. -/
def overriddenTable : PricingTable :=
  { PricingTable.default with
    peakValley := ⟨true, "UTC", 0, 2, [⟨545, 607⟩]⟩
    rates := [("deepseek-v4-pro", ⟨0, 0, 2⟩)] }

theorem decimal_of_all {t : Text}
    (h : t.all (fun c => c.isDigit || ['+', '-', '.', 'e'].contains c) = true) :
    ∀ c ∈ t, c.isDigit ∨ c ∈ ['+', '-', '.', 'e'] := by
  intro c hc
  simpa using all_eq_true.mp h c hc

def shortestText (q : ℚ) : DecimalText :=
  if q = 0 then ⟨"0.0", decimal_of_all (by decide)⟩ else ⟨"2.0", decimal_of_all (by decide)⟩

theorem overridden_roundTrip :
    PricingTable.fromValue (overriddenTable.toValue shortestText) = .ok overriddenTable :=
  pricing_roundTrip shortestText (@Produced.override looseOverride _ _ default_produced rfl)

end CodeSeeX.Pricing
