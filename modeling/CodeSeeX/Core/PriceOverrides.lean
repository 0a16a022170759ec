import CodeSeeX.Core.CatalogDocuments

/-!
# The prices of a user over those of the catalog

The price list of a user is written as a sparse document and laid over the catalog's list. What
should come out is read field by field: the user's value where it is set and valid, and the
catalog's elsewhere.
-/
namespace CodeSeeX.Config
open Catalog Pricing Checks List Option Text

variable (entry : UserModelRatesConfig) (rates : List (Text × Value)) (billing : UserBillingConfig)
  {key : Text} {value : Value} {text : Option Text} {table : PricingTable} {slug : Text}

open Value (insertField lookup_insertField_self lookup_insertField_ne)

/-! ## What the user sets -/

/-- The three prices of a model. -/
inductive Price where
  | cachedInput
  | cacheMissInput
  | output
  deriving DecidableEq

def Price.ofUser : Price → UserModelRatesConfig → Option Float64
  | cachedInput => UserModelRatesConfig.cachedInput
  | cacheMissInput => UserModelRatesConfig.cacheMissInput
  | output => UserModelRatesConfig.output

def Price.ofRates : Price → ModelRates → ℚ
  | cachedInput => ModelRates.cachedInput
  | cacheMissInput => ModelRates.cacheMissInput
  | output => ModelRates.output

def doubleValue (d : Double) : ℚ := (d.mantissa : ℚ) * 2 ^ d.exponent

/-- A price is valid if it is finite and not negative. -/
def validPrice : Float64 → Option ℚ
  | .finite d => if 0 ≤ d.mantissa then some (doubleValue d) else none
  | _ => none

/-- The rate fields of older files that set a price. -/
def legacyEntries : List (Text × UserModelRatesConfig) :=
  [(modelFlash, { cachedInput := billing.flashCachedInputCny
                  cacheMissInput := billing.flashCacheMissInputCny
                  output := billing.flashOutputCny }),
    (modelPro, { cachedInput := billing.proCachedInputCny
                 cacheMissInput := billing.proCacheMissInputCny
                 output := billing.proOutputCny }),
    (lit "deepseek-v4-flash-vision-exp",
      { cachedInput := billing.visionCachedInputCny
        cacheMissInput := billing.visionCacheMissInputCny
        output := billing.visionOutputCny })].filter fun entry =>
    !(entry.2.cachedInput.isNone && entry.2.cacheMissInput.isNone && entry.2.output.isNone)

def configuredEntries : List (Text × UserModelRatesConfig) :=
  (billing.rates.map BTreeMap.entries).getD []

/-- The entries for a model, the one that counts first in front: what is configured last, and
behind all that the older fields. -/
def entriesFor (slug : Text) : List UserModelRatesConfig :=
  ((configuredEntries billing).reverse.filter fun entry =>
    entry.1.trim ≠ [] ∧ entry.1.trim = slug).map Prod.snd ++
  ((legacyEntries billing).filter fun entry => entry.1 = slug).map Prod.snd

/-- The price that the user sets: the first valid one. -/
def userPrice (slug : Text) (price : Price) : Option ℚ :=
  (entriesFor billing slug).findSome? fun entry => (price.ofUser entry).bind validPrice

def validMultiplier : Float64 → Option ℚ
  | .finite d =>
      if 1 ≤ doubleValue d ∧ doubleValue d ≤ maxPeakMultiplier then some (doubleValue d) else none
  | _ => none

/-- The name of a time zone with its offset. -/
def userZone : Option (Text × ℤ) :=
  (nonEmptyTrimmed billing.timezone).bind fun timezone =>
    (timezoneUtcOffsetMinutes timezone).map fun offset => (timezone, offset)

/-- The minutes of a window text. -/
def userWindow (value : Text) : Option PeakWindow := do
  let raw := value.trim
  let (start, stop) ← ((splitOnce "-" raw).or (splitOnce ".." raw)).or
    (splitOnce "~" raw)
  let start ← parseHhmm start
  let stop ← parseHhmm stop
  if start ≥ stop then none else some { fromMinute := start, toMinute := stop }

def userWindows : List PeakWindow :=
  (billing.peakWindows.getD []).filterMap userWindow

/-! ## What should come out -/

/-- The catalog's price; a model that it does not list has none, read as zero. -/
def catalogPrice (table : PricingTable) (slug : Text) (price : Price) : ℚ :=
  ((table.rates.lookup slug).map price.ofRates).getD 0

def wantedPrice (table : PricingTable) (billing : UserBillingConfig) (slug : Text)
    (price : Price) : ℚ :=
  (userPrice billing slug price).getD (catalogPrice table slug price)

/-- No price of the model is set. -/
def LeavesPrices (slug : Text) : Prop :=
  ∀ price, userPrice billing slug price = none

/-- Each value is the user's where it is set and valid, and the catalog's elsewhere. -/
structure Pointwise (table : PricingTable) (billing : UserBillingConfig) (next : PricingTable) :
    Prop where
  enabled : next.peakValley.enabled = billing.peakValleyEnabled.getD table.peakValley.enabled
  multiplier : next.peakValley.multiplier =
    (billing.peakMultiplier.bind validMultiplier).getD table.peakValley.multiplier
  timezone : next.peakValley.timezone =
    ((userZone billing).map Prod.fst).getD table.peakValley.timezone
  offset : next.peakValley.utcOffsetMinutes =
    ((userZone billing).map Prod.snd).getD table.peakValley.utcOffsetMinutes
  windows : next.peakValley.windows =
    if userWindows billing = [] then table.peakValley.windows else userWindows billing
  currency : next.currency = (nonEmptyTrimmed billing.currency).getD table.currency
  unit : next.unit = (nonEmptyTrimmed billing.unit).getD table.unit
  unset : ∀ slug, LeavesPrices billing slug → next.rates.lookup slug = table.rates.lookup slug
  set : ∀ slug, ¬LeavesPrices billing slug → ∃ rates, next.rates.lookup slug = some rates ∧
    ∀ price : Price, price.ofRates rates = wantedPrice table billing slug price

/-! ## When it comes out -/

/-- No value makes the whole document be refused. -/
def Accepted : Prop :=
  (∀ d, billing.peakMultiplier = some (.finite d) →
    1 ≤ doubleValue d ∧ doubleValue d ≤ maxPeakMultiplier) ∧
  ∀ timezone, nonEmptyTrimmed billing.timezone = some timezone →
    (timezoneUtcOffsetMinutes timezone).isSome = true

/-- None of the prices that an entry sets is invalid. -/
def readable (entry : UserModelRatesConfig) : Bool :=
  [Price.cachedInput, .cacheMissInput, .output].all fun price =>
    (price.ofUser entry).all fun value => (validPrice value).isSome

/-- The entry that is taken for a model. -/
def takenEntry (slug : Text) : Option UserModelRatesConfig :=
  (entriesFor billing slug).find? readable

/-- The price of an entry, an unset one read as zero. -/
def entryPrice (entry : UserModelRatesConfig) (price : Price) : ℚ :=
  ((price.ofUser entry).bind validPrice).getD 0

/-- The prices of the entry that is taken are those that are wanted, also where it sets none; if
none is taken, the prices that are set are those of the catalog. -/
def TakesPrices (table : PricingTable) (billing : UserBillingConfig) (slug : Text) : Prop :=
  match takenEntry billing slug with
  | some entry =>
      (∀ price, entryPrice entry price = wantedPrice table billing slug price) ∧
        (LeavesPrices billing slug → (table.rates.lookup slug).isSome = true)
  | none =>
      (∀ price, wantedPrice table billing slug price = catalogPrice table slug price) ∧
        (¬LeavesPrices billing slug → (table.rates.lookup slug).isSome = true)

/-- Either nothing is refused and the entries hold what is wanted, or what is refused with the rest
is what the catalog has. -/
def KeepsValues (table : PricingTable) (billing : UserBillingConfig) : Prop :=
  (Accepted billing ∧ ∀ slug, TakesPrices table billing slug) ∨
    (¬Accepted billing ∧ Pointwise table billing table)

/-! ## Windows and prices in a document -/

theorem parsePeakWindowSpec_eq (value : Text) :
    parsePeakWindowSpec value = (userWindow value).map PeakWindow.toValue := by
  simp only [parsePeakWindowSpec, userWindow, bind_eq_bind, map_bind,
    Function.comp_def]
  congr 1
  funext parts
  congr 1
  funext start
  congr 1
  funext stop
  split_ifs <;> rfl

theorem userWindow_spec {value : Text} {window : PeakWindow} (h : userWindow value = some window) :
    window.fromMinute < window.toMinute ∧ window.toMinute < 24 * 60 := by
  simp only [userWindow, bind_eq_bind, bind_eq_some_iff] at h
  obtain ⟨_, _, start, _, stop, hstop, heq⟩ := h
  split_ifs at heq with hlt
  obtain rfl := some.inj heq
  exact ⟨Nat.lt_of_not_le hlt, parseHhmm_lt hstop⟩

theorem asF64_toValue (value : Float64) :
    asF64 value.toValue = match value with
      | .finite d => some (doubleValue d)
      | _ => none := by
  cases value <;> rfl

theorem validPrice_eq_some {value : Float64} {q : ℚ} (h : validPrice value = some q) :
    asF64 value.toValue = some q ∧ 0 ≤ q := by
  cases value with
  | finite d =>
    rw [validPrice, ite_none_right_eq_some] at h
    obtain ⟨hsign, heq⟩ := h
    refine ⟨heq, ?_⟩
    obtain rfl := some.inj heq
    have hmantissa : (0 : ℚ) ≤ (d.mantissa : ℚ) := by exact_mod_cast hsign
    exact mul_nonneg hmantissa (zpow_nonneg (by norm_num) _)
  | infinite negative => cases h
  | nan => cases h

theorem isSome_validPrice (value : Float64) :
    (validPrice value).isSome = value.isFiniteNonNegative := by
  cases value with
  | finite d =>
    by_cases hsign : 0 ≤ d.mantissa
    · simp [validPrice, Float64.isFiniteNonNegative, hsign]
    · simp [validPrice, Float64.isFiniteNonNegative, hsign]
  | infinite negative => rfl
  | nan => rfl

theorem validPrice_zero : validPrice .zero = some 0 := by
  simp [validPrice, Float64.zero, doubleValue]

/-- The rates of an entry, an unset price read as zero. -/
def entryRates (entry : UserModelRatesConfig) : ModelRates where
  cachedInput := entryPrice entry .cachedInput
  cacheMissInput := entryPrice entry .cacheMissInput
  output := entryPrice entry .output

theorem ofRates_entryRates (price : Price) :
    price.ofRates (entryRates entry) = entryPrice entry price := by
  cases price <;> rfl

/-! ## Rates in a document -/

theorem getD_zero_valid (value : Option Float64) :
    (value.getD .zero).isFiniteNonNegative = value.all fun v => (validPrice v).isSome := by
  cases value with
  | none => rfl
  | some v => exact (isSome_validPrice v).symm

theorem readable_eq : readable entry =
    [entry.cachedInput.getD .zero, entry.cacheMissInput.getD .zero,
      entry.output.getD .zero].all Float64.isFiniteNonNegative := by
  simp only [readable, all_cons, all_nil, getD_zero_valid]
  rfl

theorem entryPrice_of_readable {entry : UserModelRatesConfig} (h : readable entry = true)
    (price : Price) :
    validPrice ((price.ofUser entry).getD .zero) = some (entryPrice entry price) := by
  rw [readable, List.all_eq_true] at h
  have hprice := h price (by cases price <;> decide)
  rw [entryPrice]
  cases hvalue : price.ofUser entry with
  | none => exact validPrice_zero
  | some value =>
    rw [hvalue, all_some, isSome_iff_exists] at hprice
    obtain ⟨q, hq⟩ := hprice
    show validPrice value = some ((validPrice value).getD 0)
    rw [hq]
    rfl

/-- An entry is written if it can be read, and read as it was written. -/
theorem ratesValue_entry :
    (ratesValue entry.cachedInput entry.cacheMissInput entry.output).bind ratesFromValue =
        (if readable entry then some (entryRates entry) else none) ∧
      (ratesValue entry.cachedInput entry.cacheMissInput entry.output).isSome = readable entry := by
  cases hreadable : readable entry with
  | false =>
    have hnone : ratesValue entry.cachedInput entry.cacheMissInput entry.output = none := by
      refine if_neg ?_
      rw [← readable_eq, hreadable]
      exact Bool.false_ne_true
    rw [hnone]
    exact ⟨rfl, rfl⟩
  | true =>
    have hall := (readable_eq entry).symm.trans hreadable
    have hcached := validPrice_eq_some (entryPrice_of_readable hreadable .cachedInput)
    have hmiss := validPrice_eq_some (entryPrice_of_readable hreadable .cacheMissInput)
    have houtput := validPrice_eq_some (entryPrice_of_readable hreadable .output)
    have hsome : ratesValue entry.cachedInput entry.cacheMissInput entry.output = some (.object
        [("cache_miss_input", (entry.cacheMissInput.getD .zero).toValue),
          ("cached_input", (entry.cachedInput.getD .zero).toValue),
          ("output", (entry.output.getD .zero).toValue)]) := if_pos hall
    rw [hsome]
    refine ⟨?_, rfl⟩
    rw [bind_some, if_pos rfl]
    simp only [ratesFromValue, bind_eq_bind, bind_eq_some_iff]
    exact ⟨_, rfl, _, hcached.1, _, hmiss.1, _, houtput.1,
      if_pos ⟨hcached.2, hmiss.2, houtput.2⟩⟩

/-! ## The rates of the user -/

theorem lookup_insertSome (key other : Text) (value : Option Value) (fields : List (Text × Value)) :
    (insertSome key value fields).lookup other =
      if other = key then value.or (fields.lookup other) else fields.lookup other := by
  cases value with
  | none => simp [insertSome]
  | some value =>
    by_cases heq : other = key
    · subst heq
      rw [if_pos rfl]
      exact lookup_insertField_self other value fields
    · rw [if_neg heq]
      exact lookup_insertField_ne heq value fields

/-- What an entry writes for a model. -/
def entryValue (slug : Text) (entry : Text × UserModelRatesConfig) : Option Value :=
  if entry.1.trim ≠ [] ∧ entry.1.trim = slug then
    ratesValue entry.2.cachedInput entry.2.cacheMissInput entry.2.output
  else none

theorem lookup_configuredRate (entry : Text × UserModelRatesConfig) (slug : Text) :
    (configuredRate rates entry).lookup slug = (entryValue slug entry).or (rates.lookup slug) := by
  rw [configuredRate, entryValue]
  by_cases hblank : entry.1.trim = []
  · rw [if_pos hblank, if_neg (fun h => h.1 hblank)]
    rfl
  · rw [if_neg hblank, lookup_insertSome]
    by_cases heq : slug = entry.1.trim
    · rw [if_pos heq, if_pos ⟨hblank, heq.symm⟩]
    · rw [if_neg heq, if_neg (fun h => heq h.2.symm)]
      rfl

/-- Of what is configured for a model the last that can be written counts. -/
theorem lookup_configuredRates (entries : List (Text × UserModelRatesConfig))
    (rates : List (Text × Value)) (slug : Text) :
    (entries.foldl configuredRate rates).lookup slug =
      (entries.reverse.findSome? (entryValue slug)).or (rates.lookup slug) := by
  induction entries generalizing rates with
  | nil => rfl
  | cons entry entries ih =>
    rw [foldl_cons, ih, lookup_configuredRate, reverse_cons, findSome?_append,
      Option.or_assoc]
    congr 1
    cases hentry : entryValue slug entry with
    | none => simp [hentry]
    | some value => simp [hentry]

theorem lookup_orInsertField (entry : Text × Value) (slug : Text) :
    (orInsertField rates entry).lookup slug =
      (rates.lookup slug).or (if entry.1 = slug then some entry.2 else none) := by
  rw [orInsertField]
  by_cases heq : entry.1 = slug
  · subst heq
    rw [if_pos rfl]
    cases hrates : rates.lookup entry.1 with
    | none =>
      exact lookup_insertField_self _ _ _
    | some value =>
      rw [if_pos (by simp), hrates]
      rfl
  · rw [if_neg heq, or_none]
    split_ifs with hsome
    · rfl
    · exact lookup_insertField_ne (Ne.symm heq) _ _

theorem lookup_orInsertFields (entries rates : List (Text × Value)) (slug : Text) :
    (entries.foldl orInsertField rates).lookup slug =
      (rates.lookup slug).or (entries.findSome? fun entry =>
        if entry.1 = slug then some entry.2 else none) := by
  induction entries generalizing rates with
  | nil => simp
  | cons entry entries ih =>
    rw [foldl_cons, ih, lookup_orInsertField, Option.or_assoc, findSome?_cons]
    congr 1
    split_ifs <;> simp

/-- The older fields, entry by entry. -/
theorem legacyBillingRates_eq : legacyBillingRates billing =
    (legacyEntries billing).filterMap fun entry =>
      (ratesValue entry.2.cachedInput entry.2.cacheMissInput entry.2.output).map (entry.1, ·) := by
  have hone : ∀ (slug : Text) (cached cacheMiss output : Option Float64),
      legacyRate slug cached cacheMiss output =
        ([(slug, ({ cachedInput := cached, cacheMissInput := cacheMiss, output := output } :
          UserModelRatesConfig))].filter fun entry =>
            !(entry.2.cachedInput.isNone && entry.2.cacheMissInput.isNone &&
              entry.2.output.isNone)).filterMap fun entry =>
          (ratesValue entry.2.cachedInput entry.2.cacheMissInput entry.2.output).map
            (entry.1, ·) := by
    intro slug cached cacheMiss output
    rw [legacyRate]
    split_ifs with hnone
    · rw [filter_cons_of_neg (by rw [hnone]; decide)]
      rfl
    · rw [filter_cons_of_pos (by rw [Bool.not_eq_true] at hnone; rw [hnone]; rfl)]
      cases hvalue : ratesValue cached cacheMiss output <;> simp [hvalue]
  rw [legacyBillingRates, hone, hone, hone, legacyEntries, ← filterMap_append,
    ← filterMap_append, ← filter_append, ← filter_append]
  rfl

theorem findSome?_filter_map {α β γ : Type} (p : α → Bool) (g : α → β) (f : β → Option γ)
    (l : List α) : ((l.filter p).map g).findSome? f =
      l.findSome? fun a => if p a then f (g a) else none := by
  induction l with
  | nil => rfl
  | cons a l ih =>
    by_cases ha : p a = true
    · rw [filter_cons_of_pos ha, map_cons, findSome?_cons, findSome?_cons, ih,
        if_pos ha]
    · rw [filter_cons_of_neg ha, findSome?_cons, ih, if_neg ha]

theorem findSome?_filterMap {α β γ : Type} (g : α → Option β) (f : β → Option γ) (l : List α) :
    (l.filterMap g).findSome? f = l.findSome? fun a => (g a).bind f := by
  induction l with
  | nil => rfl
  | cons a l ih =>
    rw [filterMap_cons, findSome?_cons, ← ih]
    cases g a with
    | none => rfl
    | some b => rw [bind_some, findSome?_cons]

/-- The rates written for a model are those of the entry that is taken. -/
theorem lookup_billingRates (slug : Text) :
    ((billingRates billing).lookup slug).bind ratesFromValue =
      (takenEntry billing slug).map entryRates := by
  have hlookup : (billingRates billing).lookup slug = (entriesFor billing slug).findSome?
      fun entry => ratesValue entry.cachedInput entry.cacheMissInput entry.output := by
    rw [billingRates, lookup_orInsertFields, lookup_configuredRates, legacyBillingRates_eq,
      entriesFor, findSome?_append, findSome?_filter_map, findSome?_filter_map,
      findSome?_filterMap, lookup_nil, or_none]
    congr 1
    · congr 1
      funext entry
      simp only [entryValue, decide_eq_true_eq]
    · congr 1
      funext entry
      cases ratesValue entry.2.cachedInput entry.2.cacheMissInput entry.2.output <;> simp
  rw [hlookup, takenEntry]
  induction entriesFor billing slug with
  | nil => rfl
  | cons entry entries ih =>
    obtain ⟨hread, hsome⟩ := ratesValue_entry entry
    rw [findSome?_cons, find?_cons]
    cases hreadable : readable entry with
    | true =>
      rw [hreadable, if_pos rfl] at hread
      rw [hreadable, isSome_iff_exists] at hsome
      obtain ⟨value, hvalue⟩ := hsome
      rw [hvalue] at hread ⊢
      exact hread
    | false =>
      rw [hreadable, isSome_eq_false_iff, isNone_iff_eq_none] at hsome
      rw [hsome]
      exact ih

/-! ## Rates over rates -/

theorem lookup_insertEntry {ν : Type} (key other : Text) (value : ν) (entries : List (Text × ν)) :
    (BTreeMap.insertEntry key value entries).lookup other =
      if other = key then some value else entries.lookup other := by
  induction entries with
  | nil =>
    rw [BTreeMap.insertEntry]
    by_cases heq : other = key
    · simp [heq]
    · simp [heq]
  | cons e entries ih =>
    obtain ⟨k, v⟩ := e
    rw [BTreeMap.insertEntry]
    by_cases heq : other = key
    · subst heq
      rw [if_pos rfl] at ih ⊢
      split_ifs with hlt hkey
      · simp
      · simp
      · rw [lookup_cons, beq_eq_false_iff_ne.mpr hkey, ih]
    · have hne : (other == key) = false := beq_eq_false_iff_ne.mpr heq
      split_ifs with hlt hkey
      · rw [lookup_cons, hne]
      · subst hkey
        rw [lookup_cons, hne, lookup_cons, hne]
      · rw [lookup_cons, lookup_cons, ih, if_neg heq]

theorem lookup_eq_none_of_notMem {ν : Type} {entries : List (Text × ν)}
    (h : key ∉ entries.map Prod.fst) : entries.lookup key = none := by
  rw [lookup_eq_none_iff]
  intro e he
  rw [bne_iff_ne]
  exact fun heq => h (heq ▸ mem_map_of_mem he)

/-- Of two lists laid over each other the upper one counts where it has an entry. -/
theorem lookup_insertAll {entries : List (Text × ModelRates)}
    (h : (entries.map Prod.fst).Nodup) (rates : List (Text × ModelRates)) (slug : Text) :
    (insertAll entries rates).lookup slug =
      (entries.lookup slug).or (rates.lookup slug) := by
  induction entries generalizing rates with
  | nil => rfl
  | cons e entries ih =>
    rw [map_cons, nodup_cons] at h
    rw [insertAll, foldl_cons, ← insertAll, ih h.2, lookup_insertEntry, lookup_cons]
    by_cases heq : slug = e.1
    · rw [if_pos heq, heq, lookup_eq_none_of_notMem h.1, beq_self_eq_true]
      rfl
    · rw [if_neg heq, beq_eq_false_iff_ne.mpr heq]

/-- Fields in order whose keys are trimmed and whose values are rates. -/
structure GoodFields (fields : List (Text × Value)) : Prop where
  sorted : fields.Pairwise fun a b => a.1 < b.1
  named : ∀ field ∈ fields, field.1.trim = field.1 ∧ field.1 ≠ []
  read : ∀ field ∈ fields, (ratesFromValue field.2).isSome = true

theorem GoodFields.insertField {fields : List (Text × Value)} (h : GoodFields fields)
    (htrim : key.trim = key) (hne : key ≠ []) (hvalue : (ratesFromValue value).isSome = true) :
    GoodFields (Value.insertField key value fields) := by
  rw [insertField_eq_insertEntry]
  refine ⟨BTreeMap.insertEntry_sorted key value h.sorted, fun field hfield => ?_,
    fun field hfield => ?_⟩
  · cases BTreeMap.mem_insertEntry hfield with
    | inl heq => exact heq ▸ ⟨htrim, hne⟩
    | inr hmem => exact h.named field hmem
  · cases BTreeMap.mem_insertEntry hfield with
    | inl heq => exact heq ▸ hvalue
    | inr hmem => exact h.read field hmem

theorem ratesFromValue_of_ratesValue {entry : UserModelRatesConfig}
    (h : ratesValue entry.cachedInput entry.cacheMissInput entry.output = some value) :
    (ratesFromValue value).isSome = true := by
  obtain ⟨hread, hsome⟩ := ratesValue_entry entry
  rw [h] at hread hsome
  rw [← hsome, isSome_some, if_pos rfl] at hread
  rw [show ratesFromValue value = some (entryRates entry) from hread]
  rfl

theorem configuredRates_good {entries : List (Text × UserModelRatesConfig)}
    {rates : List (Text × Value)} (h : GoodFields rates) :
    GoodFields (entries.foldl configuredRate rates) := by
  induction entries generalizing rates with
  | nil => exact h
  | cons entry entries ih =>
    refine ih ?_
    rw [configuredRate]
    split_ifs with hblank
    · exact h
    · cases hvalue : ratesValue entry.2.cachedInput entry.2.cacheMissInput entry.2.output with
      | none => exact h
      | some value =>
        exact h.insertField (trim_trim _) hblank (ratesFromValue_of_ratesValue hvalue)

theorem orInsertFields_good {entries rates : List (Text × Value)} (h : GoodFields rates)
    (hnamed : ∀ entry ∈ entries, entry.1.trim = entry.1 ∧ entry.1 ≠ [])
    (hread : ∀ entry ∈ entries, (ratesFromValue entry.2).isSome = true) :
    GoodFields (entries.foldl orInsertField rates) := by
  induction entries generalizing rates with
  | nil => exact h
  | cons entry entries ih =>
    rw [forall_mem_cons] at hnamed hread
    refine ih ?_ hnamed.2 hread.2
    rw [orInsertField]
    split_ifs
    · exact h
    · exact h.insertField hnamed.1.1 hnamed.1.2 hread.1

theorem billingRates_good : GoodFields (billingRates billing) := by
  have hnil : GoodFields [] := ⟨List.Pairwise.nil, nofun, nofun⟩
  have hlegacy : ∀ entry ∈ legacyBillingRates billing, (entry.1.trim = entry.1 ∧ entry.1 ≠ []) ∧
      (ratesFromValue entry.2).isSome = true := by
    intro entry hentry
    rw [legacyBillingRates_eq, mem_filterMap] at hentry
    obtain ⟨source, hsource, hvalue⟩ := hentry
    obtain ⟨value, hwritten, rfl⟩ := map_eq_some_iff.mp hvalue
    have hslug : source.1 ∈ ([modelFlash, modelPro,
        lit "deepseek-v4-flash-vision-exp"] : List Text) := by
      have hmem := mem_map_of_mem (f := Prod.fst) (mem_of_mem_filter hsource)
      exact hmem
    have hnames : ∀ name ∈ ([modelFlash, modelPro,
        lit "deepseek-v4-flash-vision-exp"] : List Text), name.trim = name ∧ name ≠ [] := by
      decide +kernel
    exact ⟨hnames _ hslug, ratesFromValue_of_ratesValue hwritten⟩
  exact orInsertFields_good (configuredRates_good hnil) (fun e he => (hlegacy e he).1)
    fun e he => (hlegacy e he).2

/-- Good fields are read one after the other. -/
theorem readRateFields_good (label : Text) {fields : List (Text × Value)} (h : GoodFields fields)
    {front : List (Text × ModelRates)} (hfront : ∀ a ∈ front, ∀ b ∈ fields, a.1 < b.1) :
    ∃ rates : List (Text × ModelRates), rates.map Prod.fst = fields.map Prod.fst ∧
      (∀ slug, rates.lookup slug = (fields.lookup slug).bind ratesFromValue) ∧
      fields.foldlM (readRateField label) front = .ok (front ++ rates) := by
  induction fields generalizing front with
  | nil => exact ⟨[], rfl, fun _ => rfl, by rw [append_nil]; rfl⟩
  | cons field fields ih =>
    have hsorted := pairwise_cons.mp h.sorted
    have hnamed := h.named field mem_cons_self
    obtain ⟨first, hfirst⟩ := isSome_iff_exists.mp (h.read field mem_cons_self)
    have hstep : readRateField label front field = .ok (front ++ [(field.1, first)]) := by
      simp only [readRateField, bind_ok, ensure_ok, require_ok, decide_eq_true_eq]
      refine ⟨(), ?_, first, hfirst, ?_⟩
      · rw [hnamed.1]
        exact hnamed.2
      · rw [hnamed.1, BTreeMap.insertEntry_last fun a ha => hfront a ha field mem_cons_self]
        rfl
    have hgood : GoodFields fields := ⟨hsorted.2,
      fun f hf => h.named f (mem_cons_of_mem field hf),
      fun f hf => h.read f (mem_cons_of_mem field hf)⟩
    have hbelow : ∀ a ∈ front ++ [(field.1, first)], ∀ b ∈ fields, a.1 < b.1 := by
      intro a ha b hb
      cases mem_append.mp ha with
      | inl hmem => exact hfront a hmem b (mem_cons_of_mem field hb)
      | inr hlast =>
        obtain rfl := mem_singleton.mp hlast
        exact hsorted.1 b hb
    obtain ⟨rates, hkeys, hlookup, hfold⟩ := ih hgood hbelow
    refine ⟨(field.1, first) :: rates, by rw [map_cons, map_cons, hkeys], ?_, ?_⟩
    · intro slug
      rw [lookup_cons, lookup_cons, hlookup]
      cases slug == field.1 with
      | true => exact hfirst.symm
      | false => rfl
    · rw [append_cons, ← hfold, foldlM_cons, hstep]
      rfl

/-! ## The document of the user -/

/-- The windows of the user as they are written, if there are any. -/
def windowsField : Option Value :=
  if userWindows billing = [] then none
  else some (.array ((userWindows billing).map PeakWindow.toValue))

def ratesField : Option Value :=
  if billingRates billing = [] then none else some (.object (billingRates billing))

/-- The fields of the sparse document. -/
def billingFields : List (Text × Value) :=
  insertSome "rates" (ratesField billing) <|
    insertSome "peak_windows" (windowsField billing) <|
      insertSome "unit" ((nonEmptyTrimmed billing.unit).map .string) <|
        insertSome "currency" ((nonEmptyTrimmed billing.currency).map .string) <|
          insertSome "timezone" ((nonEmptyTrimmed billing.timezone).map .string) <|
            insertSome "peak_multiplier" (billing.peakMultiplier.map Float64.toValue) <|
              insertSome "peak_valley_enabled" (billing.peakValleyEnabled.map .bool) []

theorem windowsField_eq :
    ((billing.peakWindows.map (·.filterMap parsePeakWindowSpec)).filter (· ≠ [])).map .array =
      windowsField billing := by
  have hmap : ∀ windows : List Text, windows.filterMap parsePeakWindowSpec =
      (windows.filterMap userWindow).map PeakWindow.toValue := by
    intro windows
    rw [map_filterMap]
    exact congrArg (fun f => windows.filterMap f) (funext parsePeakWindowSpec_eq)
  rw [windowsField, userWindows]
  cases billing.peakWindows with
  | none => rfl
  | some windows =>
    rw [map_some, getD_some, hmap]
    cases windows.filterMap userWindow with
    | nil => rfl
    | cons window rest => rfl

theorem pricingOverride_eq : pricingOverrideFromUserBilling billing =
    if billingFields billing = [] then none else some (.object (billingFields billing)) := by
  have hrates : ∀ fields : List (Text × Value),
      (if billingRates billing = [] then fields
        else insertField "rates" (.object (billingRates billing)) fields) =
      insertSome "rates" (ratesField billing) fields := by
    intro fields
    rw [ratesField]
    split_ifs <;> rfl
  rw [billingFields, ← windowsField_eq, ← hrates]
  rfl

/-- What stands under the keys of the document. -/
structure ReadsBilling (value : Value) : Prop where
  object : ∃ fields, value.asObject = some fields
  enabled : value.get "peak_valley_enabled" = billing.peakValleyEnabled.map .bool
  multiplier : value.get "peak_multiplier" = billing.peakMultiplier.map Float64.toValue
  timezone : value.get "timezone" = (nonEmptyTrimmed billing.timezone).map .string
  currency : value.get "currency" = (nonEmptyTrimmed billing.currency).map .string
  unit : value.get "unit" = (nonEmptyTrimmed billing.unit).map .string
  windows : value.get "peak_windows" = windowsField billing
  rates : value.get "rates" = ratesField billing
  revision : value.get "revision" = none
  groups : value.get "groups" = none

theorem billingFields_reads :
    ReadsBilling billing (.object (billingFields billing)) := by
  constructor
  case object => exact ⟨_, rfl⟩
  all_goals simp [Value.get, billingFields, lookup_insertSome]

theorem getStr_map_string (h : value.get key = text.map .string) : value.getStr key = text := by
  rw [Value.getStr, h]
  cases text <;> rfl

theorem nonEmptyTrimmed_trim {trimmed : Text} (h : nonEmptyTrimmed text = some trimmed) :
    trimmed.trim = trimmed ∧ trimmed ≠ [] := by
  obtain ⟨hmap, hne⟩ := filter_eq_some_iff.mp h
  obtain ⟨source, _, rfl⟩ := map_eq_some_iff.mp hmap
  exact ⟨trim_trim _, by simpa using hne⟩

theorem nonEmptyTrimmed_twice (text : Option Text) :
    nonEmptyTrimmed (nonEmptyTrimmed text) = nonEmptyTrimmed text := by
  cases htext : nonEmptyTrimmed text with
  | none => rfl
  | some trimmed =>
    obtain ⟨htrim, hne⟩ := nonEmptyTrimmed_trim htext
    rw [nonEmptyTrimmed, map_some, htrim, filter_some, if_pos (by simpa using hne)]

/-! ## Laying the document over the catalog -/

section
variable {billing : UserBillingConfig} {value : Value} (h : ReadsBilling billing value)
include h

theorem multiplier_accepted (haccepted : Accepted billing) (rule : PeakValley) :
    overrideMultiplier value rule = .ok { rule with
      multiplier := (billing.peakMultiplier.bind validMultiplier).getD rule.multiplier } := by
  have hread : (value.get "peak_multiplier").bind asF64 =
      billing.peakMultiplier.bind validMultiplier ∧
      ∀ multiplier, billing.peakMultiplier.bind validMultiplier = some multiplier →
        ¬(multiplier < 1 ∨ multiplier > maxPeakMultiplier) := by
    rw [h.multiplier]
    cases hmultiplier : billing.peakMultiplier with
    | none => exact ⟨rfl, nofun⟩
    | some number =>
      cases number with
      | finite d =>
        have hrange := haccepted.1 d hmultiplier
        have hvalid : validMultiplier (.finite d) = some (doubleValue d) := if_pos hrange
        rw [bind_some, hvalid]
        refine ⟨rfl, fun multiplier heq => ?_⟩
        obtain rfl := some.inj heq
        rw [not_or, not_lt, not_lt]
        exact hrange
      | infinite negative => exact ⟨rfl, nofun⟩
      | nan => exact ⟨rfl, nofun⟩
  rw [overrideMultiplier, hread.1]
  cases hvalid : billing.peakMultiplier.bind validMultiplier with
  | none => rfl
  | some multiplier => exact if_neg (hread.2 multiplier hvalid)

theorem timezone_accepted (haccepted : Accepted billing) (rule : PeakValley) :
    overrideTimezone value rule = .ok { rule with
      timezone := ((userZone billing).map Prod.fst).getD rule.timezone
      utcOffsetMinutes := ((userZone billing).map Prod.snd).getD rule.utcOffsetMinutes } := by
  rw [overrideTimezone, getStr_map_string h.timezone, userZone]
  cases htimezone : nonEmptyTrimmed billing.timezone with
  | none => rfl
  | some timezone =>
    obtain ⟨offset, hoffset⟩ := isSome_iff_exists.mp (haccepted.2 timezone htimezone)
    simp only [(nonEmptyTrimmed_trim htimezone).1, hoffset, require, bind_some,
      map_some, getD_some]
    rfl

theorem windows_written (rule : PeakValley) :
    overrideWindows value rule = .ok { rule with
      windows := if userWindows billing = [] then rule.windows else userWindows billing } := by
  have hspec : ∀ w ∈ userWindows billing, w.fromMinute < w.toMinute ∧ w.toMinute < 24 * 60 := by
    intro w hw
    obtain ⟨text, _, hwindow⟩ := mem_filterMap.mp hw
    exact userWindow_spec hwindow
  rw [overrideWindows, h.windows, windowsField]
  split_ifs with hnone
  · rfl
  · simp only [bind_ok, require_ok, ensure_ok]
    refine ⟨_, rfl, _, mapM_parsePeakWindow_toValue hspec, (), ?_, rfl⟩
    rw [List.all_eq_true]
    exact fun w hw => decide_eq_true (hspec w hw).1

/-- The rates that are laid over those of the catalog: for each model the entry that is taken. -/
theorem rates_written (rates : List (Text × ModelRates)) : ∃ next,
    overrideRates value "rates" "pricing.rates" rates = .ok next ∧
      ∀ slug, next.lookup slug =
        ((takenEntry billing slug).map entryRates).or (rates.lookup slug) := by
  have hgood := billingRates_good billing
  obtain ⟨entries, hkeys, hlookup, hfold⟩ :=
    @readRateFields_good "pricing.rates" _ hgood [] nofun
  have hnodup : (entries.map Prod.fst).Nodup := by
    rw [hkeys]
    exact pairwise_map.mpr (hgood.sorted.imp ne_of_lt)
  refine ⟨insertAll entries rates, ?_, fun slug => ?_⟩
  · rw [overrideRates, h.rates, ratesField]
    split_ifs with hnone
    · rw [hnone, map_nil, map_eq_nil_iff] at hkeys
      rw [hkeys]
      rfl
    · simp only [bind_ok]
      exact ⟨entries, parseRateMap_eq .. ▸ hfold, rfl⟩
  · rw [lookup_insertAll hnodup, hlookup, lookup_billingRates]

/-- An accepted document is laid over the list. -/
theorem withOverride_accepted (haccepted : Accepted billing) (table : PricingTable) : ∃ rates,
    withOverrideValue table value = .ok { table with
      currency := (nonEmptyTrimmed billing.currency).getD table.currency
      unit := (nonEmptyTrimmed billing.unit).getD table.unit
      peakValley := {
        enabled := billing.peakValleyEnabled.getD table.peakValley.enabled
        timezone := ((userZone billing).map Prod.fst).getD table.peakValley.timezone
        utcOffsetMinutes := ((userZone billing).map Prod.snd).getD table.peakValley.utcOffsetMinutes
        multiplier :=
          (billing.peakMultiplier.bind validMultiplier).getD table.peakValley.multiplier
        windows :=
          if userWindows billing = [] then table.peakValley.windows else userWindows billing }
      rates := rates } ∧
    ∀ slug, rates.lookup slug =
      ((takenEntry billing slug).map entryRates).or (table.rates.lookup slug) := by
  obtain ⟨fields, hfields⟩ := h.object
  obtain ⟨rates, hrates, hlookup⟩ := rates_written h table.rates
  have henabled : (value.get "peak_valley_enabled").bind Value.asBool =
      billing.peakValleyEnabled := by
    rw [h.enabled]
    cases billing.peakValleyEnabled <;> rfl
  have hrevision : overrideText value "revision" table.revision = table.revision := by
    rw [overrideText, Value.getStr, h.revision]
    rfl
  have hcurrency : overrideText value "currency" table.currency =
      (nonEmptyTrimmed billing.currency).getD table.currency := by
    rw [overrideText, getStr_map_string h.currency, nonEmptyTrimmed_twice]
  have hunit : overrideText value "unit" table.unit =
      (nonEmptyTrimmed billing.unit).getD table.unit := by
    rw [overrideText, getStr_map_string h.unit, nonEmptyTrimmed_twice]
  have hgroups : overrideRates value "groups" "pricing.groups" table.groups = .ok table.groups := by
    rw [overrideRates, h.groups]
  refine ⟨rates, ?_, hlookup⟩
  simp only [withOverrideValue, bind_ok, require_ok]
  refine ⟨fields, hfields, _, multiplier_accepted h haccepted _, _,
    timezone_accepted h haccepted _, _, windows_written h _, _, hrates, _, hgroups, ?_⟩
  rw [hrevision, hcurrency, hunit, henabled]
  rfl

/-- One value that is out of range refuses the whole document. -/
theorem withOverride_refused (hrefused : ¬Accepted billing) (table : PricingTable) :
    ∃ error, withOverrideValue table value = .error error := by
  cases hresult : withOverrideValue table value with
  | error error => exact ⟨error, rfl⟩
  | ok next =>
    refine absurd ?_ hrefused
    simp only [withOverrideValue, bind_ok, require_ok] at hresult
    obtain ⟨_, _, first, hmultiplier, second, htimezone, _⟩ := hresult
    constructor
    · intro d hd
      by_contra hrange
      rw [overrideMultiplier, h.multiplier, hd, map_some, bind_some,
        asF64_toValue] at hmultiplier
      have hout : doubleValue d < 1 ∨ doubleValue d > maxPeakMultiplier := by
        rwa [not_and_or, not_le, not_le] at hrange
      simp only [if_pos hout] at hmultiplier
      cases hmultiplier
    · intro timezone hzone
      rw [overrideTimezone, getStr_map_string h.timezone, hzone] at htimezone
      obtain ⟨offset, hoffset, _⟩ := bind_ok.mp htimezone
      rw [require_ok, (nonEmptyTrimmed_trim hzone).1] at hoffset
      rw [hoffset]
      rfl

end

/-! ## Value by value -/

theorem wantedPrice_of_leaves {billing : UserBillingConfig} (h : LeavesPrices billing slug)
    (price : Price) :
    wantedPrice table billing slug price = catalogPrice table slug price := by
  rw [wantedPrice, h price, getD_none]

theorem catalogPrice_of_lookup {rates : ModelRates} (h : table.rates.lookup slug = some rates)
    (price : Price) :
    catalogPrice table slug price = price.ofRates rates := by
  rw [catalogPrice, h]
  rfl

theorem rates_ext {first second : ModelRates}
    (h : ∀ price : Price, price.ofRates first = price.ofRates second) : first = second := by
  have hcached := h .cachedInput
  have hmiss := h .cacheMissInput
  have houtput := h .output
  cases first
  cases second
  simp_all [Price.ofRates]

/-- A model's prices come out as they should exactly if the entry taken for it holds them. -/
theorem takesPrices_iff {billing : UserBillingConfig} {rates : List (Text × ModelRates)}
    (hrates : rates.lookup slug =
      ((takenEntry billing slug).map entryRates).or (table.rates.lookup slug)) :
    TakesPrices table billing slug ↔
      (LeavesPrices billing slug → rates.lookup slug = table.rates.lookup slug) ∧
      (¬LeavesPrices billing slug → ∃ found, rates.lookup slug = some found ∧
        ∀ price : Price, price.ofRates found = wantedPrice table billing slug price) := by
  rw [TakesPrices, hrates]
  cases takenEntry billing slug with
  | none =>
    rw [map_none, none_or]
    constructor
    · rintro ⟨hwanted, hlisted⟩
      refine ⟨fun _ => rfl, fun hset => ?_⟩
      obtain ⟨found, hfound⟩ := isSome_iff_exists.mp (hlisted hset)
      exact ⟨found, hfound, fun price =>
        (catalogPrice_of_lookup hfound price).symm.trans (hwanted price).symm⟩
    · rintro ⟨_, hset⟩
      by_cases hleaves : LeavesPrices billing slug
      · exact ⟨wantedPrice_of_leaves hleaves, fun hnot => absurd hleaves hnot⟩
      · obtain ⟨found, hfound, hprices⟩ := hset hleaves
        refine ⟨fun price => ?_, fun _ => by rw [hfound]; rfl⟩
        rw [catalogPrice_of_lookup hfound, hprices]
  | some entry =>
    constructor
    · rintro ⟨hprices, hlisted⟩
      refine ⟨fun hleaves => ?_, fun _ => ⟨_, rfl, fun price => ?_⟩⟩
      · obtain ⟨found, hfound⟩ := isSome_iff_exists.mp (hlisted hleaves)
        rw [hfound]
        refine congrArg some (rates_ext fun price => ?_)
        rw [ofRates_entryRates, hprices, wantedPrice_of_leaves hleaves,
          catalogPrice_of_lookup hfound]
      · rw [ofRates_entryRates, hprices]
    · rintro ⟨hunset, hset⟩
      by_cases hleaves : LeavesPrices billing slug
      · have hfound := (hunset hleaves).symm
        refine ⟨fun price => ?_, fun _ => by rw [hfound]; rfl⟩
        rw [wantedPrice_of_leaves hleaves, catalogPrice_of_lookup hfound, ofRates_entryRates]
      · obtain ⟨found, hfound, hprices⟩ := hset hleaves
        obtain rfl := some.inj hfound
        exact ⟨fun price => by rw [← ofRates_entryRates, hprices],
          fun hnot => absurd hnot hleaves⟩

/-- What the catalog in effect has for prices. -/
theorem pricing_of_overrides (embedded document : CatalogDocument)
    (models : BTreeMap Text CatalogModelOverride) (billing : UserBillingConfig) :
    (applyCatalogOverrides embedded document
      { models := models, pricing := pricingOverrideFromUserBilling billing }).pricing =
    match withOverrideValue document.pricing (.object (billingFields billing)) with
    | .ok updated => updated
    | .error _ => document.pricing := by
  rw [applyCatalogOverrides, pricingOverride_eq]
  by_cases hnone : billingFields billing = []
  · rw [if_pos hnone, hnone]
    split_ifs <;> rfl
  · have hfull : ¬CatalogOverrides.isEmpty
        { models := models, pricing := some (.object (billingFields billing)) } = true := by
      simp [CatalogOverrides.isEmpty]
    rw [if_neg hnone]
    exact congrArg CatalogDocument.pricing (if_neg hfull)

section
variable (embedded document : CatalogDocument) (models : BTreeMap Text CatalogModelOverride)
  {billing : UserBillingConfig}

theorem pointwise_of_accepted (haccepted : Accepted billing) :
    Pointwise document.pricing billing (applyCatalogOverrides embedded document
      { models := models, pricing := pricingOverrideFromUserBilling billing }).pricing ↔
      ∀ slug, TakesPrices document.pricing billing slug := by
  obtain ⟨rates, hnext, hlookup⟩ :=
    withOverride_accepted (billingFields_reads billing) haccepted document.pricing
  rw [pricing_of_overrides, hnext]
  constructor
  · intro hpointwise slug
    exact (takesPrices_iff (hlookup slug)).mpr ⟨hpointwise.unset slug, hpointwise.set slug⟩
  · intro htakes
    exact {
      enabled := rfl
      multiplier := rfl
      timezone := rfl
      offset := rfl
      windows := rfl
      currency := rfl
      unit := rfl
      unset := fun slug => ((takesPrices_iff (hlookup slug)).mp (htakes slug)).1
      set := fun slug => ((takesPrices_iff (hlookup slug)).mp (htakes slug)).2 }

/-- A refused document leaves the list of the catalog as it is. -/
theorem pricing_of_refused (hrefused : ¬Accepted billing) :
    (applyCatalogOverrides embedded document
      { models := models, pricing := pricingOverrideFromUserBilling billing }).pricing =
      document.pricing := by
  obtain ⟨error, herror⟩ :=
    withOverride_refused (billingFields_reads billing) hrefused document.pricing
  rw [pricing_of_overrides, herror]

/-- The overrides are pointwise exactly if nothing is refused and the entry taken for each model
holds what is wanted, or what is refused is what the catalog has. -/
theorem overrides_pointwise_iff (billing : UserBillingConfig) :
    Pointwise document.pricing billing (applyCatalogOverrides embedded document
      { models := models, pricing := pricingOverrideFromUserBilling billing }).pricing ↔
      KeepsValues document.pricing billing := by
  by_cases haccepted : Accepted billing
  · rw [pointwise_of_accepted embedded document models haccepted]
    constructor
    · exact fun htakes => .inl ⟨haccepted, htakes⟩
    · exact fun hkeeps => (hkeeps.resolve_right fun hrefused => hrefused.1 haccepted).2
  · rw [pricing_of_refused embedded document models haccepted]
    constructor
    · exact fun hpointwise => .inr ⟨haccepted, hpointwise⟩
    · exact fun hkeeps => (hkeeps.resolve_left fun hkept => haccepted hkept.1).2

end

/-! ## One price of three, one multiplier too large -/

/-- A whole number, written with a decimal. -/
def wholeDouble (n : ℕ) : Double where
  mantissa := n
  exponent := 0
  shortest := ofNat n ++ (".0" : Text)
  shortest_chars := by
    intro c hc
    cases mem_append.mp hc with
    | inl hmem => exact .inl (digit_of_mem_ofNat hmem)
    | inr hmem =>
      have hend : c ∈ ['.', '0'] := hmem
      simp only [mem_cons, not_mem_nil, or_false] at hend
      rcases hend with rfl | rfl
      · exact .inr (by decide)
      · exact .inl (by decide)

theorem doubleValue_whole (n : ℕ) : doubleValue (wholeDouble n) = n := by
  simp [doubleValue, wholeDouble]

/-- The user sets the output price of a model, and nothing else. -/
def outputPrice : UserBillingConfig :=
  { rates := some (BTreeMap.empty.insert (lit "deepseek-v4-pro")
      { output := some (.finite (wholeDouble 2)) }) }

/-- The user sets a currency, and a multiplier that is too large. -/
def dollars : UserBillingConfig :=
  { peakMultiplier := some (.finite (wholeDouble 500)), currency := some "USD" }

def proCatalog : CatalogDocument where
  schemaVersion := 1
  revision := "2026.9"
  issuedAt := none
  providerName := "DeepSeek"
  defaultModel := "deepseek-v4-pro"
  minAppVersion := none
  models := []
  pricing := { PricingTable.default with
    rates := [(lit "deepseek-v4-pro",
      { cachedInput := 1, cacheMissInput := 4, output := 12 })] }

/-- The prices that are left unset become zero, and the multiplier takes the currency with it. -/
theorem unset_prices_zeroed :
    ¬Pointwise proCatalog.pricing outputPrice (applyCatalogOverrides proCatalog proCatalog
      { models := .empty, pricing := pricingOverrideFromUserBilling outputPrice }).pricing ∧
    ¬Pointwise proCatalog.pricing dollars (applyCatalogOverrides proCatalog proCatalog
      { models := .empty, pricing := pricingOverrideFromUserBilling dollars }).pricing := by
  constructor
  · have haccepted : Accepted outputPrice := ⟨nofun, nofun⟩
    rw [pointwise_of_accepted proCatalog proCatalog .empty haccepted]
    intro htakes
    have hentry : takenEntry outputPrice (lit "deepseek-v4-pro") =
        some { output := some (.finite (wholeDouble 2)) } := rfl
    have hpro := htakes (lit "deepseek-v4-pro")
    rw [TakesPrices, hentry] at hpro
    have hcached := hpro.1 .cachedInput
    have hwanted : wantedPrice proCatalog.pricing outputPrice (lit "deepseek-v4-pro")
        .cachedInput = 1 := rfl
    rw [hwanted] at hcached
    exact absurd hcached (by decide)
  · have hrefused : ¬Accepted dollars := by
      intro haccepted
      have hrange := (haccepted.1 _ rfl).2
      rw [doubleValue_whole, maxPeakMultiplier] at hrange
      norm_num at hrange
    rw [pricing_of_refused proCatalog proCatalog .empty hrefused]
    intro hpointwise
    exact absurd hpointwise.currency (by decide)

end CodeSeeX.Config
