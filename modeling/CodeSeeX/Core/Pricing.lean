import CodeSeeX.Text

/-!
# Pricing

The part of the pricing table that the store reads: which rates a model has and
whether a completion time falls into a peak window. A finite binary64 price is
the rational number that it denotes.
-/
namespace CodeSeeX.Pricing

structure ModelRates where
  cachedInput : ℚ
  cacheMissInput : ℚ
  output : ℚ
deriving DecidableEq

structure PeakWindow where
  fromMinute : ℕ
  toMinute : ℕ
deriving DecidableEq

def PeakWindow.contains (window : PeakWindow) (minuteOfDay : ℕ) : Bool :=
  minuteOfDay ≥ window.fromMinute ∧ minuteOfDay < window.toMinute

structure PeakValley where
  enabled : Bool
  timezone : Text
  utcOffsetMinutes : ℤ
  multiplier : ℚ
  windows : List PeakWindow
deriving DecidableEq

def PeakValley.default : PeakValley where
  enabled := true
  timezone := "Asia/Shanghai"
  utcOffsetMinutes := 8 * 60
  multiplier := 2
  windows := [⟨9 * 60, 12 * 60⟩, ⟨14 * 60, 18 * 60⟩]

structure BillingPeriod where
  name : Text
  multiplier : ℚ
deriving DecidableEq

def BillingPeriod.offPeak : BillingPeriod := ⟨"off_peak", 1⟩

inductive RateSource where
  | exact
  | group
deriving DecidableEq

def RateSource.label : RateSource → Text
  | exact => "model"
  | group => "group"

structure ResolvedRate where
  rates : ModelRates
  source : RateSource
deriving DecidableEq

/-- The two `BTreeMap`s are their entries in key order. -/
structure PricingTable where
  revision : Text
  currency : Text
  unit : Text
  peakValley : PeakValley
  groups : List (Text × ModelRates)
  rates : List (Text × ModelRates)
deriving DecidableEq

def PricingTable.default : PricingTable where
  revision := "0.0.0"
  currency := "CNY"
  unit := "per_1m_tokens"
  peakValley := PeakValley.default
  groups := []
  rates := []

/-! ## Completion times -/

def daysFromCivil (year month day : ℤ) : ℤ :=
  let year := if month ≤ 2 then year - 1 else year
  let era := (if year ≥ 0 then year else year - 399).tdiv 400
  let yearOfEra := year - era * 400
  let monthPosition := (month + 9).tmod 12
  let dayOfYear := (153 * monthPosition + 2).tdiv 5 + day - 1
  let dayOfEra := yearOfEra * 365 + yearOfEra.tdiv 4 - yearOfEra.tdiv 100 + dayOfYear
  era * 146097 + dayOfEra - 719468

/-- `rest` after an optional `:SS`. -/
def skipSeconds (rest : Text) : Option Text :=
  match rest with
  | ':' :: secondRest => do
      let seconds ← Text.parseI64 (secondRest.takeWhile Char.isDigit)
      if seconds > 60 then none else some (secondRest.dropWhile Char.isDigit)
  | _ => some rest

/-- `rest` after an optional fraction of a second. -/
def skipFraction (rest : Text) : Text :=
  match rest with
  | '.' :: fractionRest => fractionRest.dropWhile Char.isDigit
  | _ => rest

def parseOffsetMinutes (rest : Text) : Option ℤ :=
  match rest with
  | [] => some 0
  | sign :: offsetText =>
      if sign = 'Z' ∨ sign = 'z' then some 0
      else if sign = '+' ∨ sign = '-' then do
        let (hourText, minuteText) := (Text.splitOnce ":" offsetText).getD (offsetText, "0")
        let offsetHour ← Text.parseI64 hourText
        let offsetMinute ← Text.parseI64 minuteText
        let magnitude := offsetHour * 60 + offsetMinute
        some (if sign = '-' then -magnitude else magnitude)
      else none

/-- Minimal RFC 3339 minute parser: date, time, optional fractional seconds and a numeric
offset. -/
def parseRfc3339UtcMinutes (value : Text) : Option ℤ := do
  let text := Text.trim value
  let bytes := Text.bytes text
  if bytes.length < 16 then none
  let year ← (Text.byteRange? text 0 4).bind Text.parseI64
  let month ← (Text.byteRange? text 5 7).bind Text.parseI64
  let day ← (Text.byteRange? text 8 10).bind Text.parseI64
  if bytes[4]? ≠ some '-'.toUInt8 ∨ bytes[7]? ≠ some '-'.toUInt8 then none
  let separator := bytes[10]?
  if separator ≠ some 'T'.toUInt8 ∧ separator ≠ some 't'.toUInt8 ∧ separator ≠ some ' '.toUInt8
  then none
  let hour ← (Text.byteRange? text 11 13).bind Text.parseI64
  let minute ← (Text.byteRange? text 14 16).bind Text.parseI64
  if bytes[13]? ≠ some ':'.toUInt8 ∨ hour > 23 ∨ minute > 59 then none
  if ¬ (1 ≤ month ∧ month ≤ 12) ∨ ¬ (1 ≤ day ∧ day ≤ 31) then none
  let (_, rest) ← Text.byteSplit? 16 text
  let rest ← skipSeconds rest
  let offsetMinutes ← parseOffsetMinutes (skipFraction rest)
  some (daysFromCivil year month day * 24 * 60 + hour * 60 + minute - offsetMinutes)

def localMinuteOfDay (timestamp : Text) (utcOffsetMinutes : ℤ) : Option ℕ :=
  (parseRfc3339UtcMinutes timestamp).map fun utcMinutes =>
    ((utcMinutes + utcOffsetMinutes) % (24 * 60)).toNat

/-! ## The rules the store asks -/

def PeakValley.isActive (rule : PeakValley) : Bool :=
  rule.enabled ∧ rule.windows ≠ [] ∧ rule.multiplier > 1

/-- A timestamp that cannot be parsed is off-peak. -/
def PeakValley.periodFor (rule : PeakValley) (completedAt : Text) : BillingPeriod :=
  if !rule.isActive then BillingPeriod.offPeak
  else match localMinuteOfDay completedAt rule.utcOffsetMinutes with
    | none => BillingPeriod.offPeak
    | some minute =>
        if rule.windows.any (·.contains minute) then ⟨"peak", rule.multiplier⟩
        else BillingPeriod.offPeak

def PricingTable.periodFor (table : PricingTable) (completedAt : Text) : BillingPeriod :=
  table.peakValley.periodFor completedAt

def PricingTable.rateFor (table : PricingTable) (model : Text) (group : Option Text) :
    Option ResolvedRate :=
  match table.rates.lookup (Text.trim model) with
  | some rates => some ⟨rates, .exact⟩
  | none =>
      ((group.map Text.trim).filter (· ≠ [])).bind fun group =>
        (table.groups.lookup group).map fun rates => ⟨rates, .group⟩

/-- The name of a billing period decides its multiplier. -/
theorem PeakValley.multiplier_of_name (rule : PeakValley) {s t : Text}
    (h : (rule.periodFor s).name = (rule.periodFor t).name) :
    (rule.periodFor s).multiplier = (rule.periodFor t).multiplier := by
  have cases : ∀ u, rule.periodFor u = BillingPeriod.offPeak ∨
      rule.periodFor u = ⟨"peak", rule.multiplier⟩ := by
    intro u
    unfold periodFor
    split
    · exact .inl rfl
    · split
      · exact .inl rfl
      · split
        · exact .inr rfl
        · exact .inl rfl
  rcases cases s with hs | hs <;> rcases cases t with ht | ht <;>
    simp [hs, ht, BillingPeriod.offPeak] at h ⊢

example : parseRfc3339UtcMinutes "1970-01-02T01:02:03.5+00:30" = some (24 * 60 + 32) := by
  decide +kernel

end CodeSeeX.Pricing
