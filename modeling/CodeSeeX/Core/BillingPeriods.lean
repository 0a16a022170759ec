import CodeSeeX.Core.PricingDocuments

/-!
# Billing periods of instants

A completion time is a timestamp in some time zone. The rule reads the minute of the day off its
text, brings it to the zone of the price list and looks for a window: the zone that the
timestamp is written in does not matter.
-/
namespace CodeSeeX.Pricing
open Config List Option Text

/-! ## Timestamps -/

def isLeapYear (year : ℕ) : Bool := (year % 4 = 0 ∧ year % 100 ≠ 0) ∨ year % 400 = 0

def daysInMonth (year month : ℕ) : ℕ :=
  if month = 2 then (if isLeapYear year then 29 else 28)
  else if month ∈ [4, 6, 9, 11] then 30 else 31

theorem daysInMonth_le (year month : ℕ) : daysInMonth year month ≤ 31 := by
  rw [daysInMonth]
  split_ifs <;> omega

/-- The offset of a timestamp: `Z`, or a sign with hours and minutes. -/
inductive TimeOffset where
  | utc (lower : Bool)
  | numeric (negative : Bool) (hour : Fin 24) (minute : Fin 60)

def TimeOffset.minutes : TimeOffset → ℤ
  | utc _ => 0
  | numeric false hour minute => hour * 60 + minute
  | numeric true hour minute => -(hour * 60 + minute)

/-- A valid RFC 3339 timestamp. A leap second is the sixtieth second of its minute. -/
structure Timestamp where
  year : ℕ
  month : ℕ
  day : ℕ
  separator : Char
  hour : ℕ
  minute : ℕ
  second : ℕ
  fraction : Option Text
  offset : TimeOffset
  year_lt : year < 10000
  month_mem : 1 ≤ month ∧ month ≤ 12
  day_mem : 1 ≤ day ∧ day ≤ daysInMonth year month
  separator_mem : separator ∈ ['T', 't', ' ']
  hour_lt : hour < 24
  minute_lt : minute < 60
  second_le : second ≤ 60
  fraction_digits : ∀ digits ∈ fraction, digits ≠ [] ∧ ∀ c ∈ digits, c.isDigit = true

variable {n : ℕ} (offset : TimeOffset) (t : Timestamp) (rule : PeakValley)

def fourDigits (n : ℕ) : Text := (ofNat n).leftpad 4 '0'

def TimeOffset.render : TimeOffset → Text
  | utc lower => [if lower then 'z' else 'Z']
  | numeric negative hour minute =>
      (if negative then '-' else '+') :: (twoDigits hour ++ ':' :: twoDigits minute)

def renderFraction : Option Text → Text
  | some digits => '.' :: digits
  | none => []

namespace Timestamp

/-- Up to the minutes. -/
def renderMinutes (t : Timestamp) : Text :=
  fourDigits t.year ++ '-' :: (twoDigits t.month ++ '-' :: (twoDigits t.day ++
    t.separator :: (twoDigits t.hour ++ ':' :: twoDigits t.minute)))

def renderRest (t : Timestamp) : Text :=
  ':' :: (twoDigits t.second ++ (renderFraction t.fraction ++ t.offset.render))

def render (t : Timestamp) : Text := t.renderMinutes ++ t.renderRest

/-- The seconds with their fraction. -/
def seconds (t : Timestamp) : ℚ :=
  t.second + (t.fraction.bind fun digits =>
    (parseDigits digits).map fun n => (n : ℚ) / 10 ^ digits.length).getD 0

/-- The instant by a count of days: the minute in UTC, and the seconds in it. -/
def instant (days : ℕ → ℕ → ℕ → ℤ) (t : Timestamp) : ℤ × ℚ :=
  (days t.year t.month t.day * (24 * 60) + t.hour * 60 + t.minute - t.offset.minutes, t.seconds)

end Timestamp

/-! ## Digits -/

theorem twoDigits_length (h : n < 100) : (twoDigits n).length = 2 := by
  have hall : ∀ n < 100, (twoDigits n).length = 2 := by decide +kernel
  exact hall n h

theorem fourDigits_length (h : n < 10000) : (fourDigits n).length = 4 := by
  have hle : (ofNat n).length ≤ 4 :=
    (Nat.length_toDigits_le_iff (by decide) (by decide)).mpr h
  rw [fourDigits, leftpad, length_append, length_replicate]
  omega

theorem parseI64_twoDigits (h : n < 100) : parseI64 (twoDigits n) = some (n : ℤ) := by
  have hparse : parseDigits (twoDigits n) = some n := by
    rw [twoDigits]
    split_ifs
    · exact parseDigits_zeros 1 (parseDigits_ofNat n)
    · exact parseDigits_ofNat n
  exact parseI64_of_parseDigits hparse (by omega)

theorem parseI64_fourDigits (h : n < 10000) :
    parseI64 (fourDigits n) = some (n : ℤ) :=
  parseI64_of_parseDigits (parseDigits_zeros _ (parseDigits_ofNat n)) (by omega)

theorem digit_of_mem_fourDigits {c : Char} (h : c ∈ fourDigits n) : c.isDigit = true := by
  rw [fourDigits, leftpad, mem_append] at h
  rcases h with hzero | hdigit
  · rw [eq_of_mem_replicate hzero]
    rfl
  · exact digit_of_mem_ofNat hdigit

/-! ## The text of a timestamp -/

/-- The bytes of a part of a text with one byte a character. -/
theorem byteRange_at {text front part rest : Text} (h : text = front ++ (part ++ rest))
    (hascii : ∀ c ∈ text, c.utf8Size = 1) {i j : ℕ} (hi : front.length = i)
    (hj : i + part.length = j) : byteRange? text i j = some part := by
  subst h hi hj
  simp only [forall_mem_append] at hascii
  exact byteRange_append hascii.1 hascii.2.1 rest

theorem byte_at {text front rest : Text} {c : Char} (h : text = front ++ c :: rest)
    (hascii : ∀ c ∈ text, c.utf8Size = 1) {i : ℕ} (hi : front.length = i) :
    (bytes text)[i]? = some c.toUInt8 := by
  rw [bytes_of_utf8Size hascii, getElem?_map, h, getElem?_append_right (by omega),
    hi, Nat.sub_self]
  rfl

theorem TimeOffset.render_head :
    ∃ c rest, offset.render = c :: rest ∧ c ∈ ['Z', 'z', '+', '-'] := by
  cases offset with
  | utc lower => cases lower <;> exact ⟨_, _, rfl, by decide⟩
  | numeric negative hour minute => cases negative <;> exact ⟨_, _, rfl, by decide⟩

theorem parseOffsetMinutes_render :
    parseOffsetMinutes offset.render = some offset.minutes := by
  cases offset with
  | utc lower => cases lower <;> rfl
  | numeric negative hour minute =>
    have hhour : parseI64 (twoDigits hour) = some ((hour : ℕ) : ℤ) :=
      parseI64_twoDigits (by omega)
    have hminute : parseI64 (twoDigits minute) = some ((minute : ℕ) : ℤ) :=
      parseI64_twoDigits (by omega)
    have hsplit : splitOnce ":" (twoDigits hour ++ ':' :: twoDigits minute) =
        some (twoDigits hour, twoDigits minute) :=
      splitOnce_cons (colon_notMem_twoDigits _) _
    cases negative with
    | false =>
      simp only [TimeOffset.render, parseOffsetMinutes, Bool.false_eq_true, if_false, hsplit,
        getD_some, hhour, hminute, bind_eq_bind, bind_some]
      rfl
    | true =>
      simp only [TimeOffset.render, parseOffsetMinutes, if_true, hsplit, getD_some, hhour,
        hminute, bind_eq_bind, bind_some]
      rfl

namespace Timestamp

theorem renderMinutes_length : t.renderMinutes.length = 16 := by
  have hmonth : t.month < 100 := by have := t.month_mem; omega
  have hday : t.day < 100 := by
    have := t.day_mem
    have := daysInMonth_le t.year t.month
    omega
  have hhour : t.hour < 100 := by have := t.hour_lt; omega
  have hminute : t.minute < 100 := by have := t.minute_lt; omega
  simp only [renderMinutes, length_append, length_cons, fourDigits_length t.year_lt,
    twoDigits_length hmonth, twoDigits_length hday, twoDigits_length hhour,
    twoDigits_length hminute]

/-- Every character of a timestamp is one byte. -/
theorem ascii : ∀ c ∈ t.render, c.utf8Size = 1 := by
  have htwo : ∀ n, ∀ c ∈ twoDigits n, c.utf8Size = 1 := fun n c hc =>
    utf8Size_of_isDigit (digit_of_mem_twoDigits hc)
  have hfour : ∀ c ∈ fourDigits t.year, c.utf8Size = 1 := fun c hc =>
    utf8Size_of_isDigit (digit_of_mem_fourDigits hc)
  have hseparator : t.separator.utf8Size = 1 := by
    have hall : ['T', 't', ' '].all (·.utf8Size = 1) = true := by decide
    exact of_decide_eq_true (all_eq_true.mp hall _ t.separator_mem)
  have hfraction : ∀ c ∈ renderFraction t.fraction, c.utf8Size = 1 := by
    cases hf : t.fraction with
    | none => exact fun c hc => absurd hc not_mem_nil
    | some digits =>
      refine forall_mem_cons.mpr ⟨by decide, fun c hc => ?_⟩
      exact utf8Size_of_isDigit ((t.fraction_digits digits hf).2 c hc)
  have hoffset : ∀ c ∈ t.offset.render, c.utf8Size = 1 := by
    cases t.offset with
    | utc lower =>
      rw [TimeOffset.render, forall_mem_singleton]
      cases lower <;> rfl
    | numeric negative hour minute =>
      rw [TimeOffset.render]
      simp only [forall_mem_cons, forall_mem_append]
      exact ⟨by cases negative <;> decide, htwo _, by decide, htwo _⟩
  simp only [render, renderMinutes, renderRest, forall_mem_append, forall_mem_cons]
  exact ⟨⟨hfour, by decide, htwo _, by decide, htwo _, hseparator, htwo _, by decide, htwo _⟩,
    by decide, htwo _, hfraction, hoffset⟩

theorem trim_render : t.render.trim = t.render := by
  have hfour : fourDigits t.year ≠ [] := by
    refine ne_nil_of_length_pos ?_
    rw [fourDigits_length t.year_lt]
    omega
  refine (trim_of_ends (fun c hc => ?_) fun c hc => ?_).2
  · rw [render, renderMinutes, append_assoc, head?_append_of_ne_nil _ hfour] at hc
    exact isWhitespace_of_isDigit (digit_of_mem_fourDigits (mem_of_mem_head? hc))
  · obtain ⟨first, rest, hoffset, _⟩ := t.offset.render_head
    have hne : t.offset.render ≠ [] := by
      rw [hoffset]
      exact cons_ne_nil _ _
    have hlast : t.render.getLast? = t.offset.render.getLast? := by
      rw [render, renderRest, getLast?_append_of_ne_nil _ (cons_ne_nil _ _),
        getLast?_cons_of_ne_nil (by simp [hne]),
        getLast?_append_of_ne_nil _ (by simp [hne]), getLast?_append_of_ne_nil _ hne]
    rw [hlast] at hc
    cases hform : t.offset with
    | utc lower =>
      rw [hform] at hc
      obtain rfl := some.inj hc
      cases lower <;> decide
    | numeric negative hour minute =>
      have hminute : twoDigits minute ≠ [] := by
        refine ne_nil_of_length_pos ?_
        rw [twoDigits_length (by omega)]
        omega
      rw [hform, TimeOffset.render, ← cons_append,
        getLast?_append_of_ne_nil _ (cons_ne_nil _ _),
        getLast?_cons_of_ne_nil hminute] at hc
      exact isWhitespace_of_isDigit (digit_of_mem_twoDigits (mem_of_getLast? hc))

/-- Behind the minutes come the seconds, perhaps a fraction, and the offset. -/
theorem parse_rest : ∃ rest, skipSeconds t.renderRest = some rest ∧
    parseOffsetMinutes (skipFraction rest) = some t.offset.minutes := by
  obtain ⟨first, back, hoffset, hfirst⟩ := t.offset.render_head
  have hall : ['Z', 'z', '+', '-'].all (fun c => c.isDigit = false ∧ c ≠ '.') = true := by decide
  have hnot : first.isDigit = false ∧ first ≠ '.' :=
    of_decide_eq_true (all_eq_true.mp hall first hfirst)
  have hhead : ∀ c ∈ (renderFraction t.fraction ++ t.offset.render).head?, c.isDigit = false := by
    cases t.fraction with
    | none =>
      intro c hc
      rw [renderFraction, nil_append, hoffset] at hc
      obtain rfl := some.inj hc
      exact hnot.1
    | some digits =>
      intro c hc
      obtain rfl := some.inj hc
      rfl
  obtain ⟨htake, hdrop⟩ := span_append (fun c hc => @digit_of_mem_twoDigits t.second c hc) hhead
  have hsecond : parseI64 (twoDigits t.second) = some (t.second : ℤ) :=
    parseI64_twoDigits (by have := t.second_le; omega)
  have hle : ¬(t.second : ℤ) > 60 := by have := t.second_le; omega
  refine ⟨renderFraction t.fraction ++ t.offset.render, ?_, ?_⟩
  · simp only [renderRest, skipSeconds, htake, hdrop, hsecond, bind_eq_bind,
      bind_some, if_neg hle]
  · have hskip : skipFraction (renderFraction t.fraction ++ t.offset.render) = t.offset.render := by
      cases hf : t.fraction with
      | none =>
        rw [renderFraction, nil_append, hoffset, skipFraction]
        intro rest heq
        exact hnot.2 (cons.inj heq).1
      | some digits =>
        have hoffsetHead : ∀ c ∈ t.offset.render.head?, c.isDigit = false := by
          intro c hc
          rw [hoffset] at hc
          obtain rfl := some.inj hc
          exact hnot.1
        exact (span_append (t.fraction_digits digits hf).2 hoffsetHead).2
    rw [hskip]
    exact parseOffsetMinutes_render t.offset

end Timestamp

/-- The parts of a text with the marks of a date and a time between them. -/
theorem parts_at {y mo d h mi rest : Text} {sep : Char} {text : Text}
    (htext : text = y ++ '-' :: (mo ++ '-' :: (d ++ sep :: (h ++ ':' :: (mi ++ rest)))))
    (hascii : ∀ c ∈ text, c.utf8Size = 1) (hy : y.length = 4) (hmo : mo.length = 2)
    (hd : d.length = 2) (hh : h.length = 2) (hmi : mi.length = 2) :
    (byteRange? text 0 4 = some y ∧ byteRange? text 5 7 = some mo ∧
        byteRange? text 8 10 = some d ∧ byteRange? text 11 13 = some h ∧
        byteRange? text 14 16 = some mi) ∧
      ((bytes text)[4]? = some '-'.toUInt8 ∧ (bytes text)[7]? = some '-'.toUInt8 ∧
        (bytes text)[10]? = some sep.toUInt8 ∧ (bytes text)[13]? = some ':'.toUInt8) ∧
      ∃ front, byteSplit? 16 text = some (front, rest) := by
  have hfront : ∀ c ∈ y ++ '-' :: (mo ++ '-' :: (d ++ sep :: (h ++ ':' :: mi))),
      c.utf8Size = 1 := by
    intro c hc
    refine hascii c ?_
    rw [htext]
    simp only [mem_append, mem_cons] at hc ⊢
    tauto
  -- The text, split before and behind each part.
  have hmonth : text = (y ++ ['-']) ++ (mo ++ ('-' :: (d ++ sep :: (h ++ ':' :: (mi ++ rest))))) := by
    simp [htext]
  have hday : text = (y ++ '-' :: (mo ++ ['-'])) ++ (d ++ (sep :: (h ++ ':' :: (mi ++ rest)))) := by
    simp [htext]
  have hhour : text = (y ++ '-' :: (mo ++ '-' :: (d ++ [sep]))) ++ (h ++ (':' :: (mi ++ rest))) := by
    simp [htext]
  have hminute : text = (y ++ '-' :: (mo ++ '-' :: (d ++ sep :: (h ++ [':'])))) ++ (mi ++ rest) := by
    simp [htext]
  have hdash : text = (y ++ '-' :: mo) ++ '-' :: (d ++ sep :: (h ++ ':' :: (mi ++ rest))) := by
    simp [htext]
  have hsep : text = (y ++ '-' :: (mo ++ '-' :: d)) ++ sep :: (h ++ ':' :: (mi ++ rest)) := by
    simp [htext]
  have hcolon : text = (y ++ '-' :: (mo ++ '-' :: (d ++ sep :: h))) ++ ':' :: (mi ++ rest) := by
    simp [htext]
  have hyear : text = [] ++ (y ++ ('-' :: (mo ++ '-' :: (d ++ sep :: (h ++ ':' :: (mi ++ rest)))))) :=
    htext
  refine ⟨⟨byteRange_at hyear hascii rfl (by omega),
      byteRange_at hmonth hascii (by simp [hy]) (by omega),
      byteRange_at hday hascii (by simp [hy, hmo]) (by omega),
      byteRange_at hhour hascii (by simp [hy, hmo, hd]) (by omega),
      byteRange_at hminute hascii (by simp [hy, hmo, hd, hh]) (by omega)⟩,
    ⟨byte_at htext hascii hy, byte_at hdash hascii (by simp [hy, hmo]),
      byte_at hsep hascii (by simp [hy, hmo, hd]),
      byte_at hcolon hascii (by simp [hy, hmo, hd, hh])⟩, ?_⟩
  have hsplit := byteSplit_append hfront rest
  have hlength : (y ++ '-' :: (mo ++ '-' :: (d ++ sep :: (h ++ ':' :: mi)))).length = 16 := by
    simp [hy, hmo, hd, hh, hmi]
  have hwhole : y ++ '-' :: (mo ++ '-' :: (d ++ sep :: (h ++ ':' :: mi))) ++ rest = text := by
    simp [htext]
  rw [hlength, hwhole] at hsplit
  exact ⟨_, hsplit⟩

/-- The parser reads the fields that the text was written from. -/
theorem Timestamp.parse_render : parseRfc3339UtcMinutes t.render =
    some (daysFromCivil t.year t.month t.day * 24 * 60 + t.hour * 60 + t.minute -
      t.offset.minutes) := by
  have hmonth := t.month_mem
  have hday := t.day_mem
  have hdays := daysInMonth_le t.year t.month
  have hhour := t.hour_lt
  have hminute := t.minute_lt
  have htext : t.render = fourDigits t.year ++ '-' :: (twoDigits t.month ++ '-' ::
      (twoDigits t.day ++ t.separator :: (twoDigits t.hour ++ ':' :: (twoDigits t.minute ++
        t.renderRest)))) := by
    simp [render, renderMinutes]
  obtain ⟨⟨hyearText, hmonthText, hdayText, hhourText, hminuteText⟩, ⟨hdash, hdash', hsep, hcolon⟩,
    front, hsplit⟩ := parts_at htext t.ascii (fourDigits_length t.year_lt)
      (twoDigits_length (by omega)) (twoDigits_length (by omega)) (twoDigits_length (by omega))
      (twoDigits_length (by omega))
  obtain ⟨rest, hseconds, hoffset⟩ := t.parse_rest
  have hlength : ¬(bytes t.render).length < 16 := by
    rw [bytes_of_utf8Size t.ascii, length_map, render, length_append,
      t.renderMinutes_length]
    omega
  have hmarks : ¬((bytes t.render)[4]? ≠ some '-'.toUInt8 ∨
      (bytes t.render)[7]? ≠ some '-'.toUInt8) := by
    rw [hdash, hdash']
    simp
  have hseparator : ¬(some t.separator.toUInt8 ≠ some 'T'.toUInt8 ∧
      some t.separator.toUInt8 ≠ some 't'.toUInt8 ∧
        some t.separator.toUInt8 ≠ some ' '.toUInt8) := by
    have hall : ['T', 't', ' '].all (fun c => c = 'T' ∨ c = 't' ∨ c = ' ') = true := by decide
    rcases of_decide_eq_true (all_eq_true.mp hall _ t.separator_mem) with h | h | h
    · simp [h]
    · simp [h]
    · simp [h]
  have htime : ¬((bytes t.render)[13]? ≠ some ':'.toUInt8 ∨ (t.hour : ℤ) > 23 ∨
      (t.minute : ℤ) > 59) := by
    rw [hcolon]
    simp only [ne_eq, not_true, false_or]
    omega
  have hdate : ¬(¬(1 ≤ (t.month : ℤ) ∧ (t.month : ℤ) ≤ 12) ∨
      ¬(1 ≤ (t.day : ℤ) ∧ (t.day : ℤ) ≤ 31)) := by omega
  have hyear : parseI64 (fourDigits t.year) = some (t.year : ℤ) :=
    parseI64_fourDigits t.year_lt
  have htwo : ∀ n < 100, parseI64 (twoDigits n) = some (n : ℤ) :=
    fun n hn => parseI64_twoDigits hn
  rw [parseRfc3339UtcMinutes]
  simp only [t.trim_render, if_neg hlength, hyearText, hmonthText, hdayText, hhourText,
    hminuteText, bind_eq_bind, bind_some, hyear, htwo t.month (by omega),
    htwo t.day (by omega), htwo t.hour (by omega), htwo t.minute (by omega), if_neg hmarks, hsep,
    if_neg hseparator, if_neg htime, if_neg hdate, hsplit, hseconds, hoffset]

/-! ## The period of an instant -/

/-- The minute of the day at a timestamp, in the zone of the price list. -/
def PeakValley.minuteOfDay (rule : PeakValley) (t : Timestamp) : ℤ :=
  (60 * t.hour + t.minute - t.offset.minutes + rule.utcOffsetMinutes) % 1440

/-- The date only adds whole days. -/
theorem localMinuteOfDay_render (t : Timestamp) :
    localMinuteOfDay t.render rule.utcOffsetMinutes = some (rule.minuteOfDay t).toNat := by
  rw [localMinuteOfDay, t.parse_render, map_some, PeakValley.minuteOfDay]
  congr 2
  omega

theorem PeakValley.contains_minuteOfDay (t : Timestamp) (window : PeakWindow) :
    window.contains (rule.minuteOfDay t).toNat = true ↔
      (window.fromMinute : ℤ) ≤ rule.minuteOfDay t ∧ rule.minuteOfDay t < window.toMinute := by
  have hnonneg : 0 ≤ rule.minuteOfDay t := by
    rw [minuteOfDay]
    omega
  rw [PeakWindow.contains, decide_eq_true_eq]
  omega

theorem PeakValley.periodFor_render {rule : PeakValley} (h : rule.isActive = true)
    (t : Timestamp) : rule.periodFor t.render =
      if rule.windows.any (·.contains (rule.minuteOfDay t).toNat) then ⟨"peak", rule.multiplier⟩
      else BillingPeriod.offPeak := by
  rw [periodFor, h, localMinuteOfDay_render]
  rfl

/-- One instant has one minute of the day, whatever counts the days. -/
theorem PeakValley.minuteOfDay_of_instant {days : ℕ → ℕ → ℕ → ℤ} {t t' : Timestamp}
    (h : t.instant days = t'.instant days) :
    rule.minuteOfDay t = rule.minuteOfDay t' := by
  have hminutes := (Prod.mk.inj h).1
  rw [minuteOfDay, minuteOfDay]
  omega

/-- The period of an active rule follows the minute of the day in the zone of the price list, and
so it is the same for every way to write an instant. -/
theorem period_of_instant {rule : PeakValley} (h : rule.isActive = true) :
    (∀ t : Timestamp, (rule.periodFor t.render).name = "peak" ↔
      ∃ w ∈ rule.windows, (w.fromMinute : ℤ) ≤ rule.minuteOfDay t ∧
        rule.minuteOfDay t < w.toMinute) ∧
    ∀ (days : ℕ → ℕ → ℕ → ℤ) (t t' : Timestamp), t.instant days = t'.instant days →
      rule.periodFor t.render = rule.periodFor t'.render := by
  refine ⟨fun t => ?_, fun days t t' hinstant => ?_⟩
  · rw [rule.periodFor_render h]
    simp only [← rule.contains_minuteOfDay, ← List.any_eq_true]
    split_ifs with hpeak
    · exact ⟨fun _ => hpeak, fun _ => rfl⟩
    · exact ⟨fun hname => absurd hname (by decide), fun hany => absurd hany hpeak⟩
  · rw [rule.periodFor_render h, rule.periodFor_render h, rule.minuteOfDay_of_instant hinstant]

theorem digits_of_all {text : Text} (hne : text ≠ []) (h : text.all Char.isDigit = true) :
    ∀ digits ∈ some text, digits ≠ [] ∧ ∀ c ∈ digits, c.isDigit = true := by
  intro digits hdigits
  obtain rfl := some.inj hdigits
  exact ⟨hne, all_eq_true.mp h⟩

/-- Half past nine in Shanghai. -/
def shanghaiMorning : Timestamp where
  year := 2026
  month := 9
  day := 10
  separator := 'T'
  hour := 9
  minute := 30
  second := 0
  fraction := some "482"
  offset := .numeric false 8 0
  year_lt := by decide
  month_mem := by decide
  day_mem := by decide
  separator_mem := by decide
  hour_lt := by decide
  minute_lt := by decide
  second_le := by decide
  fraction_digits := digits_of_all (by decide) (by decide)

/-- The same instant in another zone, on the day before. -/
def newYorkEvening : Timestamp where
  year := 2026
  month := 9
  day := 9
  separator := ' '
  hour := 21
  minute := 30
  second := 0
  fraction := some "482"
  offset := .numeric true 4 0
  year_lt := by decide
  month_mem := by decide
  day_mem := by decide
  separator_mem := by decide
  hour_lt := by decide
  minute_lt := by decide
  second_le := by decide
  fraction_digits := digits_of_all (by decide) (by decide)

theorem shanghaiMorning_render : shanghaiMorning.render = "2026-09-10T09:30:00.482+08:00" := by
  decide +kernel

theorem newYorkEvening_render : newYorkEvening.render = "2026-09-09 21:30:00.482-04:00" := by
  decide +kernel

theorem period_of_morning :
    (PeakValley.default.periodFor "2026-09-10T09:30:00.482+08:00").name = "peak" ∧
      PeakValley.default.periodFor "2026-09-10T09:30:00.482+08:00" =
        PeakValley.default.periodFor "2026-09-09 21:30:00.482-04:00" := by
  have hactive : PeakValley.default.isActive = true := by decide +kernel
  have hinstant : shanghaiMorning.instant (fun _ _ day => day) =
      newYorkEvening.instant fun _ _ day => day := Prod.ext (by decide) rfl
  have hperiod := period_of_instant hactive
  rw [← shanghaiMorning_render, ← newYorkEvening_render]
  exact ⟨(hperiod.1 shanghaiMorning).mpr ⟨⟨540, 720⟩, by decide, by decide⟩,
    hperiod.2 _ _ _ hinstant⟩

end CodeSeeX.Pricing
