import CodeSeeX.Core.CatalogLayers

/-!
# Time-zone offsets

The offset of a time zone is read from its name or from hours and minutes behind a sign. Hours and
minutes are read as signed numbers too and have upper bounds only, so that a second sign passes.
-/
namespace CodeSeeX.Config
open Option Text List

def isSign (c : Char) : Bool := c = '+' || c = '-'

/-- The sign and the texts of the hours and the minutes behind it. -/
def offsetParts (normalized : Text) : Option (ℤ × Text × Text) :=
  let signed : Option (ℤ × Text) :=
    match normalized with
    | '+' :: rest => some (1, rest)
    | '-' :: rest => some (-1, rest)
    | _ => none
  signed.map fun (sign, rest) => (sign, (splitOnce ":" rest).getD (rest, "0"))

/-- The sign, the hours and the minutes. -/
def offsetFields (timezone : Text) : Option (ℤ × ℤ × ℤ) :=
  (offsetParts (settingLabel timezone)).bind fun (sign, hour, minute) =>
    (parseI32 hour).bind fun hour => (parseI32 minute).map fun minute => (sign, hour, minute)

/-- The offset is computed from these fields without overflow. -/
def Fits (sign hour minute : ℤ) : Prop :=
  ∀ n ∈ [hour * 60, hour * 60 + minute, sign * (hour * 60 + minute)], -(2 ^ 31) ≤ n ∧ n < 2 ^ 31

structure SafeOffset (timezone : Text) : Prop where
  fits : ∀ sign hour minute, offsetFields timezone = some (sign, hour, minute) →
    hour ≤ 23 → minute ≤ 59 → Fits sign hour minute
  bounded : ∀ offset, timezoneUtcOffsetMinutes timezone = some offset → |offset| ≤ 1439
  oneSign : 1 < (settingLabel timezone).countP isSign → timezoneUtcOffsetMinutes timezone = none
  inRange : ∀ sign hour minute, offsetFields timezone = some (sign, hour, minute) →
    ¬(0 ≤ hour ∧ hour ≤ 23 ∧ 0 ≤ minute ∧ minute ≤ 59) → timezoneUtcOffsetMinutes timezone = none

/-- Hours and minutes below their bounds with a sign of their own. -/
def DoubleSigned (timezone : Text) : Prop :=
  ∃ sign hour minute hours minutes,
    offsetParts (settingLabel timezone) = some (sign, hour, minute) ∧
    parseI32 hour = some hours ∧ hours ≤ 23 ∧ parseI32 minute = some minutes ∧ minutes ≤ 59 ∧
    (hour.head?.any isSign = true ∨ minute.head?.any isSign = true)

/-- A number without a sign is not negative and holds no sign. -/
theorem parseI32_unsigned {text : Text} {n : ℤ} (h : parseI32 text = some n)
    (hsign : text.head?.any isSign = false) : 0 ≤ n ∧ ∀ c ∈ text, isSign c = false := by
  have hdigits : ∃ k : ℕ, parseDigits text = some k ∧ n = k := by
    obtain ⟨hread, -⟩ := filter_eq_some_iff.mp h
    unfold parseI64 at hread
    split at hread
    · cases hsign
    · cases hsign
    · obtain ⟨k, hk, hread⟩ := bind_eq_some_iff.mp hread
      split_ifs at hread
      exact ⟨k, hk, (some_inj.mp hread).symm⟩
  obtain ⟨k, hk, rfl⟩ := hdigits
  refine ⟨Int.natCast_nonneg k, fun c hc => ?_⟩
  have hdigit := (isDigit_of_parseDigits hk).2 c hc
  rw [← Bool.not_eq_true]
  intro hsign
  simp only [isSign, Bool.or_eq_true, decide_eq_true_eq] at hsign
  obtain rfl | rfl := hsign <;> revert hdigit <;> decide

/-- The two texts are behind the sign, apart from the default for the minutes. -/
theorem offsetParts_eq_some {normalized hour minute : Text} {sign : ℤ}
    (h : offsetParts normalized = some (sign, hour, minute)) :
    (sign = 1 ∨ sign = -1) ∧ ∃ mark rest, normalized = mark :: rest ∧ isSign mark = true ∧
      (hour = rest ∧ minute = "0" ∨ rest = hour ++ ':' :: minute) := by
  have hsplit : ∀ rest : Text, (splitOnce ":" rest).getD (rest, "0") = (hour, minute) →
      hour = rest ∧ minute = "0" ∨ rest = hour ++ ':' :: minute := by
    intro rest hparts
    cases hcut : Infix.splitFirst ":" rest with
    | none =>
      rw [splitOnce, hcut] at hparts
      exact .inl ⟨(Prod.mk.inj hparts).1.symm, (Prod.mk.inj hparts).2.symm⟩
    | some cut =>
      rw [splitOnce, hcut] at hparts
      obtain ⟨tail, htail⟩ := Infix.splitFirst_starts hcut
      obtain ⟨rfl, rfl⟩ := Prod.mk.inj hparts
      rw [Infix.splitFirst_append hcut, ← htail]
      exact .inr rfl
  unfold offsetParts at h
  split at h
  · obtain ⟨rfl, hparts⟩ := Prod.mk.inj (some_inj.mp h)
    exact ⟨.inl rfl, '+', _, rfl, rfl, hsplit _ hparts⟩
  · obtain ⟨rfl, hparts⟩ := Prod.mk.inj (some_inj.mp h)
    exact ⟨.inr rfl, '-', _, rfl, rfl, hsplit _ hparts⟩
  · cases h

def namedOffsets : List Text :=
  ["asia/shanghai", "asia/chongqing", "prc", "cst", "utc", "etc/utc", "z", "gmt"]

/-- The offset is that of a name or that of the fields. -/
theorem offset_cases (timezone : Text) :
    (settingLabel timezone ∈ namedOffsets ∧
      ∃ offset, timezoneUtcOffsetMinutes timezone = some offset ∧ |offset| ≤ 1439) ∨
    timezoneUtcOffsetMinutes timezone = (offsetFields timezone).bind fun (sign, hour, minute) =>
      if hour > 23 ∨ minute > 59 then none else some (sign * (hour * 60 + minute)) := by
  unfold timezoneUtcOffsetMinutes
  dsimp only
  split_ifs with heast hutc
  · exact .inl ⟨mem_append_left (lit "utc" :: _) heast, _, rfl, by decide⟩
  · exact .inl ⟨mem_append_right [lit "asia/shanghai", "asia/chongqing", "prc", "cst"] hutc, _, rfl,
      by decide⟩
  · right
    unfold offsetFields offsetParts
    rw [bind_map, bind_assoc]
    congr 1
    funext signed
    simp [bind_map, bind_assoc]

/-- The offset of a time zone is safe exactly when hours and minutes have no sign of their own. -/
theorem safeOffset_iff (timezone : Text) : SafeOffset timezone ↔ ¬DoubleSigned timezone := by
  obtain ⟨hnamed, offset, hoffset, hbound⟩ | heq := offset_cases timezone
  · have hname : ∀ name ∈ namedOffsets, offsetParts name = none ∧ name.countP isSign = 0 := by decide
    obtain ⟨hparts, hsigns⟩ := hname _ hnamed
    have hfields : offsetFields timezone = none := by rw [offsetFields, hparts, bind_none]
    constructor
    · rintro - ⟨_, _, _, _, _, h, -⟩
      rw [hparts] at h
      cases h
    · intro _
      refine ⟨fun _ _ _ h => ?_, fun other h => ?_, fun h => ?_, fun _ _ _ h => ?_⟩
      · rw [hfields] at h
        cases h
      · rwa [← some_inj.mp (hoffset.symm.trans h)]
      · omega
      · rw [hfields] at h
        cases h
  constructor
  · rintro hsafe ⟨sign, hour, minute, hours, minutes, hparts, hhour, hhours, hminute, hminutes, hsign⟩
    have hfields : offsetFields timezone = some (sign, hours, minutes) := by
      rw [offsetFields, hparts, bind_some]
      dsimp only
      rw [hhour, bind_some, hminute, map_some]
    have hoffset : timezoneUtcOffsetMinutes timezone = some (sign * (hours * 60 + minutes)) := by
      rw [heq, hfields, bind_some]
      exact if_neg (by omega)
    obtain ⟨-, mark, rest, hlabel, hmark, hrest⟩ := offsetParts_eq_some hparts
    have hcount : 1 < (settingLabel timezone).countP isSign := by
      rw [hlabel, countP_cons_of_pos hmark, Nat.lt_add_left_iff_pos, countP_pos_iff]
      obtain hsign | hsign := hsign
      · obtain ⟨c, hc, hsign⟩ := (any_eq_true _ _).mp hsign
        refine ⟨c, ?_, hsign⟩
        obtain ⟨rfl, -⟩ | rfl := hrest
        · exact mem_of_mem_head? hc
        · exact mem_append_left _ (mem_of_mem_head? hc)
      · obtain ⟨c, hc, hsign⟩ := (any_eq_true _ _).mp hsign
        refine ⟨c, ?_, hsign⟩
        obtain ⟨-, rfl⟩ | rfl := hrest
        · cases hc
          cases hsign
        · exact mem_append_right _ (mem_cons_of_mem _ (mem_of_mem_head? hc))
    rw [hsafe.oneSign hcount] at hoffset
    cases hoffset
  · intro hplain
    have hread : ∀ sign hour minute, offsetFields timezone = some (sign, hour, minute) →
        hour ≤ 23 → minute ≤ 59 → 0 ≤ hour ∧ 0 ≤ minute ∧ (sign = 1 ∨ sign = -1) ∧
          (settingLabel timezone).countP isSign ≤ 1 := by
      intro sign hours minutes h hhours hminutes
      obtain ⟨⟨_, hour, minute⟩, hparts, h⟩ := bind_eq_some_iff.mp h
      obtain ⟨_, hhour, h⟩ := bind_eq_some_iff.mp h
      obtain ⟨_, hminute, h⟩ := map_eq_some_iff.mp h
      cases h
      have hsign : hour.head?.any isSign = false ∧ minute.head?.any isSign = false := by
        rw [← Bool.not_eq_true, ← Bool.not_eq_true, ← not_or]
        exact fun h => hplain ⟨_, _, _, _, _, hparts, hhour, hhours, hminute, hminutes, h⟩
      obtain ⟨hpos, hnone⟩ := parseI32_unsigned hhour hsign.1
      obtain ⟨hpos', hnone'⟩ := parseI32_unsigned hminute hsign.2
      obtain ⟨hone, mark, rest, hlabel, hmark, hrest⟩ := offsetParts_eq_some hparts
      refine ⟨hpos, hpos', hone, ?_⟩
      have hnosign : rest.countP isSign = 0 := by
        rw [countP_eq_zero]
        intro c hc
        rw [Bool.not_eq_true]
        obtain ⟨rfl, -⟩ | rfl := hrest
        · exact hnone c hc
        · obtain hc | hc := mem_append.mp hc
          · exact hnone c hc
          · obtain rfl | hc := mem_cons.mp hc
            · rfl
            · exact hnone' c hc
      rw [hlabel, countP_cons_of_pos hmark, hnosign]
    have hsome : ∀ offset, timezoneUtcOffsetMinutes timezone = some offset →
        ∃ sign hour minute, offsetFields timezone = some (sign, hour, minute) ∧ hour ≤ 23 ∧
          minute ≤ 59 ∧ offset = sign * (hour * 60 + minute) := by
      intro offset hoffset
      obtain ⟨⟨sign, hour, minute⟩, hfields, hoffset⟩ := bind_eq_some_iff.mp (heq ▸ hoffset)
      dsimp only at hoffset
      split_ifs at hoffset with hrange
      exact ⟨sign, hour, minute, hfields, by omega, by omega, (some_inj.mp hoffset).symm⟩
    refine ⟨fun sign hour minute h hhour hminute => ?_, fun offset h => ?_, fun hsigns => ?_,
      fun sign hour minute hfields hrange => ?_⟩
    · obtain ⟨hpos, hpos', hsign, -⟩ := hread sign hour minute h hhour hminute
      simp only [Fits, forall_mem_cons]
      obtain rfl | rfl := hsign <;> refine ⟨?_, ?_, ?_, fun _ hmem => absurd hmem not_mem_nil⟩ <;> omega
    · obtain ⟨sign, hour, minute, hfields, hhour, hminute, rfl⟩ := hsome offset h
      obtain ⟨hpos, hpos', hsign, -⟩ := hread sign hour minute hfields hhour hminute
      rw [abs_le]
      obtain rfl | rfl := hsign <;> omega
    · by_contra hnone
      obtain ⟨offset, hoffset⟩ := ne_none_iff_exists'.mp hnone
      obtain ⟨sign, hour, minute, hfields, hhour, hminute, -⟩ := hsome offset hoffset
      have hcount := (hread sign hour minute hfields hhour hminute).2.2.2
      omega
    · by_contra hnone
      obtain ⟨offset, hoffset⟩ := ne_none_iff_exists'.mp hnone
      obtain ⟨_, _, _, hother, hhour, hminute, -⟩ := hsome offset hoffset
      cases hfields.symm.trans hother
      obtain ⟨hpos, hpos', -, -⟩ := hread sign hour minute hfields hhour hminute
      omega

/-- The hours are multiplied before any lower bound. -/
theorem hours_overflow : ¬SafeOffset "+-99999999" := by
  intro h
  have hfits := h.fits 1 (-99999999) 0 (by decide) (by decide) (by decide) _ mem_cons_self
  revert hfits
  decide

end CodeSeeX.Config
