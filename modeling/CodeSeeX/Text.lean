import CodeSeeX.General.Infix
import Mathlib.Data.Char
import Mathlib.Data.List.DropRight

/-!
# Texts

A Rust string is modelled by its sequence of characters. Byte lengths are those
of the UTF-8 encoding; the order of two texts is the order of their characters,
which is also the order of their bytes.
-/
namespace CodeSeeX
open List

variable {n : ℕ}

abbrev Text := List Char

instance : LawfulBEq Text := instLawfulBEq

instance : LawfulBEq (Option Text) := Option.instLawfulBEq _

instance instLawfulBEqOptionChar : LawfulBEq (Option Char) := Option.instLawfulBEq _

namespace Text

/-- A string literal as a text. -/
@[coe] def lit (s : String) : Text := s.toList

instance : Coe String Text := ⟨lit⟩

@[simp] theorem lit_inj {s t : String} : lit s = lit t ↔ s = t := String.toList_inj

@[simp] theorem lit_beq {s t : String} : (lit s == lit t) = decide (s = t) := by
  rw [Bool.eq_iff_iff]
  simp

@[simp] theorem lit_eq_nil {s : String} : lit s = [] ↔ s = "" :=
  ⟨fun h => String.toList_inj.mp (h.trans rfl), fun h => h ▸ rfl⟩

/-- `char::is_whitespace`, the Unicode property White_Space. -/
def isWhitespace (c : Char) : Bool :=
  let n := c.toNat
  (9 ≤ n ∧ n ≤ 13) ∨ n = 0x20 ∨ n = 0x85 ∨ n = 0xA0 ∨ n = 0x1680 ∨ (0x2000 ≤ n ∧ n ≤ 0x200A) ∨
    n = 0x2028 ∨ n = 0x2029 ∨ n = 0x202F ∨ n = 0x205F ∨ n = 0x3000

def trimStart (t : Text) : Text := t.dropWhile isWhitespace

def trimEnd (t : Text) : Text := t.rdropWhile isWhitespace

def trim (t : Text) : Text := trimEnd (trimStart t)

/-- `text.trim().is_empty()` -/
def isBlank (t : Text) : Bool := (trim t).isEmpty

def utf8Len (t : Text) : ℕ := (t.map Char.utf8Size).sum

def bytes (t : Text) : List UInt8 := t.flatMap String.utf8EncodeChar

def toAsciiLowercase (t : Text) : Text := t.map Char.toLower

def contains (t pat : Text) : Bool := decide (pat <:+: t)

def startsWith (t pat : Text) : Bool := decide (pat <+: t)

def endsWith (t pat : Text) : Bool := decide (pat <:+ t)

/-- `text.replace(pat, by_)` for a nonempty pattern. -/
def replace (pat by_ : Text) (t : Text) : Text :=
  if pat = [] then t
  else match _h : Infix.splitFirst pat t with
    | none => t
    | some (before, rest) => before ++ by_ ++ replace pat by_ (rest.drop pat.length)
termination_by t.length
decreasing_by
  have happ := congrArg length (Infix.splitFirst_append _h)
  have hpre := (Infix.splitFirst_starts _h).length_le
  have hpos := length_pos_iff.mpr ‹¬pat = []›
  simp only [length_append, length_drop] at *
  omega

theorem replace_eq {pat : Text} (hpat : pat ≠ []) (by_ t : Text) :
    replace pat by_ t = match Infix.splitFirst pat t with
      | none => t
      | some (before, rest) => before ++ by_ ++ replace pat by_ (rest.drop pat.length) := by
  rw [replace, if_neg hpat]
  split <;> simp only [*]

theorem replace_of_not_infix {pat t : Text} (hpat : pat ≠ []) (h : ¬ pat <:+: t) (by_ : Text) :
    replace pat by_ t = t := by
  rw [replace_eq hpat, Infix.splitFirst_eq_none.mpr h]

theorem replace_cons {pat : Text} (hpat : pat ≠ []) (by_ : Text) (c : Char) (t : Text) :
    replace pat by_ (c :: t) =
      if pat <+: c :: t then by_ ++ replace pat by_ ((c :: t).drop pat.length)
      else c :: replace pat by_ t := by
  rw [replace_eq hpat, Infix.splitFirst]
  split_ifs with hstart
  · rfl
  · rw [replace_eq hpat by_ t]
    cases Infix.splitFirst pat t <;> rfl

/-- `parts.join(sep)` -/
def join (sep : Text) (parts : List Text) : Text := intercalate sep parts

/-- `text.split_whitespace()` -/
def splitWhitespace (t : Text) : List Text := (t.splitOnP isWhitespace).filter (· ≠ [])

/-- `text.split_once(pat)` for a nonempty pattern. -/
def splitOnce (pat t : Text) : Option (Text × Text) :=
  (Infix.splitFirst pat t).map fun (before, rest) => (before, rest.drop pat.length)

/-- `text.rsplit_once(sep)` for a character. -/
def rsplitOnce (sep : Char) (t : Text) : Option (Text × Text) :=
  if sep ∈ t then some (t.rdropWhile (· ≠ sep) |>.dropLast, t.rtakeWhile (· ≠ sep)) else none

/-- `text.split_inclusive('\n')` -/
def splitInclusive : Text → List Text
  | [] => []
  | c :: t =>
      if c = '\n' then [c] :: splitInclusive t
      else match splitInclusive t with
        | [] => [[c]]
        | line :: lines => (c :: line) :: lines

/-- `text.eq_ignore_ascii_case(other)` -/
def eqIgnoreAsciiCase (t other : Text) : Bool := toAsciiLowercase t = toAsciiLowercase other

/-- The two parts of a text around a byte offset, if the offset is in range and not inside a
character. -/
def byteSplit? : ℕ → Text → Option (Text × Text)
  | 0, t => some ([], t)
  | _ + 1, [] => none
  | n + 1, c :: t =>
      if c.utf8Size ≤ n + 1 then
        (byteSplit? (n + 1 - c.utf8Size) t).map fun (before, after) => (c :: before, after)
      else none

/-- `text.get(start..end)` -/
def byteRange? (t : Text) (start stop : ℕ) : Option Text :=
  (byteSplit? start t).bind fun (_, rest) => (byteSplit? (stop - start) rest).map Prod.fst

/-- The number that a nonempty run of decimal digits stands for. -/
def parseDigits (t : Text) : Option ℕ :=
  if t = [] ∨ t.any (fun c => !c.isDigit) then none
  else some (t.foldl (fun n c => n * 10 + (c.toNat - '0'.toNat)) 0)

/-- `text.parse::<i64>().ok()` -/
def parseI64 (t : Text) : Option ℤ :=
  match t with
  | '-' :: digits => (parseDigits digits).bind fun n => if n ≤ 2 ^ 63 then some (-(n : ℤ)) else none
  | '+' :: digits => (parseDigits digits).bind fun n => if n < 2 ^ 63 then some (n : ℤ) else none
  | digits => (parseDigits digits).bind fun n => if n < 2 ^ 63 then some (n : ℤ) else none

/-- The decimal digits that `{}` prints for an unsigned integer. -/
def ofNat (n : ℕ) : Text := Nat.toDigits 10 n

variable {c : Char}

theorem digit_of_mem_ofNat (h : c ∈ ofNat n) : c.isDigit = true :=
  Nat.isDigit_of_mem_toDigits (by decide) (by decide) h

theorem notMem_ofNat (hc : c.isDigit = false) (n : ℕ) : c ∉ ofNat n := by
  intro h
  rw [digit_of_mem_ofNat h] at hc
  exact absurd hc (by decide)

theorem ofNat_injective : Function.Injective ofNat := by
  intro m n h
  have hvalue := congrArg (fun digits => Nat.ofDigitChars 10 digits 0) h
  simpa [ofNat] using hvalue

/-- `{n:016x}`, the sixteen hexadecimal digits of a 64-bit number. -/
def hex16 (n : UInt64) : Text :=
  (range 16).map fun i => Nat.digitChar (n.toNat / 16 ^ (15 - i) % 16)

theorem utf8Len_append (s t : Text) : utf8Len (s ++ t) = utf8Len s + utf8Len t := by
  simp [utf8Len]

theorem notMem_hex16 (hc : ∀ k < 16, Nat.digitChar k ≠ c) (n : UInt64) : c ∉ hex16 n := by
  intro h
  obtain ⟨i, _, hi⟩ := mem_map.mp h
  exact hc _ (Nat.mod_lt _ (by norm_num)) hi

/-- Only a letter is made lower case. -/
theorem eq_of_toLower {c d : Char} (hd : ¬(97 ≤ d.toNat ∧ d.toNat ≤ 122)) (h : c.toLower = d) :
    c = d := by
  by_cases hupper : 65 ≤ c.toNat ∧ c.toNat ≤ 90
  · have hall : ∀ n, 65 ≤ n → n ≤ 90 → 97 ≤ (Char.ofNat n).toLower.toNat ∧
        (Char.ofNat n).toLower.toNat ≤ 122 := by
      intro n hlow hhigh
      interval_cases n <;> decide
    have hletter := hall c.toNat hupper.1 hupper.2
    rw [Char.ofNat_toNat, h] at hletter
    exact absurd hletter hd
  · delta Char.toLower at h
    rw [dif_neg] at h
    · exact h
    · exact hupper

variable {t : Text}

theorem isBlank_iff : isBlank t = true ↔ ∀ c ∈ t, isWhitespace c = true := by
  simp only [isBlank, trim, trimEnd, trimStart, List.isEmpty_iff, rdropWhile_eq_nil_iff]
  constructor
  · intro h
    have hnil : t.dropWhile isWhitespace = [] := by
      by_contra hne
      have hhead := head_dropWhile_not isWhitespace hne
      simp [h _ (head_mem hne)] at hhead
    exact dropWhile_eq_nil_iff.mp hnil
  · intro h c hc
    exact h c ((dropWhile_sublist isWhitespace).subset hc)

@[simp] theorem isBlank_nil : isBlank [] = true := rfl

theorem isBlank_cons (hc : isWhitespace c = false) : isBlank (c :: t) = false := by
  rw [Bool.eq_false_iff]
  intro h
  simpa [hc] using isBlank_iff.mp h c mem_cons_self

/-! ## Order -/

/-- Texts of which neither continues the other are ordered at their first difference. -/
theorem append_lt_append_iff {s t : Text} (hst : ¬ s <+: t) (hts : ¬ t <+: s) (x y : Text) :
    s ++ x < t ++ y ↔ s < t := by
  induction s generalizing t with
  | nil => exact absurd nil_prefix hst
  | cons c s ih =>
    cases t with
    | nil => exact absurd nil_prefix hts
    | cons d t =>
      simp only [cons_append, cons_lt_cons_iff]
      rw [cons_prefix_cons, not_and] at hst hts
      constructor
      · rintro (hlt | ⟨rfl, hrest⟩)
        · exact .inl hlt
        · exact .inr ⟨rfl, (ih (hst rfl) (hts rfl)).mp hrest⟩
      · rintro (hlt | ⟨rfl, hrest⟩)
        · exact .inl hlt
        · exact .inr ⟨rfl, (ih (hst rfl) (hts rfl)).mpr hrest⟩

theorem append_lt_append_left_iff (s x y : Text) : s ++ x < s ++ y ↔ x < y := by
  induction s with
  | nil => rfl
  | cons c s ih => simp [ih]

theorem not_lt_of_prefix {s t : Text} (h : s <+: t) : ¬ t < s := by
  obtain ⟨x, rfl⟩ := h
  intro hlt
  induction s with
  | nil => exact absurd hlt (not_lt_nil _)
  | cons c s ih => exact ih (by simpa [cons_lt_cons_iff] using hlt)

/-- Nothing is trimmed from a text that neither begins nor ends with a space. -/
theorem trim_of_ends (hfirst : ∀ c ∈ t.head?, isWhitespace c = false)
    (hlast : ∀ c ∈ t.getLast?, isWhitespace c = false) : trimStart t = t ∧ trim t = t := by
  have hstart : trimStart t = t := by
    cases t with
    | nil => rfl
    | cons c t => simp [trimStart, hfirst c rfl]
  refine ⟨hstart, ?_⟩
  rw [trim, hstart, trimEnd, rdropWhile_eq_self_iff]
  intro hne
  simpa using hlast _ (getLast?_eq_getLast_of_ne_nil hne)

/-- A trimmed text neither begins nor ends with a space. -/
theorem trim_ends (t : Text) : (∀ c ∈ (trim t).head?, isWhitespace c = false) ∧
    ∀ c ∈ (trim t).getLast?, isWhitespace c = false := by
  constructor
  · intro c hc
    obtain ⟨rest, hrest⟩ : trim t <+: trimStart t := rdropWhile_prefix isWhitespace _
    have hstart : (trimStart t).head? = some c := by
      rw [← hrest, head?_append, Option.mem_def.mp hc]
      rfl
    have hnot := head?_dropWhile_not isWhitespace t
    rw [show t.dropWhile isWhitespace = trimStart t from rfl, hstart] at hnot
    simpa using hnot
  · intro c hc
    have hne : trim t ≠ [] := by
      intro hnil
      simp [hnil] at hc
    have hnot := rdropWhile_last_not isWhitespace (trimStart t) hne
    rw [getLast?_eq_getLast_of_ne_nil hne, Option.mem_some_iff] at hc
    rw [← hc]
    exact Bool.eq_false_iff.mpr hnot

@[simp] theorem trim_trim (t : Text) : trim (trim t) = trim t :=
  (trim_of_ends (trim_ends t).1 (trim_ends t).2).2

theorem trimEnd_append_cons (s x : Text) (hc : isWhitespace c = false) :
    trimEnd (s ++ c :: x) = s ++ c :: trimEnd x := by
  simp only [trimEnd, rdropWhile, reverse_append, reverse_cons,
    append_assoc, singleton_append, dropWhile_append]
  split
  · rename_i hnil
    simp [isEmpty_iff.mp hnil, hc]
  · simp

/-! ## Lines -/

/-- The pieces of a text that is split behind its line feeds. -/
inductive RawLines : List Text → Prop where
  | nil : RawLines []
  | last {line : Text} (hne : line ≠ []) (hline : '\n' ∉ line) : RawLines [line]
  | cons {line : Text} {rawLines : List Text} (hline : '\n' ∉ line) (h : RawLines rawLines) :
      RawLines ((line ++ ['\n']) :: rawLines)

theorem rawLines_splitInclusive (t : Text) : RawLines (splitInclusive t) := by
  induction t with
  | nil => exact .nil
  | cons c t ih =>
    by_cases hc : c = '\n'
    · subst hc
      have hstep : splitInclusive ('\n' :: t) = ([] ++ ['\n']) :: splitInclusive t := by
        simp [splitInclusive]
      exact .cons not_mem_nil ih
    · cases hsplit : splitInclusive t with
      | nil =>
        have hstep : splitInclusive (c :: t) = [[c]] := by
          simp [splitInclusive, hc, hsplit]
        rw [hstep]
        exact .last (by simp) (by simpa using Ne.symm hc)
      | cons line rawLines =>
        have hstep : splitInclusive (c :: t) = (c :: line) :: rawLines := by
          simp [splitInclusive, hc, hsplit]
        rw [hstep]
        rw [hsplit] at ih
        cases ih with
        | last hne hline =>
          exact .last (by simp) (by simpa using ⟨Ne.symm hc, hline⟩)
        | cons hline h =>
          exact @RawLines.cons (c :: _) _ (by simpa using ⟨Ne.symm hc, hline⟩) h

theorem splitInclusive_flatten (t : Text) : (splitInclusive t).flatten = t := by
  induction t with
  | nil => rfl
  | cons c t ih =>
    by_cases hc : c = '\n'
    · simp [splitInclusive, hc, ih]
    · cases hsplit : splitInclusive t with
      | nil =>
        rw [hsplit] at ih
        simp [splitInclusive, hc, ih.symm]
      | cons line rawLines =>
        rw [hsplit, flatten_cons] at ih
        simp only [splitInclusive, if_neg hc, hsplit, flatten_cons, cons_append, ih]

theorem splitInclusive_line {line : Text} (hline : '\n' ∉ line) (t : Text) :
    splitInclusive (line ++ '\n' :: t) = (line ++ ['\n']) :: splitInclusive t := by
  induction line with
  | nil => simp [splitInclusive]
  | cons c line ih =>
    have hc : c ≠ '\n' := fun h => hline (h ▸ mem_cons_self)
    have hrest := ih fun h => hline (mem_cons_of_mem _ h)
    simp [splitInclusive, hc, hrest]

theorem splitInclusive_last {line : Text} (hne : line ≠ []) (hline : '\n' ∉ line) :
    splitInclusive line = [line] := by
  induction line with
  | nil => exact absurd rfl hne
  | cons c line ih =>
    have hc : c ≠ '\n' := fun h => hline (h ▸ mem_cons_self)
    have hrest : '\n' ∉ line := fun h => hline (mem_cons_of_mem _ h)
    cases line with
    | nil => simp [splitInclusive, hc]
    | cons d line => rw [splitInclusive, if_neg hc, ih (by simp) hrest]

theorem splitInclusive_of_rawLines {rawLines : List Text} (h : RawLines rawLines) :
    splitInclusive rawLines.flatten = rawLines := by
  induction h with
  | nil => rfl
  | last hne hline => simpa using splitInclusive_last hne hline
  | cons hline h ih =>
    rw [flatten_cons, append_assoc, singleton_append, splitInclusive_line hline, ih]

/-- What is appended to an unfinished line begins with its own first piece. -/
theorem splitInclusive_part {part : Text} (hne : part ≠ []) (hpart : '\n' ∉ part) (d : Text) :
    ∃ x rest, splitInclusive (part ++ d) = (part ++ x) :: rest := by
  induction part with
  | nil => exact absurd rfl hne
  | cons c part ih =>
    have hc : c ≠ '\n' := fun heq => hpart (heq ▸ mem_cons_self)
    rw [cons_append]
    cases part with
    | nil =>
      rw [nil_append, splitInclusive, if_neg hc]
      cases splitInclusive d with
      | nil => exact ⟨[], [], rfl⟩
      | cons line rest => exact ⟨line, rest, rfl⟩
    | cons e part =>
      obtain ⟨x, rest, hsplit⟩ := ih (by simp) fun hmem => hpart (mem_cons_of_mem c hmem)
      exact ⟨x, rest, by rw [splitInclusive, if_neg hc, hsplit]; rfl⟩

/-- The lines of a text that grows: only the last one may change, and it only grows. -/
theorem splitInclusive_append (t d : Text) : ∃ front,
    (splitInclusive t = front ∧ splitInclusive (t ++ d) = front ++ splitInclusive d) ∨
      ∃ part x rest, splitInclusive t = front ++ [part] ∧
        splitInclusive (t ++ d) = front ++ (part ++ x) :: rest := by
  suffices hgrow : ∀ rawLines, RawLines rawLines → ∃ front,
      (rawLines = front ∧ splitInclusive (rawLines.flatten ++ d) = front ++ splitInclusive d) ∨
        ∃ part x rest, rawLines = front ++ [part] ∧
          splitInclusive (rawLines.flatten ++ d) = front ++ (part ++ x) :: rest by
    have hread := hgrow _ (rawLines_splitInclusive t)
    rwa [splitInclusive_flatten] at hread
  intro rawLines hraw
  induction hraw with
  | nil => exact ⟨[], .inl ⟨rfl, rfl⟩⟩
  | @last line hne hline =>
    obtain ⟨x, rest, hsplit⟩ := splitInclusive_part hne hline d
    exact ⟨[], .inr ⟨line, x, rest, rfl, by simpa using hsplit⟩⟩
  | @cons line rawLines hline _ ih =>
    have hgrown : splitInclusive (((line ++ ['\n']) :: rawLines).flatten ++ d) =
        (line ++ ['\n']) :: splitInclusive (rawLines.flatten ++ d) := by
      rw [← splitInclusive_line hline]
      simp
    rw [hgrown]
    obtain ⟨front, ⟨hsame, hsplit⟩ | ⟨part, x, rest, hsame, hsplit⟩⟩ := ih
    · exact ⟨(line ++ ['\n']) :: front, .inl ⟨by rw [hsame], by rw [hsplit]; rfl⟩⟩
    · exact ⟨(line ++ ['\n']) :: front, .inr ⟨part, x, rest, by rw [hsame]; rfl,
        by rw [hsplit]; rfl⟩⟩

/-! ## Numbers -/

theorem isWhitespace_of_isDigit (h : c.isDigit = true) : isWhitespace c = false := by
  obtain ⟨hlow, hhigh⟩ := Char.isDigit_iff_toNat.mp h
  have hzero : '0'.toNat = 48 := rfl
  have hnine : '9'.toNat = 57 := rfl
  simp only [isWhitespace, decide_eq_false_iff_not]
  omega

theorem parseDigits_ofNat (n : ℕ) : parseDigits (ofNat n) = some n := by
  have hne : ofNat n ≠ [] := Nat.toDigits_ne_nil
  have hdigits : ¬ (ofNat n).any (fun c => !c.isDigit) = true := by
    rw [any_eq_true]
    intro hany
    obtain ⟨c, hc, hnot⟩ := hany
    rw [digit_of_mem_ofNat hc] at hnot
    cases hnot
  have hvalue : (ofNat n).foldl (fun n c => n * 10 + (c.toNat - '0'.toNat)) 0 = n := by
    have hfold := @Nat.ofDigitChars_toDigits 10 n (by decide) (by decide)
    rw [Nat.ofDigitChars_eq_foldl] at hfold
    simp only [Nat.mul_comm] at hfold
    exact hfold
  rw [parseDigits, if_neg (not_or.mpr ⟨hne, hdigits⟩), hvalue]

/-- Leading zeros do not count. -/
theorem parseDigits_zeros (k : ℕ) (h : parseDigits t = some n) :
    parseDigits (replicate k '0' ++ t) = some n := by
  induction k with
  | zero => exact h
  | succ k ih =>
    rw [replicate_succ, cons_append]
    rw [parseDigits] at ih ⊢
    split_ifs at ih with hbad
    rw [not_or] at hbad
    have hgood : ¬ ('0' :: (replicate k '0' ++ t) = [] ∨
        ('0' :: (replicate k '0' ++ t)).any (fun c => !c.isDigit) = true) := by
      rw [any_cons, not_or]
      exact ⟨cons_ne_nil _ _, hbad.2⟩
    rw [if_neg hgood, foldl_cons]
    exact ih

theorem isDigit_of_parseDigits (h : parseDigits t = some n) :
    t ≠ [] ∧ ∀ c ∈ t, c.isDigit = true := by
  rw [parseDigits] at h
  split_ifs at h with hbad
  rw [not_or, any_eq_true, not_exists] at hbad
  refine ⟨hbad.1, fun c hc => ?_⟩
  have hnot := hbad.2 c
  simpa [hc] using hnot

/-- A number without a sign. -/
theorem parseI64_of_parseDigits (h : parseDigits t = some n) (hn : n < 2 ^ 63) :
    parseI64 t = some (n : ℤ) := by
  obtain ⟨hne, hdigits⟩ := isDigit_of_parseDigits h
  have hparsed : (parseDigits t).bind (fun n => if n < 2 ^ 63 then some (n : ℤ) else none) =
      some (n : ℤ) := by
    rw [h, Option.bind_some, if_pos hn]
  rw [parseI64]
  · exact hparsed
  · rintro digits rfl
    exact absurd (hdigits '-' mem_cons_self) (by decide)
  · rintro digits rfl
    exact absurd (hdigits '+' mem_cons_self) (by decide)

theorem splitOnce_cons {s : Text} (h : c ∉ s) (t : Text) :
    splitOnce [c] (s ++ c :: t) = some (s, t) := by
  have hsplit : Infix.splitFirst [c] (s ++ c :: t) = some (s, c :: t) := by
    induction s with
    | nil => exact Infix.splitFirst_of_starts ⟨t, rfl⟩
    | cons d s ih =>
      rw [mem_cons, not_or] at h
      have hne : ¬ [c] <+: d :: (s ++ c :: t) := by
        rintro ⟨rest, hrest⟩
        exact h.1 (cons.inj hrest).1
      rw [cons_append, Infix.splitFirst, if_neg hne, ih h.2]
      rfl
  rw [splitOnce, hsplit]
  rfl

/-! ## One byte a character -/

theorem utf8Size_of_isDigit (h : c.isDigit = true) : c.utf8Size = 1 := by
  rw [Char.utf8Size_eq_one_iff, UInt32.le_iff_toNat_le]
  have hhigh := (Char.isDigit_iff_toNat.mp h).2
  have hnine : '9'.toNat = 57 := rfl
  have hval : c.val.toNat = c.toNat := rfl
  have hbound : (127 : UInt32).toNat = 127 := rfl
  omega

theorem byteSplit_append {s : Text} (h : ∀ c ∈ s, c.utf8Size = 1) (t : Text) :
    byteSplit? s.length (s ++ t) = some (s, t) := by
  induction s with
  | nil => cases t <;> rfl
  | cons c s ih =>
    rw [forall_mem_cons] at h
    rw [length_cons, cons_append, byteSplit?, if_pos (by omega), h.1,
      Nat.add_sub_cancel, ih h.2]
    rfl

theorem byteRange_append {front s : Text} (hfront : ∀ c ∈ front, c.utf8Size = 1)
    (hs : ∀ c ∈ s, c.utf8Size = 1) (t : Text) :
    byteRange? (front ++ (s ++ t)) front.length (front.length + s.length) = some s := by
  rw [byteRange?, byteSplit_append hfront, Option.bind_some, Nat.add_sub_cancel_left]
  show (byteSplit? s.length (s ++ t)).map Prod.fst = some s
  rw [byteSplit_append hs]
  rfl

theorem bytes_of_utf8Size (h : ∀ c ∈ t, c.utf8Size = 1) : bytes t = t.map Char.toUInt8 := by
  rw [bytes, ← flatMap_singleton' (t.map Char.toUInt8), flatMap_map]
  refine flatMap_congr fun c hc => ?_
  rw [String.utf8EncodeChar_eq_singleton (h c hc)]
  rfl

/-- A run of characters of one kind ends where another one begins. -/
theorem span_append {p : Char → Bool} {front back : Text} (hfront : ∀ c ∈ front, p c = true)
    (hback : ∀ c ∈ back.head?, p c = false) :
    (front ++ back).takeWhile p = front ∧ (front ++ back).dropWhile p = back := by
  have hstop : back.takeWhile p = [] ∧ back.dropWhile p = back := by
    cases back with
    | nil => exact ⟨rfl, rfl⟩
    | cons c back =>
      have hc : ¬p c = true := by simp [hback c rfl]
      exact ⟨takeWhile_cons_of_neg hc, dropWhile_cons_of_neg hc⟩
  rw [takeWhile_append_of_pos hfront, dropWhile_append_of_pos hfront, hstop.1, hstop.2,
    append_nil]
  exact ⟨rfl, rfl⟩

/-- Up to the first mark. -/
theorem takeWhile_mark {front back : Text} {mark : Char} (hfront : mark ∉ front)
    (hback : ∀ c ∈ back.head?, c = mark) :
    (front ++ back).takeWhile (· ≠ mark) = front ∧ (front ++ back).dropWhile (· ≠ mark) = back :=
  span_append (fun _ hc => decide_eq_true fun heq => hfront (heq ▸ hc))
    fun c hc => decide_eq_false (not_not.mpr (hback c hc))

theorem append_mark_inj {s t x y : Text} {mark : Char} (hs : mark ∉ s) (ht : mark ∉ t)
    (h : s ++ mark :: x = t ++ mark :: y) : s = t ∧ x = y := by
  have hcut := @takeWhile_mark s (mark :: x) mark hs (by simp)
  rw [h, (@takeWhile_mark t (mark :: y) mark ht (by simp)).1,
    (@takeWhile_mark t (mark :: y) mark ht (by simp)).2] at hcut
  exact ⟨hcut.1.symm, (cons.inj hcut.2).2.symm⟩

end Text
end CodeSeeX
