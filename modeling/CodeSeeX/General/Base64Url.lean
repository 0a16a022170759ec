import Mathlib.Data.UInt

/-!
# Base64 in the alphabet for URLs, without padding

Three bytes are four symbols of six bits. A text is read only if it is written: the bits of its
last symbol that no byte holds are zero.
-/
namespace Base64Url
open Option List

variable {n : ℕ}

abbrev Bytes := List UInt8

def alphabet : List Char :=
  "ABCDEFGHIJKLMNOPQRSTUVWXYZabcdefghijklmnopqrstuvwxyz0123456789-_".toList

def symbol (n : ℕ) : Char := alphabet.getD n 'A'

/-- The six bits of a symbol. -/
def bits (c : Char) : Option ℕ :=
  if alphabet.idxOf c < 64 then some (alphabet.idxOf c) else none

def encode : Bytes → List Char
  | a :: b :: c :: rest =>
      symbol (a.toNat / 4) :: symbol (a.toNat % 4 * 16 + b.toNat / 16) ::
        symbol (b.toNat % 16 * 4 + c.toNat / 64) :: symbol (c.toNat % 64) :: encode rest
  | [a, b] =>
      [symbol (a.toNat / 4), symbol (a.toNat % 4 * 16 + b.toNat / 16), symbol (b.toNat % 16 * 4)]
  | [a] => [symbol (a.toNat / 4), symbol (a.toNat % 4 * 16)]
  | [] => []

def byte (n : ℕ) : UInt8 := UInt8.ofNat n

def decode : List Char → Option Bytes
  | w :: x :: y :: z :: rest =>
      (bits w).bind fun w => (bits x).bind fun x => (bits y).bind fun y => (bits z).bind fun z =>
        (decode rest).map fun bytes =>
          byte (w * 4 + x / 16) :: byte (x % 16 * 16 + y / 4) :: byte (y % 4 * 64 + z) :: bytes
  | [w, x, y] =>
      (bits w).bind fun w => (bits x).bind fun x => (bits y).bind fun y =>
        if y % 4 = 0 then some [byte (w * 4 + x / 16), byte (x % 16 * 16 + y / 4)] else none
  | [w, x] =>
      (bits w).bind fun w => (bits x).bind fun x =>
        if x % 16 = 0 then some [byte (w * 4 + x / 16)] else none
  | [_] => none
  | [] => some []

/-! ## Symbols -/

theorem alphabet_length : alphabet.length = 64 := by decide +kernel

theorem alphabet_nodup : alphabet.Nodup := by decide +kernel

theorem symbol_eq (h : n < alphabet.length) : symbol n = alphabet[n] := by
  rw [symbol, getD_eq_getElem?_getD, getElem?_eq_getElem h, getD_some]

theorem bits_symbol (h : n < 64) : bits (symbol n) = some n := by
  have hn : n < alphabet.length := alphabet_length.symm ▸ h
  have hindex : alphabet.idxOf (symbol n) = n := by
    rw [symbol_eq hn]
    exact alphabet_nodup.idxOf_getElem n hn
  rw [bits, hindex, if_pos h]

theorem bits_eq_some {c : Char} (h : bits c = some n) : n < 64 ∧ symbol n = c := by
  rw [bits] at h
  split_ifs at h with hlt
  obtain rfl := some.inj h
  have hindex : alphabet.idxOf c < alphabet.length := alphabet_length.symm ▸ hlt
  refine ⟨hlt, ?_⟩
  rw [symbol_eq hindex]
  exact getElem_idxOf hindex

theorem symbol_mem (h : n < 64) : symbol n ∈ alphabet := by
  have hn : n < alphabet.length := alphabet_length.symm ▸ h
  rw [symbol_eq hn]
  exact getElem_mem hn

theorem byte_toNat (a : UInt8) : byte a.toNat = a := UInt8.ofNat_toNat

theorem toNat_byte (h : n < 256) : (byte n).toNat = n := by
  exact Nat.mod_eq_of_lt h

/-! ## What is written is read -/

theorem decode_encode (bytes : Bytes) : decode (encode bytes) = some bytes := by
  fun_induction encode bytes with
  | case1 a b c rest ih =>
    have ha := a.toNat_lt
    have hb := b.toNat_lt
    have hc := c.toNat_lt
    have hfirst : a.toNat / 4 * 4 + (a.toNat % 4 * 16 + b.toNat / 16) / 16 = a.toNat := by omega
    have hsecond : (a.toNat % 4 * 16 + b.toNat / 16) % 16 * 16 +
        (b.toNat % 16 * 4 + c.toNat / 64) / 4 = b.toNat := by omega
    have hthird : (b.toNat % 16 * 4 + c.toNat / 64) % 4 * 64 + c.toNat % 64 = c.toNat := by omega
    rw [decode, bits_symbol (by omega), bits_symbol (by omega), bits_symbol (by omega),
      bits_symbol (by omega), ih]
    simp only [bind_some, map_some, hfirst, hsecond, hthird, byte_toNat]
  | case2 a b =>
    have ha := a.toNat_lt
    have hb := b.toNat_lt
    have hfirst : a.toNat / 4 * 4 + (a.toNat % 4 * 16 + b.toNat / 16) / 16 = a.toNat := by omega
    have hsecond : (a.toNat % 4 * 16 + b.toNat / 16) % 16 * 16 + b.toNat % 16 * 4 / 4 =
        b.toNat := by omega
    have hrest : b.toNat % 16 * 4 % 4 = 0 := by omega
    rw [decode, bits_symbol (by omega), bits_symbol (by omega), bits_symbol (by omega)]
    simp only [bind_some, if_pos hrest, hfirst, hsecond, byte_toNat]
  | case3 a =>
    have ha := a.toNat_lt
    have hfirst : a.toNat / 4 * 4 + a.toNat % 4 * 16 / 16 = a.toNat := by omega
    have hrest : a.toNat % 4 * 16 % 16 = 0 := by omega
    rw [decode, bits_symbol (by omega), bits_symbol (by omega)]
    simp only [bind_some, if_pos hrest, hfirst, byte_toNat]
  | case4 => rfl

/-! ## What is read is written -/

/-- A text that is read is the one that is written. -/
theorem encode_of_decode {text : List Char} {bytes : Bytes} (h : decode text = some bytes) :
    encode bytes = text := by
  fun_induction decode text generalizing bytes with
  | case1 w x y z rest ih =>
    simp only [bind_eq_some_iff, map_eq_some_iff] at h
    obtain ⟨p, hp, q, hq, r, hr, s, hs, tail, htail, rfl⟩ := h
    obtain ⟨hp, rfl⟩ := bits_eq_some hp
    obtain ⟨hq, rfl⟩ := bits_eq_some hq
    obtain ⟨hr, rfl⟩ := bits_eq_some hr
    obtain ⟨hs, rfl⟩ := bits_eq_some hs
    have hfirst : (p * 4 + q / 16) / 4 = p := by omega
    have hsecond : (p * 4 + q / 16) % 4 * 16 + (q % 16 * 16 + r / 4) / 16 = q := by omega
    have hthird : (q % 16 * 16 + r / 4) % 16 * 4 + (r % 4 * 64 + s) / 64 = r := by omega
    have hfourth : (r % 4 * 64 + s) % 64 = s := by omega
    rw [encode, ih htail, toNat_byte (by omega), toNat_byte (by omega), toNat_byte (by omega),
      hfirst, hsecond, hthird, hfourth]
  | case2 w x y =>
    simp only [bind_eq_some_iff, ite_none_right_eq_some] at h
    obtain ⟨p, hp, q, hq, r, hr, hzero, hbytes⟩ := h
    obtain rfl := some.inj hbytes
    obtain ⟨hp, rfl⟩ := bits_eq_some hp
    obtain ⟨hq, rfl⟩ := bits_eq_some hq
    obtain ⟨hr, rfl⟩ := bits_eq_some hr
    have hfirst : (p * 4 + q / 16) / 4 = p := by omega
    have hsecond : (p * 4 + q / 16) % 4 * 16 + (q % 16 * 16 + r / 4) / 16 = q := by omega
    have hthird : (q % 16 * 16 + r / 4) % 16 * 4 = r := by omega
    rw [encode, toNat_byte (by omega), toNat_byte (by omega), hfirst, hsecond, hthird]
  | case3 w x =>
    simp only [bind_eq_some_iff, ite_none_right_eq_some] at h
    obtain ⟨p, hp, q, hq, hzero, hbytes⟩ := h
    obtain rfl := some.inj hbytes
    obtain ⟨hp, rfl⟩ := bits_eq_some hp
    obtain ⟨hq, rfl⟩ := bits_eq_some hq
    have hfirst : (p * 4 + q / 16) / 4 = p := by omega
    have hsecond : (p * 4 + q / 16) % 4 * 16 = q := by omega
    rw [encode, toNat_byte (by omega), hfirst, hsecond]
  | case4 _ => cases h
  | case5 =>
    obtain rfl := some.inj h
    rfl

theorem encode_injective : Function.Injective encode := by
  intro a b h
  have hread := congrArg decode h
  rw [decode_encode, decode_encode] at hread
  exact some.inj hread

theorem mem_alphabet_of_encode {bytes : Bytes} {c : Char} (h : c ∈ encode bytes) :
    c ∈ alphabet := by
  fun_induction encode bytes with
  | case1 x y z rest ih =>
    have hx := x.toNat_lt
    have hy := y.toNat_lt
    have hz := z.toNat_lt
    simp only [mem_cons] at h
    rcases h with rfl | rfl | rfl | rfl | hmem
    · exact symbol_mem (by omega)
    · exact symbol_mem (by omega)
    · exact symbol_mem (by omega)
    · exact symbol_mem (by omega)
    · exact ih hmem
  | case2 x y =>
    have hx := x.toNat_lt
    have hy := y.toNat_lt
    simp only [mem_cons, not_mem_nil, or_false] at h
    rcases h with rfl | rfl | rfl
    · exact symbol_mem (by omega)
    · exact symbol_mem (by omega)
    · exact symbol_mem (by omega)
  | case3 x =>
    have hx := x.toNat_lt
    simp only [mem_cons, not_mem_nil, or_false] at h
    rcases h with rfl | rfl
    · exact symbol_mem (by omega)
    · exact symbol_mem (by omega)
  | case4 => cases h

end Base64Url
