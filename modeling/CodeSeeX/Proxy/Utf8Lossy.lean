import CodeSeeX.Proxy.Sse

/-!
# Lossy decoding

`String::from_utf8_lossy` replaces what is not UTF-8. A text that is decoded in chunks
arrives with every character replaced that a chunk ends in.
-/
namespace CodeSeeX.Native
open List

variable {c : Char} {b : UInt8} {t : Text}

/-- The character at the front of a list of bytes. -/
def decodeChar (bytes : Bytes) : Option Char := bytes.toByteArray.utf8DecodeChar? 0

/-- The first two bytes of a character of three or four. -/
def secondFits (first second : UInt8) : Bool :=
  (first = 0xE0 && 0xA0 ≤ second && second ≤ 0xBF) ||
    (((0xE1 ≤ first && first ≤ 0xEC) || (0xEE ≤ first && first ≤ 0xEF) ||
      (0xF1 ≤ first && first ≤ 0xF3)) && 0x80 ≤ second && second ≤ 0xBF) ||
    (first = 0xED && 0x80 ≤ second && second ≤ 0x9F) ||
    (first = 0xF0 && 0x90 ≤ second && second ≤ 0xBF) ||
    (first = 0xF4 && 0x80 ≤ second && second ≤ 0x8F)

/-- How many bytes are replaced together: the longest front part of a character, or one byte. -/
def invalidLength : Bytes → ℕ
  | first :: second :: rest =>
      if !secondFits first second then 1
      else match rest with
        | third :: _ => if 0xF0 ≤ first ∧ 0x80 ≤ third ∧ third ≤ 0xBF then 3 else 2
        | [] => 2
  | _ => 1

theorem invalidLength_pos (bytes : Bytes) : 0 < invalidLength bytes := by
  rcases bytes with _ | ⟨first, _ | ⟨second, _ | ⟨third, rest⟩⟩⟩
  · exact Nat.one_pos
  · exact Nat.one_pos
  · simp only [invalidLength]
    split_ifs <;> omega
  · simp only [invalidLength]
    split_ifs <;> omega

/-- `String::from_utf8_lossy` -/
def fromUtf8Lossy : Bytes → Text
  | [] => []
  | first :: rest =>
      match decodeChar (first :: rest) with
      | some c => c :: fromUtf8Lossy ((first :: rest).drop c.utf8Size)
      | none => '\uFFFD' :: fromUtf8Lossy ((first :: rest).drop (invalidLength (first :: rest)))
termination_by bytes => bytes.length
decreasing_by
  · have hpos := Char.utf8Size_pos c
    simp only [length_drop, length_cons]
    omega
  · have hpos := invalidLength_pos (first :: rest)
    simp only [length_drop, length_cons]
    omega

/-! ## Whole characters -/

theorem decodeChar_encode (c : Char) (rest : Bytes) :
    decodeChar (String.utf8EncodeChar c ++ rest) = some c := by
  rw [decodeChar, toByteArray_append]
  exact ByteArray.utf8DecodeChar?_utf8EncodeChar_append

theorem lossy_char (c : Char) (rest : Bytes) :
    fromUtf8Lossy (String.utf8EncodeChar c ++ rest) = c :: fromUtf8Lossy rest := by
  have hlength : (String.utf8EncodeChar c).length = c.utf8Size := String.length_utf8EncodeChar c
  have hdecode := decodeChar_encode c rest
  obtain ⟨first, tail, hbytes⟩ : ∃ first tail, String.utf8EncodeChar c ++ rest = first :: tail := by
    have hpos := Char.utf8Size_pos c
    have hne : String.utf8EncodeChar c ++ rest ≠ [] := by
      apply ne_nil_of_length_pos
      rw [length_append]
      omega
    exact exists_cons_of_ne_nil hne
  have hdrop : (first :: tail).drop c.utf8Size = rest := by
    rw [← hbytes, ← hlength, drop_left]
  rw [hbytes] at hdecode ⊢
  rw [fromUtf8Lossy, hdecode]
  simp only [hdrop]

theorem lossy_bytes_append (t : Text) (rest : Bytes) :
    fromUtf8Lossy (Text.bytes t ++ rest) = t ++ fromUtf8Lossy rest := by
  induction t with
  | nil => rfl
  | cons c t ih =>
    rw [Text.bytes, flatMap_cons, ← Text.bytes, append_assoc, lossy_char, ih]
    rfl

/-- A text that arrives at once arrives as it is. -/
theorem lossy_bytes (t : Text) : fromUtf8Lossy (Text.bytes t) = t := by
  have h := lossy_bytes_append t []
  rw [append_nil, fromUtf8Lossy, append_nil] at h
  exact h

/-! ## Parts of characters -/

/-- A byte that begins no character. -/
def Tail (b : UInt8) : Prop := ¬ b.IsUTF8FirstByte

theorem tail_of_encode {first : UInt8} {rest : Bytes}
    (h : String.utf8EncodeChar c = first :: rest) : ∀ b ∈ rest, Tail b := by
  intro b hb
  obtain ⟨i, hi, rfl⟩ := mem_iff_getElem.mp hb
  have hlen : i + 1 < (String.utf8EncodeChar c).length := by
    rw [h, length_cons]
    omega
  have hiff := @UInt8.isUTF8FirstByte_getElem_utf8EncodeChar c (i + 1) hlen
  have hget : (String.utf8EncodeChar c)[i + 1] = rest[i] := by
    simp only [h, getElem_cons_succ]
  rw [hget] at hiff
  intro hfirst
  exact absurd (hiff.mp hfirst) (Nat.succ_ne_zero i)

theorem secondFits_of_tail (h : Tail b) (second : UInt8) :
    secondFits b second = false := by
  have hlead : ∀ n, 0xE0 ≤ n → n ≤ 0xF4 → (UInt8.ofNat n).IsUTF8FirstByte := by
    intro n hlow hhigh
    interval_cases n <;> decide
  rw [← Bool.not_eq_true]
  intro hfits
  have hrange : 0xE0 ≤ b.toNat ∧ b.toNat ≤ 0xF4 := by
    simp only [secondFits, Bool.or_eq_true, Bool.and_eq_true, decide_eq_true_eq,
      UInt8.le_iff_toNat_le, ← UInt8.toNat_inj, UInt8.reduceToNat] at hfits
    omega
  have hfirst := hlead b.toNat hrange.1 hrange.2
  rw [UInt8.ofNat_toNat] at hfirst
  exact h hfirst

theorem decodeChar_of_tail (h : Tail b) (rest : Bytes) : decodeChar (b :: rest) = none := by
  rw [Option.eq_none_iff_forall_ne_some]
  intro c hc
  refine h ?_
  have hsome := ByteArray.isUTF8FirstByte_of_isSome_utf8DecodeChar? (i := 0)
    (Option.isSome_of_eq_some hc)
  simpa using hsome

theorem lossy_tail (h : Tail b) (rest : Bytes) :
    fromUtf8Lossy (b :: rest) = '\uFFFD' :: fromUtf8Lossy rest := by
  have hone : invalidLength (b :: rest) = 1 := by
    cases rest with
    | nil => rfl
    | cons second rest => simp [invalidLength, secondFits_of_tail h]
  rw [fromUtf8Lossy, decodeChar_of_tail h]
  simp [hone]

theorem lossy_tails {tails : Bytes} (h : ∀ b ∈ tails, Tail b) (rest : Bytes) :
    fromUtf8Lossy (tails ++ rest) = replicate tails.length '\uFFFD' ++ fromUtf8Lossy rest := by
  induction tails with
  | nil => rfl
  | cons b tails ih =>
    obtain ⟨hb, htails⟩ := forall_mem_cons.mp h
    rw [cons_append, lossy_tail hb, ih htails]
    rfl

section
variable {c : Char} {front back : Bytes} (h : String.utf8EncodeChar c = front ++ back)
include h

/-- A character is not the beginning of another one. -/
theorem decodeChar_beginning (hback : back ≠ []) : decodeChar front = none := by
  rw [Option.eq_none_iff_forall_ne_some]
  intro d hd
  obtain ⟨rest, hrest⟩ := ByteArray.exists_of_utf8DecodeChar?_eq_some hd
  have hfront : front = String.utf8EncodeChar d ++ rest.data.toList := by
    have hdata := congrArg (fun bytes => bytes.data.toList) hrest
    simpa using hdata
  have hwhole := decodeChar_encode d (rest.data.toList ++ back)
  rw [← append_assoc, ← hfront, ← h, ← append_nil (String.utf8EncodeChar c),
    decodeChar_encode, Option.some_inj] at hwhole
  rw [hwhole, hfront, append_assoc] at h
  have hlength := congrArg length h
  have hpos := length_pos_iff.mpr hback
  simp only [length_append] at hlength
  omega

/-- The beginning of a character, with nothing behind it, is replaced. -/
theorem lossy_beginning (hfront : front ≠ []) (hback : back ≠ []) :
    ∃ k, 0 < k ∧ fromUtf8Lossy front = replicate k '\uFFFD' := by
  have hnone := decodeChar_beginning h hback
  obtain ⟨first, rest, rfl⟩ := exists_cons_of_ne_nil hfront
  have htails : ∀ b ∈ rest, Tail b := by
    intro b hb
    exact tail_of_encode h b (mem_append_left _ hb)
  obtain ⟨n, hn⟩ : ∃ n, invalidLength (first :: rest) = n + 1 := by
    have hpos := invalidLength_pos (first :: rest)
    exact ⟨invalidLength (first :: rest) - 1, by omega⟩
  have hlater := @lossy_tails (rest.drop n) (fun b hb => htails b (mem_of_mem_drop hb)) []
  have hnil : fromUtf8Lossy [] = [] := by rw [fromUtf8Lossy]
  rw [append_nil, hnil, append_nil] at hlater
  refine ⟨(rest.drop n).length + 1, Nat.succ_pos _, ?_⟩
  rw [fromUtf8Lossy, hnone]
  simp only [hn, drop_succ_cons, hlater]
  rfl

end

/-! ## Chunks -/

/-- Where chunks end, counted from the beginning of the first one. -/
def chunkEnds : List Bytes → List ℕ
  | [] => []
  | chunk :: chunks => chunk.length :: (chunkEnds chunks).map (chunk.length + ·)

/-- The characters of a text, each with whether a chunk ends inside it. -/
def marked : List ℕ → Text → List (Char × Bool)
  | _, [] => []
  | ends, c :: t =>
      (c, ends.any fun stop => 0 < stop && stop < c.utf8Size) ::
        marked (ends.map (· - c.utf8Size)) t

/-- A character and what has arrived in its place. -/
abbrev Arrival := Char × Text

variable {arrivals : List Arrival}

/-- A character arrives as it is, or replaced more than once. -/
def Arrival.Sound (a : Arrival) : Prop :=
  a.2 = [a.1] ∨ (128 ≤ a.1.toNat ∧ ∃ k, 2 ≤ k ∧ a.2 = replicate k '\uFFFD')

theorem Arrival.Sound.shape {a : Arrival} (h : a.Sound) : (∃ c, a = (c, [c])) ∨
    ∃ c k, 128 ≤ c.toNat ∧ a = (c, '\uFFFD' :: '\uFFFD' :: replicate k '\uFFFD') := by
  obtain ⟨c, text⟩ := a
  rcases h with hwhole | ⟨hbig, k, hk, htext⟩
  · exact .inl ⟨c, congrArg (Prod.mk c) hwhole⟩
  · obtain ⟨j, rfl⟩ : ∃ j, k = j + 2 := ⟨k - 2, by omega⟩
    exact .inr ⟨c, j, hbig, congrArg (Prod.mk c) htext⟩

def Arrival.broken (a : Arrival) : Bool := a.2 ≠ [a.1]

theorem mem_map_sub {ends : List ℕ} {n size : ℕ} (hn : 0 < n) :
    n ∈ ends.map (· - size) ↔ n + size ∈ ends := by
  rw [mem_map]
  constructor
  · intro h
    obtain ⟨stop, hstop, heq⟩ := h
    have hsum : n + size = stop := by omega
    rw [hsum]
    exact hstop
  · intro h
    exact ⟨n + size, h, by omega⟩

/-- A chunk that ends where the text begins cuts nothing. -/
theorem marked_congr {ends ends' : List ℕ} (h : ∀ n, 0 < n → (n ∈ ends ↔ n ∈ ends')) (t : Text) :
    marked ends t = marked ends' t := by
  induction t generalizing ends ends' with
  | nil => rfl
  | cons c t ih =>
    have hcut : (ends.any fun stop => 0 < stop && stop < c.utf8Size) =
        ends'.any fun stop => 0 < stop && stop < c.utf8Size := by
      rw [Bool.eq_iff_iff, any_eq_true, any_eq_true]
      constructor
      · intro ⟨stop, hmem, hstop⟩
        have hpos : 0 < stop := by simp at hstop; omega
        exact ⟨stop, (h stop hpos).mp hmem, hstop⟩
      · intro ⟨stop, hmem, hstop⟩
        have hpos : 0 < stop := by simp at hstop; omega
        exact ⟨stop, (h stop hpos).mpr hmem, hstop⟩
    have hlater : ∀ n, 0 < n →
        (n ∈ ends.map (· - c.utf8Size) ↔ n ∈ ends'.map (· - c.utf8Size)) := by
      intro n hn
      rw [mem_map_sub hn, mem_map_sub hn]
      exact h (n + c.utf8Size) (by omega)
    rw [marked, marked, hcut, ih hlater]

theorem marked_fst (ends : List ℕ) (t : Text) : (marked ends t).map Prod.fst = t := by
  induction t generalizing ends with
  | nil => rfl
  | cons c t ih => rw [marked, map_cons, ih]

variable {chunks : List Bytes}

theorem mem_chunkEnds_cons {chunk : Bytes} {n : ℕ} : n ∈ chunkEnds (chunk :: chunks) ↔
      n = chunk.length ∨ ∃ stop ∈ chunkEnds chunks, chunk.length + stop = n := by
  rw [chunkEnds, mem_cons, mem_map]

/-- A byte that begins no character arrives replaced, whichever chunk it is in. -/
theorem drop_tail (hb : Tail b) {bytes : Bytes} (h : chunks.flatten = b :: bytes) :
    ∃ later : List Bytes, later.flatten = bytes ∧
      chunks.flatMap fromUtf8Lossy = '\uFFFD' :: later.flatMap fromUtf8Lossy ∧
      ∀ n, 0 < n → (n ∈ chunkEnds later ↔ n + 1 ∈ chunkEnds chunks) := by
  induction chunks with
  | nil => simp at h
  | cons chunk chunks ih =>
    cases chunk with
    | nil =>
      obtain ⟨later, hbytes, htext, hends⟩ := ih (by simpa using h)
      have hnil : fromUtf8Lossy [] = [] := by rw [fromUtf8Lossy]
      refine ⟨later, hbytes, ?_, ?_⟩
      · rw [flatMap_cons, hnil, htext]
        rfl
      · intro n hn
        rw [hends n hn, mem_chunkEnds_cons]
        simp
    | cons first chunk =>
      rw [flatten_cons, cons_append, cons.injEq] at h
      obtain ⟨rfl, hbytes⟩ := h
      refine ⟨chunk :: chunks, hbytes, ?_, ?_⟩
      · rw [flatMap_cons, lossy_tail hb]
        rfl
      · intro n hn
        rw [mem_chunkEnds_cons, mem_chunkEnds_cons, length_cons]
        have hshift : ∀ stop, chunk.length + stop = n ↔ chunk.length + 1 + stop = n + 1 := by
          omega
        simp only [hshift, Nat.add_right_cancel_iff]

theorem drop_tails {tails : Bytes} (ht : ∀ b ∈ tails, Tail b) {bytes : Bytes}
    (h : chunks.flatten = tails ++ bytes) :
    ∃ later : List Bytes, later.flatten = bytes ∧
      chunks.flatMap fromUtf8Lossy =
        replicate tails.length '\uFFFD' ++ later.flatMap fromUtf8Lossy ∧
      ∀ n, 0 < n → (n ∈ chunkEnds later ↔ n + tails.length ∈ chunkEnds chunks) := by
  induction tails generalizing chunks with
  | nil => exact ⟨chunks, h, rfl, fun n _ => Iff.rfl⟩
  | cons b tails ih =>
    obtain ⟨hb, htails⟩ := forall_mem_cons.mp ht
    obtain ⟨middle, hmiddle, htext, hends⟩ := drop_tail hb h
    obtain ⟨later, hbytes, htexts, hlater⟩ := ih htails hmiddle
    refine ⟨later, hbytes, ?_, ?_⟩
    · rw [htext, htexts]
      rfl
    · intro n hn
      rw [hlater n hn, hends _ (by omega), length_cons, Nat.add_assoc]

/-- What chunks of a text arrive as. -/
structure Arrives (chunks : List Bytes) (t : Text) (arrivals : List Arrival) : Prop where
  sound : ∀ a ∈ arrivals, a.Sound
  marks : arrivals.map (fun a => (a.1, a.broken)) = marked (chunkEnds chunks) t
  text : arrivals.flatMap Prod.snd = chunks.flatMap fromUtf8Lossy

theorem Arrives.nil (h : chunks.flatten = []) : Arrives chunks [] [] := by
  refine ⟨by simp, rfl, ?_⟩
  have hempty : ∀ chunk ∈ chunks, fromUtf8Lossy chunk = [] := by
    intro chunk hchunk
    rw [flatten_eq_nil_iff.mp h chunk hchunk, fromUtf8Lossy]
  rw [flatMap_nil, flatMap_eq_nil_iff.mpr hempty]

theorem Arrives.empty_chunk (h : Arrives chunks t arrivals) :
    Arrives ([] :: chunks) t arrivals := by
  refine ⟨h.sound, ?_, ?_⟩
  · rw [h.marks]
    apply marked_congr
    intro n hn
    rw [mem_chunkEnds_cons]
    simp only [length_nil, Nat.zero_add, exists_eq_right]
    constructor
    · exact .inr
    · intro hor
      rcases hor with hzero | hmem
      · omega
      · exact hmem
  · rw [h.text, flatMap_cons, fromUtf8Lossy]
    rfl

/-- A character that a chunk holds arrives as it is. -/
theorem Arrives.whole {behind : Bytes} (h : Arrives (behind :: chunks) t arrivals) :
    Arrives ((String.utf8EncodeChar c ++ behind) :: chunks) (c :: t) ((c, [c]) :: arrivals) := by
  have hsize : (String.utf8EncodeChar c).length = c.utf8Size := String.length_utf8EncodeChar c
  refine ⟨forall_mem_cons.mpr ⟨.inl rfl, h.sound⟩, ?_, ?_⟩
  · have huncut : ((chunkEnds ((String.utf8EncodeChar c ++ behind) :: chunks)).any
        fun stop => 0 < stop && stop < c.utf8Size) = false := by
      rw [any_eq_false]
      intro stop hstop
      rw [mem_chunkEnds_cons, length_append] at hstop
      simp only [Bool.and_eq_true, decide_eq_true_eq, not_and, Nat.not_lt]
      omega
    have hbroken : Arrival.broken (c, [c]) = false := by simp [Arrival.broken]
    rw [map_cons, marked, huncut, h.marks, hbroken]
    refine congrArg _ (marked_congr ?_ t)
    intro n hn
    rw [mem_map_sub hn, mem_chunkEnds_cons, mem_chunkEnds_cons, length_append]
    have hshift : ∀ stop, behind.length + stop = n ↔
        (String.utf8EncodeChar c).length + behind.length + stop = n + c.utf8Size := by
      omega
    have hend : n = behind.length ↔
        n + c.utf8Size = (String.utf8EncodeChar c).length + behind.length := by
      omega
    simp only [hshift, hend]
  · rw [flatMap_cons, h.text, flatMap_cons, flatMap_cons, lossy_char]
    rfl

/-- A character that a chunk ends in arrives replaced. -/
theorem Arrives.cut {chunk back : Bytes} {chunks later : List Bytes} {k : ℕ}
    (h : Arrives later t arrivals) (hback : String.utf8EncodeChar c = chunk ++ back)
    (hchunkpos : 0 < chunk.length) (hbackpos : 0 < back.length) (hk : 0 < k)
    (hfront : fromUtf8Lossy chunk = replicate k '\uFFFD')
    (htext : chunks.flatMap fromUtf8Lossy =
      replicate back.length '\uFFFD' ++ later.flatMap fromUtf8Lossy)
    (hends : ∀ n, 0 < n → (n ∈ chunkEnds later ↔ n + back.length ∈ chunkEnds chunks)) :
    Arrives (chunk :: chunks) (c :: t)
      ((c, replicate (k + back.length) '\uFFFD') :: arrivals) := by
  have hlength : chunk.length + back.length = c.utf8Size := by
    rw [← String.length_utf8EncodeChar c, hback, length_append]
  refine ⟨?_, ?_, ?_⟩
  · refine forall_mem_cons.mpr ⟨.inr ⟨?_, k + back.length, by omega, rfl⟩, h.sound⟩
    show 128 ≤ c.toNat
    by_contra hsmall
    have hone : c.utf8Size = 1 := Char.utf8Size_eq_one_iff.mpr (by
      show c.toNat ≤ 127
      omega)
    omega
  · have hcut : ((chunkEnds (chunk :: chunks)).any
        fun stop => 0 < stop && stop < c.utf8Size) = true := by
      rw [any_eq_true]
      refine ⟨chunk.length, mem_chunkEnds_cons.mpr (.inl rfl), ?_⟩
      simp only [Bool.and_eq_true, decide_eq_true_eq]
      omega
    have hbroken : Arrival.broken (c, replicate (k + back.length) '\uFFFD') = true := by
      rw [Arrival.broken, decide_eq_true_eq]
      intro heq
      have hlengths := congrArg length heq
      rw [length_replicate, length_singleton] at hlengths
      omega
    rw [map_cons, marked, hcut, h.marks, hbroken]
    refine congrArg _ (marked_congr ?_ t)
    intro n hn
    rw [hends n hn, mem_map_sub hn, mem_chunkEnds_cons]
    constructor
    · intro hmem
      exact .inr ⟨n + back.length, hmem, by omega⟩
    · intro hor
      rcases hor with hself | ⟨stop, hstop, heq⟩
      · omega
      · have hstopeq : n + back.length = stop := by omega
        rwa [hstopeq]
  · rw [flatMap_cons, h.text, flatMap_cons, htext, hfront, ← append_assoc,
      replicate_append_replicate]

theorem chunks_arrive (h : chunks.flatten = Text.bytes t) :
    ∃ arrivals, Arrives chunks t arrivals := by
  induction t generalizing chunks with
  | nil => exact ⟨[], Arrives.nil h⟩
  | cons c t ih =>
    have hsize : (String.utf8EncodeChar c).length = c.utf8Size := String.length_utf8EncodeChar c
    rw [Text.bytes, flatMap_cons, ← Text.bytes] at h
    induction chunks with
    | nil =>
      have hpos := Char.utf8Size_pos c
      have hlength := congrArg length h
      simp only [flatten_nil, length_nil, length_append] at hlength
      omega
    | cons chunk chunks ihchunks =>
      rw [flatten_cons] at h
      by_cases hempty : chunk = []
      · subst hempty
        obtain ⟨arrivals, harrive⟩ := ihchunks (by simpa using h)
        exact ⟨arrivals, harrive.empty_chunk⟩
      · by_cases hlong : c.utf8Size ≤ chunk.length
        · obtain ⟨behind, rfl⟩ : String.utf8EncodeChar c <+: chunk :=
            prefix_of_prefix_length_le ⟨Text.bytes t, h.symm⟩
              (prefix_append chunk chunks.flatten) (by omega)
          rw [append_assoc, append_cancel_left_eq] at h
          obtain ⟨arrivals, harrive⟩ := @ih (behind :: chunks) h
          exact ⟨(c, [c]) :: arrivals, harrive.whole⟩
        · -- the chunk ends inside the character
          obtain ⟨back, hback⟩ : chunk <+: String.utf8EncodeChar c :=
            prefix_of_prefix_length_le ⟨chunks.flatten, rfl⟩
              ⟨Text.bytes t, h.symm⟩ (by omega)
          have hlength : chunk.length + back.length = c.utf8Size := by
            rw [← hsize, ← hback, length_append]
          have hbackpos : 0 < back.length := by omega
          have htails : ∀ b ∈ back, Tail b := by
            intro b hb
            obtain ⟨first, rest, rfl⟩ := exists_cons_of_ne_nil hempty
            exact tail_of_encode hback.symm b (mem_append_right _ hb)
          rw [← hback, append_assoc, append_cancel_left_eq] at h
          obtain ⟨k, hk, hfront⟩ :=
            lossy_beginning hback.symm hempty (length_pos_iff.mp hbackpos)
          obtain ⟨later, hlater, htext, hends⟩ := drop_tails htails h
          obtain ⟨arrivals, harrive⟩ := @ih later hlater
          exact ⟨_, harrive.cut hback.symm (length_pos_iff.mpr hempty) hbackpos hk hfront htext
            hends⟩

end CodeSeeX.Native
