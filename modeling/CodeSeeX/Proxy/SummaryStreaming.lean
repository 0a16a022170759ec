import CodeSeeX.Proxy.SummaryProjector

/-!
# Streaming a summary

The projector emits a text piece by piece. The pieces make up the projection of the whole
text exactly if none of them ran ahead of it, and only a full stop at the end of a delta,
which is taken for the end of a sentence before the next delta shows that it is none, can
make one run ahead.
-/
namespace CodeSeeX
open List Option Text Bool

variable (c : Char) {i : ℕ} (text : Text) (t d : Text) {last back : List Text}
  {p : SummaryProjector} (mode : ReasoningSummaryMode) {deltas : List Text}

namespace Summary

/-! ## Sentence ends -/

/-- A sentence or a line ends behind the first `i` characters. -/
def BoundaryAt (text : Text) (i : ℕ) : Prop := ∃ j c, i = j + 1 ∧ text[j]? = some c ∧
  isBoundary c ((text[i]?.map isWhitespace).getD true) = true

/-- The last number with a property, if there is one. -/
def IsLast (p : ℕ → Prop) : Option ℕ → Prop
  | none => ∀ i, ¬p i
  | some b => p b ∧ ∀ i, p i → i ≤ b

/-- A boundary within the limit. -/
def Within (text : Text) (limit i : ℕ) : Prop :=
  BoundaryAt text i ∧ utf8Len (text.take i) ≤ limit

theorem utf8Len_cons (text : Text) :
    utf8Len (c :: text) = c.utf8Size + utf8Len text := rfl

theorem boundaryAt_one (text : Text) : BoundaryAt (c :: text) 1 ↔
    isBoundary c ((text.head?.map isWhitespace).getD true) = true := by
  constructor
  · rintro ⟨j, d, hj, hd, hboundary⟩
    obtain rfl : j = 0 := by omega
    obtain rfl : c = d := by simpa using hd
    simpa [head?_eq_getElem?] using hboundary
  · intro h
    exact ⟨0, c, rfl, rfl, by simpa [head?_eq_getElem?] using h⟩

theorem boundaryAt_succ (text : Text) (i : ℕ) :
    BoundaryAt (c :: text) (i + 2) ↔ BoundaryAt text (i + 1) := by
  constructor
  · rintro ⟨j, d, hj, hd, hboundary⟩
    obtain rfl : j = i + 1 := by omega
    exact ⟨i, d, rfl, by simpa using hd, by simpa using hboundary⟩
  · rintro ⟨j, d, hj, hd, hboundary⟩
    obtain rfl : j = i := by omega
    exact ⟨j + 1, d, rfl, by simpa using hd, by simpa using hboundary⟩

theorem BoundaryAt.pos {text : Text} (h : BoundaryAt text i) : 0 < i := by
  obtain ⟨j, _, rfl, _⟩ := h
  omega

theorem BoundaryAt.le {text : Text} {i : ℕ} (h : BoundaryAt text i) : i ≤ text.length := by
  obtain ⟨j, c, rfl, hc, _⟩ := h
  exact (List.getElem?_eq_some_iff.mp hc).1

/-- The loop behind `byteIndex` bytes: the last boundary of the rest, or what it had. -/
theorem loop_spec (limit index byteIndex : ℕ) (boundary : Option ℕ) (text : Text) : ∃ r,
    IsLast (fun i => BoundaryAt text i ∧ byteIndex + utf8Len (text.take i) ≤ limit) r ∧
      lastBoundaryWithin.loop limit index byteIndex boundary text =
        (r.map (index + ·)).or boundary := by
  induction text generalizing index byteIndex boundary with
  | nil =>
    refine ⟨none, fun i hi => ?_, rfl⟩
    have hpos := hi.1.pos
    have hle := hi.1.le
    simp only [length_nil] at hle
    omega
  | cons c text ih =>
    rw [lastBoundaryWithin.loop]
    split_ifs with hover
    · refine ⟨none, fun i hi => ?_, rfl⟩
      obtain ⟨i, rfl⟩ := Nat.exists_eq_add_one.mpr hi.1.pos
      have hbytes := hi.2
      rw [take_succ_cons, utf8Len_cons] at hbytes
      omega
    · obtain ⟨r, hlast, hloop⟩ := ih (index + 1) (byteIndex + c.utf8Size)
        (if isBoundary c ((text.head?.map isWhitespace).getD true) then some (index + 1)
          else boundary)
      -- behind the first character the boundaries are those of the rest
      have hshift : ∀ i, (BoundaryAt (c :: text) (i + 2) ∧
          byteIndex + utf8Len ((c :: text).take (i + 2)) ≤ limit) ↔
            (BoundaryAt text (i + 1) ∧
              byteIndex + c.utf8Size + utf8Len (text.take (i + 1)) ≤ limit) := by
        intro i
        rw [boundaryAt_succ, take_succ_cons, utf8Len_cons, Nat.add_assoc]
      cases r with
      | some j =>
        obtain ⟨hvalid, hmax⟩ := hlast
        obtain ⟨j, rfl⟩ := Nat.exists_eq_add_one.mpr hvalid.1.pos
        refine ⟨some (j + 2), ⟨(hshift j).mpr hvalid, fun i hi => ?_⟩, ?_⟩
        · rcases i with _ | _ | i
          · omega
          · omega
          · have hle := hmax (i + 1) ((hshift i).mp hi)
            omega
        · rw [hloop]
          simp only [map_some, some_or]
          congr 1
          omega
      | none =>
        by_cases hfirst : isBoundary c ((text.head?.map isWhitespace).getD true) = true
        · refine ⟨some 1, ⟨⟨(boundaryAt_one c text).mpr hfirst, ?_⟩, fun i hi => ?_⟩, ?_⟩
          · rw [take_succ_cons, utf8Len_cons, take_zero]
            have hnil : utf8Len [] = 0 := rfl
            omega
          · rcases i with _ | _ | i
            · omega
            · omega
            · exact absurd ((hshift i).mp hi) (hlast (i + 1))
          · rw [hloop, if_pos hfirst]
            rfl
        · refine ⟨none, fun i hi => ?_, ?_⟩
          · rcases i with _ | _ | i
            · exact absurd hi.1.pos (lt_irrefl 0)
            · exact hfirst ((boundaryAt_one c text).mp hi.1)
            · exact hlast (i + 1) ((hshift i).mp hi)
          · rw [hloop, if_neg hfirst]
            rfl

theorem lastBoundaryWithin_spec (limit : ℕ) :
    IsLast (Within text limit) (lastBoundaryWithin text limit) := by
  obtain ⟨r, hlast, hloop⟩ := loop_spec limit 0 0 none text
  have hread : lastBoundaryWithin text limit = r := by
    rw [lastBoundaryWithin, hloop]
    cases r <;> simp
  have hwithin : (fun i => BoundaryAt text i ∧ 0 + utf8Len (text.take i) ≤ limit) =
      Within text limit := by
    funext i
    rw [Within, Nat.zero_add]
  rw [hread, ← hwithin]
  exact hlast

/-! ## Bytes of front parts -/

theorem utf8Len_take_le (text : Text) {m n : ℕ} (h : m ≤ n) :
    utf8Len (text.take m) ≤ utf8Len (text.take n) := by
  obtain ⟨rest, hrest⟩ : text.take m <+: text.take n := take_prefix_take_left h
  rw [← hrest, utf8Len_append]
  omega

theorem length_le_utf8Len : text.length ≤ utf8Len text := by
  induction text with
  | nil => rfl
  | cons c text ih =>
    have hpos := c.utf8Size_pos
    rw [utf8Len_cons, length_cons]
    omega

/-- A front part with no more bytes is no longer. -/
theorem le_of_utf8Len_take_le {text : Text} {m n : ℕ} (hm : m ≤ text.length)
    (h : utf8Len (text.take m) ≤ utf8Len (text.take n)) : m ≤ n := by
  by_contra hlt
  have hsplit : text.take m = text.take n ++ (text.take m).drop n := by
    have hparts := take_append_drop n (text.take m)
    rw [take_take, Nat.min_eq_left (by omega)] at hparts
    exact hparts.symm
  have hbytes := length_le_utf8Len ((text.take m).drop n)
  rw [hsplit, utf8Len_append] at h
  rw [length_drop, length_take] at hbytes
  omega

theorem floorCharBoundary_spec (limit : ℕ) :
    utf8Len (text.take (floorCharBoundary text limit)) ≤ limit ∧
      floorCharBoundary text limit ≤ text.length ∧
      ∀ i ≤ text.length, utf8Len (text.take i) ≤ limit → i ≤ floorCharBoundary text limit := by
  induction text generalizing limit with
  | nil => simp [floorCharBoundary, utf8Len]
  | cons c text ih =>
    rw [floorCharBoundary]
    split_ifs with hfits
    · obtain ⟨hbytes, hlength, hmax⟩ := ih (limit - c.utf8Size)
      refine ⟨?_, ?_, fun i hi hlimit => ?_⟩
      · rw [take_succ_cons, utf8Len_cons]
        omega
      · rw [length_cons]
        omega
      · cases i with
        | zero => omega
        | succ i =>
          rw [take_succ_cons, utf8Len_cons] at hlimit
          rw [length_cons] at hi
          have hrest := hmax i (by omega) (by omega)
          omega
    · refine ⟨by simp [utf8Len], by omega, fun i hi hlimit => ?_⟩
      cases i with
      | zero => omega
      | succ i =>
        rw [take_succ_cons, utf8Len_cons] at hlimit
        omega

/-! ## The first paragraph of a growing text -/

theorem rdropWhile_isPrefix {p : Char → Bool} {s t : Text} (h : s <+: t) :
    s.rdropWhile p <+: t.rdropWhile p := by
  obtain ⟨d, rfl⟩ := h
  induction d using reverseRecOn with
  | nil => rw [append_nil]
  | append_singleton d c ih =>
    rw [← append_assoc]
    by_cases hc : p c = true
    · rw [rdropWhile_concat_pos _ _ _ hc]
      exact ih
    · rw [rdropWhile_concat_neg _ _ _ hc, append_assoc]
      exact ( rdropWhile_prefix p s).trans (prefix_append _ _)

/-- A line break. -/
def isLineEnd (c : Char) : Bool := c = '\n' ∨ c = '\r'

theorem take_trimLineEnd (stop : ℕ) :
    text.take (trimLineEnd text stop) = (text.take stop).rdropWhile isLineEnd := by
  have hfront : (text.take stop).rdropWhile isLineEnd <+: text :=
    ( rdropWhile_prefix _ _).trans ( take_prefix _ _)
  exact (prefix_iff_eq_take.mp hfront).symm

/-- Where the first blank line begins. -/
def paragraphStop : List Text → ℕ
  | [] => 0
  | line :: lines => if line.isBlank then 0 else line.length + paragraphStop lines

theorem firstParagraphEnd_loop (offset : ℕ) (lines : List Text)
    (h : offset + lines.flatten.length = text.length) :
    firstParagraphEnd.loop text offset lines = trimLineEnd text (offset + paragraphStop lines) := by
  induction lines generalizing offset with
  | nil =>
    have hoffset : offset = text.length := by simpa using h
    rw [firstParagraphEnd.loop, paragraphStop, Nat.add_zero, hoffset]
  | cons line lines ih =>
    rw [firstParagraphEnd.loop, paragraphStop]
    split_ifs
    · rw [Nat.add_zero]
    · rw [flatten_cons, length_append] at h
      rw [ih _ (by omega), Nat.add_assoc]

theorem firstParagraphEnd_eq :
    firstParagraphEnd text = trimLineEnd text (paragraphStop (splitInclusive text)) := by
  rw [firstParagraphEnd, firstParagraphEnd_loop, Nat.zero_add]
  rw [Nat.zero_add, splitInclusive_flatten]

/-- The first paragraph. -/
def paragraph (text : Text) : Text :=
  (text.take (paragraphStop (splitInclusive text))).rdropWhile isLineEnd

theorem take_firstParagraphEnd :
    text.take (firstParagraphEnd text) = paragraph text := by
  rw [firstParagraphEnd_eq, take_trimLineEnd, paragraph]

theorem firstParagraphEnd_eq_length :
    firstParagraphEnd text = (paragraph text).length := by
  rw [firstParagraphEnd_eq]
  rfl

theorem smartStart_eq : smartStart text =
    if opensList (paragraph text) then
      (text.take (extendList text (paragraph text).length)).rdropWhile isLineEnd
    else paragraph text := by
  have htake : text.take (paragraph text).length = paragraph text := by
    rw [← firstParagraphEnd_eq_length, take_firstParagraphEnd]
  simp only [smartStart, take_trimLineEnd, firstParagraphEnd_eq_length, htake]

theorem paragraphStop_le (lines : List Text) : paragraphStop lines ≤ lines.flatten.length := by
  induction lines with
  | nil => exact le_rfl
  | cons line lines ih =>
    rw [paragraphStop, flatten_cons, length_append]
    split_ifs <;> omega

/-- Lines in front of others: the first blank line, or all of them. -/
theorem paragraphStop_append (front back : List Text) : paragraphStop (front ++ back) =
    if front.any Text.isBlank then paragraphStop front
    else front.flatten.length + paragraphStop back := by
  induction front with
  | nil => simp
  | cons line front ih =>
    rw [cons_append, paragraphStop, paragraphStop, any_cons]
    by_cases hblank : line.isBlank = true
    · simp [hblank]
    · rw [not_eq_true] at hblank
      simp only [hblank, false_eq_true, if_false, Bool.false_or, ih]
      split_ifs
      · rfl
      · rw [flatten_cons, length_append, Nat.add_assoc]

/-- How the last line of a text changes when the text grows. -/
def Grows (last back : List Text) : Prop :=
  last = [] ∨ ∃ part x rest, last = [part] ∧ back = (part ++ x) :: rest

theorem lines_append : ∃ front last back, Grows last back ∧
    splitInclusive t = front ++ last ∧ splitInclusive (t ++ d) = front ++ back := by
  obtain ⟨front, ⟨hsame, hsplit⟩ | ⟨part, x, rest, hsame, hsplit⟩⟩ := splitInclusive_append t d
  · exact ⟨front, [], _, .inl rfl, by rw [append_nil, hsame], hsplit⟩
  · exact ⟨front, [part], _, .inr ⟨part, x, rest, rfl, rfl⟩, hsame, hsplit⟩

/-! ## The list behind it -/

section Loop
variable {start stop : ℕ} {seenItem : Bool} {line : Text} {lines : List Text}

theorem loop_blank (h : line.trim = []) : extendList.loop start stop seenItem (line :: lines) =
    if seenItem then stop else extendList.loop start (stop + line.length) seenItem lines := by
  rw [extendList.loop, if_pos h]

theorem loop_item (h : isListItem line.trim = true) :
    extendList.loop start stop seenItem (line :: lines) =
      extendList.loop start (stop + line.length) true lines := by
  have hne : line.trim ≠ [] := by
    intro hnil
    rw [hnil] at h
    exact absurd h (by decide)
  rw [extendList.loop, if_neg hne]
  simp [h]

theorem loop_other (hne : line.trim ≠ []) (h : isListItem line.trim = false) :
    extendList.loop start stop seenItem (line :: lines) = if seenItem then stop else start := by
  rw [extendList.loop, if_neg hne]
  simp [h]

end Loop

/-- An extended list ends no earlier than it stands. -/
theorem le_extendList_loop (start stop : ℕ) (seenItem : Bool) (lines : List Text)
    (h : start ≤ stop) :
    (if seenItem then stop else start) ≤ extendList.loop start stop seenItem lines := by
  induction lines generalizing stop seenItem with
  | nil => exact le_rfl
  | cons line lines ih =>
    by_cases hblank : line.trim = []
    · rw [loop_blank hblank]
      cases seenItem with
      | true => exact le_rfl
      | false => exact ih (stop + line.length) false (by omega)
    · cases hitem : isListItem line.trim with
      | true =>
        have hrest := ih (stop + line.length) true (by omega)
        rw [if_pos rfl] at hrest
        rw [loop_item hitem]
        split_ifs <;> omega
      | false => rw [loop_other hblank hitem]

theorem le_extendList (start : ℕ) : start ≤ extendList text start :=
  le_extendList_loop start start false _ le_rfl

theorem isListItem_of_prefix {s t : Text} (hpre : s <+: t) (h : isListItem s = true) :
    isListItem t = true := by
  have hstarts : ∀ start : Text, s.startsWith start = true → t.startsWith start = true :=
    fun start hstart => decide_eq_true ((of_decide_eq_true hstart).trans hpre)
  rw [isListItem] at h
  split_ifs at h with hbullet
  · simp only [or_eq_true] at hbullet
    rw [isListItem, if_pos]
    simp only [or_eq_true]
    exact hbullet.imp (Or.imp (hstarts _) (hstarts _)) (hstarts _)
  · simp only at h
    split_ifs at h with hdigits
    obtain ⟨y, rfl⟩ := hpre
    -- the digits of an item end where its mark begins, so nothing behind it joins them
    have hmark : ∃ c rest, c.isDigit = false ∧ s.drop (s.takeWhile Char.isDigit).length =
        c :: rest := by
      rcases or_eq_true_iff.mp h with hdot | hparen
      · obtain ⟨rest, hrest⟩ := of_decide_eq_true hdot
        exact ⟨'.', _, by decide, hrest.symm⟩
      · obtain ⟨rest, hrest⟩ := of_decide_eq_true hparen
        exact ⟨')', _, by decide, hrest.symm⟩
    have hsame : (s ++ y).takeWhile Char.isDigit = s.takeWhile Char.isDigit := by
      obtain ⟨c, rest, hc, hdrop⟩ := hmark
      have htake := prefix_iff_eq_take.mp ( takeWhile_prefix (l := s) Char.isDigit)
      have hsplit : s = s.takeWhile Char.isDigit ++ c :: rest := by
        have hparts := take_append_drop (s.takeWhile Char.isDigit).length s
        rw [← htake, hdrop] at hparts
        exact hparts.symm
      have hall : ∀ d ∈ s.takeWhile Char.isDigit, d.isDigit = true :=
        fun d hd => mem_takeWhile_imp hd
      have hgrown : s ++ y = s.takeWhile Char.isDigit ++ c :: (rest ++ y) := by
        nth_rewrite 1 [hsplit]
        simp
      rw [hgrown, takeWhile_append_of_pos hall, takeWhile_cons_of_neg (by simp [hc]),
        append_nil]
    have hrest : s.drop (s.takeWhile Char.isDigit).length <+:
        (s ++ y).drop (s.takeWhile Char.isDigit).length := by
      rw [drop_append_of_le_length ( takeWhile_prefix _).length_le]
      exact prefix_append _ _
    rw [isListItem]
    split_ifs
    · rfl
    · simp only [hsame, if_neg hdigits]
      rw [or_eq_true] at h ⊢
      exact h.imp (fun hdot => decide_eq_true ((of_decide_eq_true hdot).trans hrest))
        fun hparen => decide_eq_true ((of_decide_eq_true hparen).trans hrest)

/-- A list item that grows stays one. -/
theorem isListItem_append {line : Text} (x : Text) (h : isListItem line.trim = true) :
    isListItem (line ++ x).trim = true := by
  refine isListItem_of_prefix ?_ h
  have hne : line.trimStart ≠ [] := by
    intro hnil
    rw [trim, hnil] at h
    exact absurd h (by decide)
  have hstart : trimStart (line ++ x) = line.trimStart ++ x := by
    have hempty : ¬(dropWhile isWhitespace line).isEmpty = true := by
      rw [List.isEmpty_iff]
      exact hne
    rw [trimStart, dropWhile_append, if_neg hempty, trimStart]
  rw [trim, trim, hstart]
  exact rdropWhile_isPrefix (prefix_append _ _)

/-- The list does not get shorter when its text grows. -/
theorem extendList_loop_append (start stop : ℕ) (seenItem : Bool) (front last back : List Text)
    (h : start ≤ stop) (hgrow : Grows last back) :
    extendList.loop start stop seenItem (front ++ last) ≤
      extendList.loop start stop seenItem (front ++ back) := by
  induction front generalizing stop seenItem with
  | nil =>
    rcases hgrow with rfl | ⟨part, x, rest, rfl, rfl⟩
    · exact le_extendList_loop start stop seenItem back h
    · have hkept := le_extendList_loop start stop seenItem ((part ++ x) :: rest) h
      rw [nil_append, nil_append]
      by_cases hblank : part.trim = []
      · rw [loop_blank hblank]
        cases seenItem with
        | true => exact hkept
        | false => exact hkept
      · cases hitem : isListItem part.trim with
        | true =>
          have hlonger := le_extendList_loop start (stop + (part ++ x).length) true rest (by omega)
          rw [if_pos rfl, length_append] at hlonger
          rw [loop_item hitem, loop_item (isListItem_append x hitem), extendList.loop, if_pos rfl,
            length_append]
          omega
        | false =>
          rw [loop_other hblank hitem]
          exact hkept
  | cons line front ih =>
    rw [cons_append, cons_append]
    by_cases hblank : line.trim = []
    · rw [loop_blank hblank, loop_blank hblank]
      cases seenItem with
      | true => exact le_rfl
      | false => exact ih _ _ (by omega)
    · cases hitem : isListItem line.trim with
      | true =>
        rw [loop_item hitem, loop_item hitem]
        exact ih _ _ (by omega)
      | false => rw [loop_other hblank hitem, loop_other hblank hitem]

theorem extendList_append (text d : Text) {start : ℕ} (hstart : start ≤ text.length) :
    extendList text start ≤ extendList (text ++ d) start := by
  rw [extendList, extendList, drop_append_of_le_length hstart]
  obtain ⟨front, last, back, hgrows, hlines, hgrown⟩ := lines_append (text.drop start) d
  rw [hlines, hgrown]
  exact extendList_loop_append start start false front last back le_rfl hgrows

/-- Where only blank lines follow there is no list. -/
theorem extendList_of_blank {text : Text} {start : ℕ} (h : isBlank (text.drop start) = true) :
    extendList text start = start := by
  have hlines : ∀ (lines : List Text) (stop : ℕ), (∀ line ∈ lines, line.isBlank = true) →
      extendList.loop start stop false lines = start := by
    intro lines
    induction lines with
    | nil => exact fun _ _ => rfl
    | cons line lines ih =>
      intro stop hblank
      rw [forall_mem_cons] at hblank
      have htrim : line.trim = [] := isEmpty_iff.mp hblank.1
      rw [extendList.loop, if_pos htrim]
      exact ih _ hblank.2
  refine hlines _ start fun line hline => isBlank_iff.mpr fun c hc => ?_
  refine isBlank_iff.mp h c ?_
  rw [← splitInclusive_flatten (text.drop start)]
  exact mem_flatten.mpr ⟨line, hline, hc⟩

/-! ## What a growing text starts with -/

theorem paragraph_prefix_smartStart : paragraph text <+: smartStart text := by
  rw [smartStart_eq]
  split_ifs
  · have htake : text.take (paragraph text).length = paragraph text := by
      rw [← firstParagraphEnd_eq_length, take_firstParagraphEnd]
    have htrimmed : (paragraph text).rdropWhile isLineEnd = paragraph text :=
      rdropWhile_idempotent _ _
    have hgrown := rdropWhile_isPrefix (p := isLineEnd)
      (take_prefix_take_left (l := text) (le_extendList text (paragraph text).length))
    rwa [htake, htrimmed] at hgrown
  · exact prefix_refl _

/-- What is trimmed from the end. -/
theorem drop_rdropWhile {p : Char → Bool} :
    ∀ c ∈ text.drop (text.rdropWhile p).length, p c = true := by
  induction text using reverseRecOn with
  | nil => simp
  | append_singleton text c ih =>
    by_cases hc : p c = true
    · rw [rdropWhile_concat_pos _ _ _ hc,
        drop_append_of_le_length ( rdropWhile_prefix p text).length_le]
      intro e he
      rcases mem_append.mp he with he | he
      · exact ih e he
      · rw [mem_singleton.mp he]
        exact hc
    · rw [rdropWhile_concat_neg _ _ _ hc, drop_length]
      simp

theorem isWhitespace_of_isLineEnd {c : Char} (h : isLineEnd c = true) :
    isWhitespace c = true := by
  rcases of_decide_eq_true h with rfl | rfl <;> decide

theorem Grows.paragraphStop_le (h : Grows last back) :
    paragraphStop last ≤ paragraphStop back := by
  rcases h with rfl | ⟨part, x, rest, rfl, rfl⟩
  · exact Nat.zero_le _
  · rw [paragraphStop, paragraphStop, paragraphStop]
    by_cases hblank : part.isBlank = true
    · rw [if_pos hblank]
      exact Nat.zero_le _
    · have hgrown : ¬isBlank (part ++ x) = true := fun hall =>
        hblank (isBlank_iff.mpr fun c hc =>
          isBlank_iff.mp hall c (mem_append_left x hc))
      rw [if_neg hblank, if_neg hgrown, length_append]
      omega

/-- Nothing but a blank line stands behind the end of a paragraph in an unfinished text. -/
theorem Grows.blank_behind (h : Grows last back) :
    ∀ c ∈ last.flatten.drop (paragraphStop last), isWhitespace c = true := by
  rcases h with rfl | ⟨part, x, rest, rfl, rfl⟩
  · simp
  · rw [paragraphStop, paragraphStop, flatten_singleton]
    split_ifs with hblank
    · rw [drop_zero]
      exact isBlank_iff.mp hblank
    · rw [Nat.add_zero, drop_length]
      simp

/-- A paragraph that a blank line ended stays; another may only grow, and so far nothing but
blanks stand behind it. -/
theorem paragraph_append : paragraph (t ++ d) = paragraph t ∨
    (paragraph t <+: paragraph (t ++ d) ∧
      isBlank (t.drop (paragraph t).length) = true) := by
  obtain ⟨front, last, back, hgrows, hlines, hgrown⟩ := lines_append t d
  have htext : front.flatten ++ last.flatten = t := by
    rw [← flatten_append, ← hlines, splitInclusive_flatten]
  have hstop : paragraphStop (splitInclusive t) ≤ t.length := by
    have hle := paragraphStop_le (splitInclusive t)
    rwa [splitInclusive_flatten] at hle
  by_cases hany : front.any isBlank = true
  · left
    have hsame : paragraphStop (splitInclusive (t ++ d)) =
        paragraphStop (splitInclusive t) := by
      rw [hlines, hgrown, paragraphStop_append, paragraphStop_append, if_pos hany, if_pos hany]
    rw [paragraph, paragraph, hsame, take_append_of_le_length hstop]
  · right
    have hsame : paragraphStop (splitInclusive t) =
        front.flatten.length + paragraphStop last := by
      rw [hlines, paragraphStop_append, if_neg hany]
    have hlonger : paragraphStop (splitInclusive t) ≤
        paragraphStop (splitInclusive (t ++ d)) := by
      have hle := hgrows.paragraphStop_le
      rw [hsame, hgrown, paragraphStop_append, if_neg hany]
      omega
    have htake : t.take (paragraphStop (splitInclusive t)) <+:
        (t ++ d).take (paragraphStop (splitInclusive (t ++ d))) := by
      have hfront := take_prefix_take_left (l := t ++ d) hlonger
      rwa [take_append_of_le_length hstop] at hfront
    refine ⟨rdropWhile_isPrefix htake, isBlank_iff.mpr fun c hc => ?_⟩
    have hparts : t.drop (paragraph t).length =
        (t.take (paragraphStop (splitInclusive t))).drop (paragraph t).length ++
          t.drop (paragraphStop (splitInclusive t)) := by
      have hinside : (paragraph t).length ≤
          (t.take (paragraphStop (splitInclusive t))).length :=
        ( rdropWhile_prefix _ _).length_le
      rw [← drop_append_of_le_length hinside, take_append_drop]
    rw [hparts] at hc
    rcases mem_append.mp hc with hc | hc
    · exact isWhitespace_of_isLineEnd (drop_rdropWhile _ c hc)
    · rw [hsame, ← drop_drop] at hc
      nth_rewrite 1 [← htext] at hc
      rw [drop_left] at hc
      exact hgrows.blank_behind c hc

/-- The opening part of a text is a front part of that of the grown text. -/
theorem smartStart_append : smartStart t <+: smartStart (t ++ d) := by
  have hlength : (paragraph t).length ≤ t.length :=
    ((paragraph_prefix_smartStart t).trans (smartStart_isPrefix t)).length_le
  rcases paragraph_append t d with hsame | ⟨hgrown, hblank⟩
  · rw [smartStart_eq t, smartStart_eq (t ++ d), hsame]
    split_ifs
    · apply rdropWhile_isPrefix
      have hlist := take_prefix_take_left (l := t ++ d) (extendList_append t d hlength)
      refine IsPrefix.trans ?_ hlist
      rw [take_append]
      exact prefix_append _ _
    · exact prefix_refl _
  · have hshort : smartStart t = paragraph t := by
      rw [smartStart_eq, extendList_of_blank hblank]
      have htake : t.take (paragraph t).length = paragraph t := by
        rw [← firstParagraphEnd_eq_length, take_firstParagraphEnd]
      rw [htake, paragraph, rdropWhile_idempotent]
      split_ifs <;> rfl
    rw [hshort]
    exact hgrown.trans (paragraph_prefix_smartStart (t ++ d))

/-! ## Projections of a growing text -/

/-- What a mode projects before its budget. -/
def opening (mode : ReasoningSummaryMode) (text : Text) : Text :=
  if mode = .smart then smartStart text else text

theorem opening_append (mode : ReasoningSummaryMode) (t d : Text) :
    opening mode t <+: opening mode (t ++ d) := by
  rw [opening, opening]
  split_ifs
  · exact smartStart_append t d
  · exact prefix_append t d

theorem opening_isPrefix (mode : ReasoningSummaryMode) (t : Text) : opening mode t <+: t := by
  rw [opening]
  split_ifs
  · exact smartStart_isPrefix t
  · exact prefix_refl t

section Budget
variable {mode : ReasoningSummaryMode} {budget : ℕ}

section
variable (h : mode.budget = some budget)
include h

theorem project_eq_trim (text : Text) :
    project text mode = trimToBudget (opening mode text) mode := by
  cases mode with
  | none => cases h
  | smart => rfl
  | fixed => rfl
  | full => cases h

theorem project_short {text : Text}
    (hshort : utf8Len (opening mode text) ≤ budget) :
    project text mode = opening mode text := by
  rw [project_eq_trim h, trimToBudget, h]
  exact if_pos hshort

theorem project_long {text : Text}
    (hlong : budget < utf8Len (opening mode text)) : project text mode =
      (opening mode text).take ((lastBoundaryWithin (opening mode text) budget).getD
        (floorCharBoundary (opening mode text) budget)) := by
  rw [project_eq_trim h, trimToBudget, h]
  simp only [if_neg (not_le.mpr hlong)]
  cases lastBoundaryWithin (opening mode text) budget <;> rfl

theorem utf8Len_project_le (text : Text) :
    utf8Len (project text mode) ≤ budget := by
  by_cases hshort : utf8Len (opening mode text) ≤ budget
  · rw [project_short h hshort]
    exact hshort
  · rw [project_long h (not_le.mp hshort)]
    have hlast := lastBoundaryWithin_spec (opening mode text) budget
    cases hboundary : lastBoundaryWithin (opening mode text) budget with
    | none => exact (floorCharBoundary_spec _ budget).1
    | some b =>
      rw [hboundary] at hlast
      exact hlast.1.2

theorem project_prefix_opening (text : Text) :
    project text mode <+: opening mode text := by
  rw [project_eq_trim h]
  exact trimToBudget_isPrefix _ _

/-- A text streams up to a boundary of it inside its projection. -/
theorem streamableLen_spec (text : Text) :
    streamableLen text mode = 0 ∨ (BoundaryAt text (streamableLen text mode) ∧
      streamableLen text mode ≤ (project text mode).length) := by
  have hmode : mode ≠ .none ∧ mode ≠ .full := by
    constructor <;> (rintro rfl; cases h)
  have hlast := lastBoundaryWithin_spec text (utf8Len (project text mode))
  rw [streamableLen, if_neg hmode.1, if_neg hmode.2]
  cases hboundary : lastBoundaryWithin text (utf8Len (project text mode)) with
  | none => exact .inl rfl
  | some b =>
    rw [hboundary] at hlast
    obtain ⟨⟨hat, hbytes⟩, _⟩ := hlast
    refine .inr ⟨hat, le_of_utf8Len_take_le hat.le ?_⟩
    rwa [← prefix_iff_eq_take.mp (project_isPrefix text mode)]

end

/-- A boundary stays one when the text grows, unless it is a full stop at its end. -/
theorem BoundaryAt.append {t : Text} (h : BoundaryAt t i)
    (hstop : i = t.length → t.getLast? ≠ some '.') (d : Text) : BoundaryAt (t ++ d) i := by
  obtain ⟨j, c, rfl, hc, hboundary⟩ := h
  have hj := (List.getElem?_eq_some_iff.mp hc).1
  refine ⟨j, c, rfl, by rw [List.getElem?_append_left hj, hc], ?_⟩
  by_cases hend : j + 1 = t.length
  · have hdot : c ≠ '.' := by
      rintro rfl
      apply hstop hend
      rw [getLast?_eq_getElem?, ← hend, Nat.add_sub_cancel, hc]
    have hfree : ∀ followed, isBoundary c followed = isBoundary c true := by
      intro followed
      rw [isBoundary, isBoundary, if_neg hdot, if_neg hdot]
    rw [hfree] at hboundary ⊢
    exact hboundary
  · rw [List.getElem?_append_left (by omega)]
    exact hboundary

theorem BoundaryAt.of_append {t d : Text} (h : BoundaryAt (t ++ d) i) (hi : i < t.length) :
    BoundaryAt t i := by
  obtain ⟨j, c, rfl, hc, hboundary⟩ := h
  rw [getElem?_append_left (by omega)] at hc
  rw [getElem?_append_left hi] at hboundary
  exact ⟨j, c, rfl, hc, hboundary⟩

/-- What an unfinished text streams is in the projection of the whole, unless its last full
stop is taken for the end of a sentence too early. -/
theorem streamableLen_le (h : mode.budget = some budget) (t d : Text)
    (hstop : budget < utf8Len (opening mode (t ++ d)) →
      ∀ b, lastBoundaryWithin (opening mode (t ++ d)) budget = some b → t.getLast? = some '.' →
        opening mode t = t → utf8Len t ≤ budget → t.length ≤ b) :
    streamableLen t mode ≤ (project (t ++ d) mode).length := by
  rcases streamableLen_spec h t with hzero | ⟨hat, hle⟩
  · omega
  have hopening : streamableLen t mode ≤ (opening mode t).length :=
    hle.trans (project_prefix_opening h t).length_le
  have hgrown : streamableLen t mode ≤ (opening mode (t ++ d)).length :=
    hopening.trans (opening_append mode t d).length_le
  by_cases hshort : utf8Len (opening mode (t ++ d)) ≤ budget
  · rw [project_short h hshort]
    exact hgrown
  have hlong := not_le.mp hshort
  have hsame : (opening mode (t ++ d)).take (streamableLen t mode) =
      t.take (streamableLen t mode) := by
    have hfront := prefix_iff_eq_take.mp (opening_isPrefix mode (t ++ d))
    rw [hfront, take_take, Nat.min_eq_left hgrown, take_append_of_le_length hat.le]
  have hbytes : utf8Len ((opening mode (t ++ d)).take (streamableLen t mode)) ≤ budget := by
    refine le_trans ?_ (utf8Len_project_le h t)
    rw [hsame, prefix_iff_eq_take.mp (project_isPrefix t mode)]
    exact utf8Len_take_le t hle
  have hinside : streamableLen t mode < (opening mode (t ++ d)).length := by
    rcases Nat.lt_or_eq_of_le hgrown with hlt | heq
    · exact hlt
    · rw [heq, take_length] at hbytes
      omega
  rw [project_long h hlong, length_take]
  have hlast := lastBoundaryWithin_spec (opening mode (t ++ d)) budget
  cases hboundary : lastBoundaryWithin (opening mode (t ++ d)) budget with
  | none =>
    rw [getD_none]
    have hfloor := (floorCharBoundary_spec (opening mode (t ++ d)) budget).2.2 _ hgrown hbytes
    omega
  | some b =>
    rw [hboundary] at hlast
    rw [getD_some]
    have hreal : streamableLen t mode ≤ b := by
      by_cases hfalse : streamableLen t mode = t.length ∧ t.getLast? = some '.'
      · have hwhole : opening mode t = t :=
          (opening_isPrefix mode t).eq_of_length_le (by omega)
        have hfits : utf8Len t ≤ budget := by
          rw [hsame, hfalse.1, take_length] at hbytes
          exact hbytes
        have hle := hstop hlong b hboundary hfalse.2 hwhole hfits
        omega
      · have hstays : BoundaryAt (t ++ d) (streamableLen t mode) :=
          hat.append (fun hend hdot => hfalse ⟨hend, hdot⟩) d
        obtain ⟨rest, hrest⟩ := opening_isPrefix mode (t ++ d)
        rw [← hrest] at hstays
        exact hlast.2 _ ⟨hstays.of_append hinside, hbytes⟩
    omega

end Budget

end Summary

namespace SummaryProjector
open Summary

/-! ## The projector -/

/-- What the deltas make the projector emit, and the projector behind them. -/
def pushes (p : SummaryProjector) : List Text → Text × SummaryProjector
  | [] => ([], p)
  | delta :: deltas =>
      let (out, p) := p.push delta
      let (rest, p) := p.pushes deltas
      (out.getD [] ++ rest, p)

/-- The text shown after some deltas. -/
def streamed (mode : ReasoningSummaryMode) (deltas : List Text) : Text :=
  ((new mode).pushes deltas).1

/-- The text shown in the end. -/
def shown (mode : ReasoningSummaryMode) (deltas : List Text) : Text :=
  let (out, p) := (new mode).pushes deltas
  out ++ p.finish.1.getD []

/-- What holds of a projector that still takes deltas. -/
structure Open (p : SummaryProjector) : Prop where
  unfinished : p.finished = false
  emitted_le : p.emitted ≤ p.text.length

theorem emitUpTo_spec (p : SummaryProjector) (target : ℕ) :
    (p.emitUpTo target).2 = { p with emitted := max p.emitted target } ∧
      p.summary ++ (p.emitUpTo target).1.getD [] = (p.emitUpTo target).2.summary := by
  rw [emitUpTo]
  split_ifs with hle
  · rw [max_eq_left hle]
    simp
  · have hlt := not_le.mp hle
    rw [max_eq_right hlt.le]
    refine ⟨rfl, ?_⟩
    have hparts := take_append_drop p.emitted (p.text.take target)
    rwa [take_take, Nat.min_eq_left hlt.le] at hparts

theorem streamableLen_le_length (text : Text) (mode : ReasoningSummaryMode) :
    streamableLen text mode ≤ text.length := by
  cases hbudget : mode.budget with
  | none =>
    cases mode with
    | none => exact Nat.zero_le _
    | full => exact le_rfl
    | smart => cases hbudget
    | fixed => cases hbudget
  | some budget =>
    rcases streamableLen_spec hbudget text with hzero | ⟨hat, _⟩
    · omega
    · exact hat.le

/-- How far the projector emits after a delta. -/
def markAfter (p : SummaryProjector) (delta : Text) : ℕ :=
  if p.mode ≠ .full ∧ touchesBoundary delta = false then p.emitted
  else max p.emitted (streamableLen (p.text ++ delta) p.mode)

theorem push_spec (h : Open p) (delta : Text) :
    (p.push delta).2 = { p with text := p.text ++ delta, emitted := p.markAfter delta } ∧
      p.summary ++ (p.push delta).1.getD [] = (p.push delta).2.summary ∧
      Open (p.push delta).2 := by
  have hsame : ({ p with text := p.text ++ delta } : SummaryProjector).summary = p.summary :=
    take_append_of_le_length h.emitted_le
  have hpush : p.push delta =
      if p.mode ≠ .full ∧ touchesBoundary delta = false then
        (none, { p with text := p.text ++ delta })
      else ({ p with text := p.text ++ delta } : SummaryProjector).emitUpTo
        (streamableLen (p.text ++ delta) p.mode) := by
    rw [push, if_neg (by simp [h.unfinished])]
  rw [hpush, markAfter]
  split_ifs with hskip
  · refine ⟨rfl, ?_, ⟨h.unfinished, ?_⟩⟩
    · rw [← hsame]
      simp
    · have hle := h.emitted_le
      simp only [length_append]
      omega
  · obtain ⟨hnext, hout⟩ := emitUpTo_spec ({ p with text := p.text ++ delta } : SummaryProjector)
      (streamableLen (p.text ++ delta) p.mode)
    rw [hsame] at hout
    refine ⟨hnext, hout, ?_⟩
    rw [hnext]
    refine ⟨h.unfinished, ?_⟩
    have hle := h.emitted_le
    have htarget := streamableLen_le_length (p.text ++ delta) p.mode
    simp only [length_append] at htarget ⊢
    omega

/-- The projector behind some deltas. -/
structure Behind (p : SummaryProjector) (deltas : List Text) (q : SummaryProjector) : Prop where
  mode_eq : q.mode = p.mode
  text_eq : q.text = p.text ++ deltas.flatten
  isOpen : Open q
  emitted_le : p.emitted ≤ q.emitted

theorem pushes_spec (h : Open p) (deltas : List Text) :
    Behind p deltas (p.pushes deltas).2 ∧
      p.summary ++ (p.pushes deltas).1 = (p.pushes deltas).2.summary := by
  induction deltas generalizing p with
  | nil => exact ⟨⟨rfl, by simp [pushes], h, le_rfl⟩, by simp [pushes]⟩
  | cons delta deltas ih =>
    obtain ⟨hnext, hout, hopen⟩ := push_spec h delta
    obtain ⟨hbehind, hrest⟩ := ih hopen
    have hmark : p.emitted ≤ p.markAfter delta := by
      rw [markAfter]
      split_ifs
      · exact le_rfl
      · exact le_max_left _ _
    rw [pushes]
    refine ⟨⟨?_, ?_, hbehind.isOpen, ?_⟩, ?_⟩
    · exact hbehind.mode_eq.trans (by rw [hnext])
    · refine hbehind.text_eq.trans ?_
      rw [hnext, flatten_cons, append_assoc]
    · refine le_trans ?_ hbehind.emitted_le
      rw [hnext]
      exact hmark
    · rw [← append_assoc, hout, hrest]

theorem open_new : Open (new mode) := ⟨rfl, le_rfl⟩

/-- Every emission stays under a bound that holds of what each front part streams. -/
theorem pushes_emitted_le (h : Open p) {bound : ℕ} (hstart : p.emitted ≤ bound)
    (hbound : ∀ k, streamableLen (p.text ++ (deltas.take k).flatten)
      p.mode ≤ bound) : (p.pushes deltas).2.emitted ≤ bound := by
  induction deltas generalizing p with
  | nil => exact hstart
  | cons delta deltas ih =>
    obtain ⟨hnext, _, hopen⟩ := push_spec h delta
    rw [pushes]
    refine ih hopen ?_ fun k => ?_
    · rw [hnext]
      have hfirst := hbound 1
      rw [take_succ_cons, take_zero, flatten_singleton] at hfirst
      simp only [markAfter]
      split_ifs
      · exact hstart
      · exact max_le hstart hfirst
    · have hlater := hbound (k + 1)
      rw [take_succ_cons, flatten_cons, ← append_assoc] at hlater
      rw [hnext]
      exact hlater

/-- What a front part streams is emitted if its last delta touches a boundary. -/
theorem le_pushes_emitted (h : Open p) (front : List Text) (delta : Text) (back : List Text)
    (htouch : touchesBoundary delta = true) :
    streamableLen (p.text ++ (front ++ [delta]).flatten) p.mode ≤
      (p.pushes (front ++ delta :: back)).2.emitted := by
  induction front generalizing p with
  | nil =>
    obtain ⟨hnext, _, hopen⟩ := push_spec h delta
    have hrest := (pushes_spec hopen back).1.emitted_le
    rw [nil_append, nil_append, flatten_singleton, pushes]
    refine le_trans ?_ hrest
    rw [hnext]
    simp only [markAfter, htouch]
    rw [if_neg (by simp)]
    exact le_max_right _ _
  | cons first front ih =>
    obtain ⟨hnext, _, hopen⟩ := push_spec h first
    have hrest := ih hopen
    have htext : (p.push first).2.text = p.text ++ first := by rw [hnext]
    have hmode : (p.push first).2.mode = p.mode := by rw [hnext]
    rw [htext, hmode] at hrest
    rw [cons_append, cons_append, flatten_cons, pushes, ← append_assoc]
    exact hrest

theorem streamed_eq (deltas : List Text) :
    streamed mode deltas = deltas.flatten.take ((new mode).pushes deltas).2.emitted := by
  obtain ⟨hbehind, hout⟩ := pushes_spec (open_new mode) deltas
  have hnothing : (new mode).summary = [] := rfl
  have htext : ((new mode).pushes deltas).2.text = deltas.flatten := hbehind.text_eq
  rw [hnothing, nil_append] at hout
  rw [streamed, hout, summary, htext]

theorem finish_spec (h : Open p) : p.summary ++ p.finish.1.getD [] =
    p.text.take (max p.emitted (project p.text p.mode).length) := by
  have hfinish : p.finish = ({ p with finished := true } : SummaryProjector).emitUpTo
      (project p.text p.mode).length := by
    rw [finish, if_neg (by simp [h.unfinished])]
  obtain ⟨hnext, hlast⟩ := emitUpTo_spec ({ p with finished := true } : SummaryProjector)
    (project p.text p.mode).length
  rw [hfinish]
  refine hlast.trans ?_
  rw [hnext]
  rfl

/-- The end shows the text up to the mark or the projection, whichever is further. -/
theorem shown_eq (deltas : List Text) : shown mode deltas =
    deltas.flatten.take (max ((new mode).pushes deltas).2.emitted
      (project deltas.flatten mode).length) := by
  obtain ⟨hbehind, hout⟩ := pushes_spec (open_new mode) deltas
  have hnothing : (new mode).summary = [] := rfl
  have htext : ((new mode).pushes deltas).2.text = deltas.flatten := hbehind.text_eq
  have hmode : ((new mode).pushes deltas).2.mode = mode := hbehind.mode_eq
  have hlast := finish_spec hbehind.isOpen
  rw [hnothing, nil_append] at hout
  rw [← hout, htext, hmode] at hlast
  exact hlast

/-- Nothing was emitted beyond the projection. -/
theorem projects_iff (deltas : List Text) :
    shown mode deltas = project deltas.flatten mode ↔
      ((new mode).pushes deltas).2.emitted ≤ (project deltas.flatten mode).length := by
  have hfront := prefix_iff_eq_take.mp (project_isPrefix deltas.flatten mode)
  have hlength := (project_isPrefix deltas.flatten mode).length_le
  have hbehind := (pushes_spec (open_new mode) deltas).1
  have hemitted : ((new mode).pushes deltas).2.emitted ≤ deltas.flatten.length := by
    have hle := hbehind.isOpen.emitted_le
    have htext : ((new mode).pushes deltas).2.text = deltas.flatten := hbehind.text_eq
    rwa [htext] at hle
  rw [shown_eq]
  constructor
  · intro h
    have hlengths := congrArg length h
    rw [length_take] at hlengths
    omega
  · intro h
    rw [max_eq_right h]
    exact hfront.symm

/-- No delta ends in a full stop that stands behind the last sentence of the budget. -/
def NoFalseStop (mode : ReasoningSummaryMode) (deltas : List Text) : Prop :=
  ∀ budget b, mode.budget = some budget → budget < utf8Len (opening mode deltas.flatten) →
    lastBoundaryWithin (opening mode deltas.flatten) budget = some b →
    ∀ k, (deltas.take k).flatten.getLast? = some '.' →
      opening mode (deltas.take k).flatten = (deltas.take k).flatten →
      utf8Len (deltas.take k).flatten ≤ budget → (deltas.take k).flatten.length ≤ b

theorem streams_bounded {mode : ReasoningSummaryMode} (h : NoFalseStop mode deltas) (k : ℕ) :
    streamableLen (deltas.take k).flatten mode ≤
      (project deltas.flatten mode).length := by
  have hparts : (deltas.take k).flatten ++ (deltas.drop k).flatten = deltas.flatten := by
    rw [← flatten_append, take_append_drop]
  cases hbudget : mode.budget with
  | some budget =>
    rw [← hparts]
    refine streamableLen_le hbudget _ _ fun hlong b hb hdot hwhole hfits => ?_
    rw [hparts] at hlong hb
    exact h budget b hbudget hlong hb k hdot hwhole hfits
  | none =>
    cases mode with
    | none => exact Nat.zero_le _
    | full =>
      have hlength := congrArg length hparts
      rw [length_append] at hlength
      show (deltas.take k).flatten.length ≤ deltas.flatten.length
      omega
    | smart => cases hbudget
    | fixed => cases hbudget

/-- The delta whose full stop is the last character so far. -/
theorem exists_last_delta (h : deltas.flatten.getLast? = some '.') :
    ∃ front delta back, deltas = front ++ delta :: back ∧
      (front ++ [delta]).flatten = deltas.flatten ∧ touchesBoundary delta = true := by
  induction deltas using reverseRecOn with
  | nil => simp at h
  | append_singleton deltas delta ih =>
    rw [flatten_append, flatten_singleton] at h ⊢
    by_cases hnil : delta = []
    · subst hnil
      rw [append_nil] at h ⊢
      obtain ⟨front, last, back, hsplit, hflatten, htouch⟩ := ih h
      exact ⟨front, last, back ++ [[]], by rw [hsplit]; simp, hflatten, htouch⟩
    · rw [getLast?_append_of_ne_nil _ hnil] at h
      refine ⟨deltas, delta, [], rfl, by simp, ?_⟩
      exact any_eq_true.mpr ⟨'.', mem_of_getLast? h, by decide⟩

/-- A text that ends in a full stop and fits streams as a whole. -/
theorem streamableLen_stop {mode : ReasoningSummaryMode} {budget : ℕ} {t : Text}
    (h : mode.budget = some budget) (hdot : t.getLast? = some '.') (hwhole : opening mode t = t)
    (hfits : utf8Len t ≤ budget) : t.length ≤ streamableLen t mode := by
  have hmode : mode ≠ .none ∧ mode ≠ .full := by
    constructor <;> (rintro rfl; cases h)
  have hproject : project t mode = t := by
    rw [project_short h (by rwa [hwhole]), hwhole]
  have hpos : 0 < t.length := by
    rw [length_pos_iff]
    rintro rfl
    simp at hdot
  have hend : Within t (utf8Len t) t.length := by
    refine ⟨⟨t.length - 1, '.', by omega, ?_, ?_⟩, by rw [take_length]⟩
    · rwa [getLast?_eq_getElem?] at hdot
    · rw [getElem?_eq_none le_rfl]
      rfl
  have hlast := lastBoundaryWithin_spec t (utf8Len t)
  rw [streamableLen, if_neg hmode.1, if_neg hmode.2, hproject]
  cases hboundary : lastBoundaryWithin t (utf8Len t) with
  | none =>
    rw [hboundary] at hlast
    exact absurd hend (hlast _)
  | some b =>
    rw [hboundary] at hlast
    exact hlast.2 _ hend

theorem emitted_le_iff (deltas : List Text) :
    ((new mode).pushes deltas).2.emitted ≤ (project deltas.flatten mode).length ↔
      NoFalseStop mode deltas := by
  constructor
  · intro hle budget b hbudget hlong hb k hdot hwhole hfits
    obtain ⟨front, delta, back, hsplit, hflatten, htouch⟩ := exists_last_delta hdot
    have hdeltas : deltas = front ++ delta :: (back ++ deltas.drop k) := by
      have hparts := take_append_drop k deltas
      rw [hsplit, append_assoc, cons_append] at hparts
      exact hparts.symm
    have hemitted := le_pushes_emitted (open_new mode) front delta (back ++ deltas.drop k) htouch
    rw [← hdeltas, hflatten] at hemitted
    have hstream := streamableLen_stop hbudget hdot hwhole hfits
    have hshort : (project deltas.flatten mode).length ≤ b := by
      rw [project_long hbudget hlong, hb, getD_some, length_take]
      exact Nat.min_le_left _ _
    exact hstream.trans (hemitted.trans (hle.trans hshort))
  · intro h
    exact pushes_emitted_le (open_new mode) (Nat.zero_le _) fun k => streams_bounded h k

theorem pushes_append (p : SummaryProjector) (front back : List Text) :
    (p.pushes (front ++ back)).2 = ((p.pushes front).2.pushes back).2 := by
  induction front generalizing p with
  | nil => rfl
  | cons delta front ih => exact ih (p.push delta).2

/-- The deltas show the projection of the whole text, and all the time a front part of it,
exactly if no delta ends in a full stop that stands behind the last sentence of the budget. -/
theorem projector_streams_iff (mode : ReasoningSummaryMode) (deltas : List Text) :
    (shown mode deltas = project deltas.flatten mode ∧
      ∀ k, streamed mode (deltas.take k) <+: project deltas.flatten mode) ↔
        NoFalseStop mode deltas := by
  rw [← emitted_le_iff, ← projects_iff]
  constructor
  · intro h
    exact h.1
  · intro h
    refine ⟨h, fun k => ?_⟩
    have hfront := (pushes_spec (open_new mode) (deltas.take k)).1
    have hlater := (pushes_spec hfront.isOpen (deltas.drop k)).1.emitted_le
    rw [← pushes_append, take_append_drop] at hlater
    have hbound := hlater.trans ((projects_iff mode deltas).mp h)
    have htext : ((new mode).pushes (deltas.take k)).2.text = (deltas.take k).flatten :=
      hfront.text_eq
    have hinside := hfront.isOpen.emitted_le
    rw [htext] at hinside
    have hparts : deltas.flatten = (deltas.take k).flatten ++ (deltas.drop k).flatten := by
      rw [← flatten_append, take_append_drop]
    have hsame : streamed mode (deltas.take k) =
        deltas.flatten.take ((new mode).pushes (deltas.take k)).2.emitted := by
      rw [streamed_eq, hparts, take_append_of_le_length hinside]
    rw [hsame, prefix_iff_eq_take.mp (project_isPrefix deltas.flatten mode)]
    exact take_prefix_take_left hbound

/-- "Version 3." looks like the end of a sentence before "5" follows. -/
theorem versionNumber_ahead :
    shown .fixed ["Hello. Version 3.", "5 " ++ replicate 400 'x'] ≠
      project (flatten ["Hello. Version 3.", "5 " ++ replicate 400 'x']) .fixed := by
  decide +kernel

end SummaryProjector

end CodeSeeX
