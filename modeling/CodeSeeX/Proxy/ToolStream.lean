import CodeSeeX.General.Chunked
import CodeSeeX.Proxy.ToolProtocol

/-!
# Cutting the stream

`wholeText` is the answer to a whole text, given whether text stands in front of it
since the last block. A push agrees with it unless it releases the beginning of an
opening tag that the buffer consists of; such a release changes the answer exactly
if the rest of the text would have completed the tag or left it as a broken one.
-/
namespace CodeSeeX.ToolProtocol

open DeepSeekToolContent Infix List

variable {w : Text} {t : Text} {buffer rest : Text}

variable {fromStr : Text → Option Value} {allowToolCalls : Bool}

/-! ### The opening and the closing tag -/

theorem notMem_of_start_eq {c : Char} (h : c :: w <+: dsmlStart) : c = '<' ∧ '<' ∉ w := by
  have hstart : dsmlStart = '<' :: dsmlStart.tail := by decide
  have htail : '<' ∉ dsmlStart.tail := by decide
  rw [hstart, cons_prefix_cons] at h
  exact ⟨h.1, fun hmem => htail (h.2.subset hmem)⟩

theorem not_start_of_ne {c : Char} {w : Text} (hc : c ≠ '<') :
    ¬ dsmlStart <+: c :: w ∧ ¬ c :: w <+: dsmlStart := by
  constructor
  · intro h
    have hstart : dsmlStart = '<' :: dsmlStart.tail := by decide
    rw [hstart, cons_prefix_cons] at h
    exact hc h.1.symm
  · intro h
    exact hc (notMem_of_start_eq h).1

theorem dsmlStart_ne_nil : dsmlStart ≠ [] := by decide

/-- Two beginnings of one text are comparable. -/
theorem not_start_of_append {x t : Text} (hin : ¬ dsmlStart <:+: x) (hpre : ¬ x <+: dsmlStart) :
    ¬ dsmlStart <+: x ++ t ∧ ¬ x ++ t <+: dsmlStart := by
  constructor
  · intro h
    rcases prefix_or_prefix_of_prefix h (prefix_append x t) with h | h
    · exact hin h.isInfix
    · exact hpre h
  · intro h
    exact hpre ((prefix_append x t).trans h)

/-- The closing tag does not begin inside an opening tag. -/
theorem splitFirst_end_start (u : Text) : splitFirst dsmlEnd (dsmlStart ++ u) =
    (splitFirst dsmlEnd u).map fun p => (dsmlStart ++ p.1, p.2) := by
  have hend : dsmlEnd = '<' :: '/' :: dsmlEnd.drop 2 := by decide
  have hplain : ∀ s : Text, '<' ∉ s → splitFirst dsmlEnd (s ++ u) =
      (splitFirst dsmlEnd u).map fun p => (s ++ p.1, p.2) := by
    intro s hs
    induction s with
    | nil => simp
    | cons c s ih =>
      rw [mem_cons, not_or] at hs
      have hno : ¬ dsmlEnd <+: c :: (s ++ u) := by
        rw [hend, cons_prefix_cons]
        exact fun h => hs.1 h.1
      rw [cons_append, splitFirst, if_neg hno, ih hs.2, Option.map_map]
      rfl
  have hstart : dsmlStart = '<' :: '｜' :: dsmlStart.drop 2 := by decide
  have hno : ¬ dsmlEnd <+: '<' :: ('｜' :: dsmlStart.drop 2 ++ u) := by
    rw [hend, cons_append, cons_prefix_cons, cons_prefix_cons]
    exact fun h => absurd h.2.1 (by decide)
  rw [hstart, cons_append, splitFirst, if_neg hno, hplain _ (by decide), Option.map_map]
  rfl

/-! ### The answer to a whole text -/

/-- The answer to a text without opening tag at the end of the input; a beginning of the tag is
held back, but not at the front of the text unless other text precedes it. -/
def closeText (fromStr : Text → Option Value) (allowToolCalls : Bool) :
    Bool → Text → DeepSeekToolContent
  | _, [] => 0
  | preceded, c :: w =>
      if preceded = true ∧ c :: w <+: dsmlStart then finish fromStr allowToolCalls (c :: w)
      else text [c] + closeText fromStr allowToolCalls true w

/-- The answer to a text, given whether text precedes it since the last block. -/
def wholeText (fromStr : Text → Option Value) (allowToolCalls : Bool) (preceded : Bool)
    (t : Text) : DeepSeekToolContent :=
  match _h : splitFirst dsmlStart t with
  | none => closeText fromStr allowToolCalls preceded t
  | some (before, rest) =>
      match _h2 : splitFirst dsmlEnd rest with
      | none => text before + readBlock fromStr allowToolCalls rest
      | some (inner, close) =>
          text before + readBlock fromStr allowToolCalls (inner ++ dsmlEnd) +
            wholeText fromStr allowToolCalls false (close.drop dsmlEnd.length)
termination_by t.length
decreasing_by exact behindBlock_length_lt _h _h2

variable {preceded : Bool}

theorem wholeText_eq (t : Text) : wholeText fromStr allowToolCalls preceded t =
    match splitFirst dsmlStart t with
    | none => closeText fromStr allowToolCalls preceded t
    | some (before, rest) =>
        match splitFirst dsmlEnd rest with
        | none => text before + readBlock fromStr allowToolCalls rest
        | some (inner, close) =>
            text before + readBlock fromStr allowToolCalls (inner ++ dsmlEnd) +
              wholeText fromStr allowToolCalls false (close.drop dsmlEnd.length) := by
  rw [wholeText]
  split
  · next h => rw [h]
  · next before rest h =>
    rw [h]
    dsimp only
    split
    · next h2 => rw [h2]
    · next inner close h2 => rw [h2]

theorem wholeText_none (h : ¬ dsmlStart <:+: t) :
    wholeText fromStr allowToolCalls preceded t = closeText fromStr allowToolCalls preceded t := by
  rw [wholeText_eq, splitFirst_eq_none.mpr h]

theorem wholeText_open {t before rest : Text}
    (h : splitFirst dsmlStart t = some (before, rest)) (h2 : ¬ dsmlEnd <:+: rest) :
    wholeText fromStr allowToolCalls preceded t =
      text before + readBlock fromStr allowToolCalls rest := by
  rw [wholeText_eq, h]
  dsimp only
  rw [splitFirst_eq_none.mpr h2]

theorem wholeText_block {t before rest inner close : Text}
    (h : splitFirst dsmlStart t = some (before, rest))
    (h2 : splitFirst dsmlEnd rest = some (inner, close)) :
    wholeText fromStr allowToolCalls preceded t =
      text before + readBlock fromStr allowToolCalls (inner ++ dsmlEnd) +
        wholeText fromStr allowToolCalls false (close.drop dsmlEnd.length) := by
  rw [wholeText_eq, h]
  dsimp only
  rw [h2]

/-- Only a text that stands open at its end depends on what precedes it. -/
theorem wholeText_preceded {preceded preceded' : Bool} {t : Text} (h : dsmlStart <:+: t) :
    wholeText fromStr allowToolCalls preceded t = wholeText fromStr allowToolCalls preceded' t := by
  cases hsplit : splitFirst dsmlStart t with
  | none => exact absurd h (splitFirst_eq_none.mp hsplit)
  | some p =>
    obtain ⟨before, rest⟩ := p
    cases hend : splitFirst dsmlEnd rest with
    | none =>
      rw [wholeText_open hsplit (splitFirst_eq_none.mp hend),
        wholeText_open hsplit (splitFirst_eq_none.mp hend)]
    | some q => rw [wholeText_block hsplit hend, wholeText_block hsplit hend]

theorem text_cons (c : Char) (t : Text) : text (c :: t) = text [c] + text t := rfl

@[simp] theorem text_nil : text [] = 0 := rfl

theorem finish_of_looks (hne : t ≠ []) (h : looksLikeDsmlProtocol t = true) :
    finish fromStr allowToolCalls t = readBlock fromStr allowToolCalls t := by
  simp [finish, hne, h]

theorem finish_of_not_looks (h : looksLikeDsmlProtocol t = false) :
    finish fromStr allowToolCalls t = text t := by
  unfold finish
  by_cases hnil : t = []
  · rw [if_pos hnil, hnil, text_nil]
  · simp [hnil, h]

theorem closeText_plain (h : '<' ∉ w) :
    closeText fromStr allowToolCalls preceded w = text w := by
  induction w generalizing preceded with
  | nil => rfl
  | cons c w ih =>
    rw [mem_cons, not_or] at h
    have hno : ¬ (preceded = true ∧ c :: w <+: dsmlStart) :=
      fun hp => (not_start_of_ne (Ne.symm h.1)).2 hp.2
    rw [closeText, if_neg hno, ih h.2]
    rfl

/-- A character at which no opening tag begins, nor is held back as a broken one, is visible. -/
theorem wholeText_cons {c : Char} (hstart : ¬ dsmlStart <+: c :: w)
    (hheld : ¬ (preceded = true ∧ c :: w <+: dsmlStart ∧ looksLikeDsmlProtocol (c :: w) = true)) :
    wholeText fromStr allowToolCalls preceded (c :: w) =
      text [c] + wholeText fromStr allowToolCalls true w := by
  have hsplit : splitFirst dsmlStart (c :: w) =
      (splitFirst dsmlStart w).map fun p => (c :: p.1, p.2) := by
    rw [splitFirst, if_neg hstart]
  cases hw : splitFirst dsmlStart w with
  | none =>
    have hin := splitFirst_eq_none.mp hw
    have hin' : ¬ dsmlStart <:+: c :: w := by
      apply splitFirst_eq_none.mp
      rw [hsplit, hw]
      rfl
    rw [wholeText_none hin, wholeText_none hin', closeText]
    split_ifs with hp
    · have hlooks : looksLikeDsmlProtocol (c :: w) = false := by
        rw [Bool.eq_false_iff]
        exact fun hlooks => hheld ⟨hp.1, hp.2, hlooks⟩
      rw [finish_of_not_looks hlooks, closeText_plain (notMem_of_start_eq hp.2).2]
      rfl
    · rfl
  | some p =>
    obtain ⟨before, rest⟩ := p
    rw [hw, Option.map_some] at hsplit
    cases hend : splitFirst dsmlEnd rest with
    | none =>
      rw [wholeText_open hsplit (splitFirst_eq_none.mp hend),
        wholeText_open hw (splitFirst_eq_none.mp hend), text_cons, add_assoc]
    | some q =>
      rw [wholeText_block hsplit hend, wholeText_block hw hend, text_cons]
      simp only [add_assoc]

/-- Text without `<` in front is visible. -/
theorem wholeText_plain {s : Text} (hs : '<' ∉ s) (u : Text) :
    wholeText fromStr allowToolCalls true (s ++ u) =
      text s + wholeText fromStr allowToolCalls true u := by
  induction s with
  | nil => rw [nil_append, text_nil, zero_add]
  | cons c s ih =>
    rw [mem_cons, not_or] at hs
    have hno := @not_start_of_ne c (s ++ u) (Ne.symm hs.1)
    rw [cons_append, wholeText_cons hno.1 fun h => hno.2 h.2.1, ih hs.2, text_cons c s,
      add_assoc]

/-! ### What a push releases -/

/-- The index from which the text is the beginning of an opening tag, or its length. -/
def heldFrom : Text → ℕ
  | [] => 0
  | c :: w => if c :: w <+: dsmlStart then 0 else heldFrom w + 1

theorem find_heldFrom (w : Text) : (range w.length ++ [w.length]).find?
    (fun index => dsmlStart.startsWith (w.drop index)) = some (heldFrom w) := by
  induction w with
  | nil => rfl
  | cons c w ih =>
    have hrange : range (c :: w).length ++ [(c :: w).length] =
        0 :: (range w.length ++ [w.length]).map Nat.succ := by
      rw [length_cons, range_succ_eq_map, map_append]
      rfl
    rw [hrange, find?_cons, heldFrom]
    by_cases hp : c :: w <+: dsmlStart
    · simp [Text.startsWith, hp]
    · have hshift : ((fun index => dsmlStart.startsWith ((c :: w).drop index)) ∘ Nat.succ) =
          fun index => dsmlStart.startsWith (w.drop index) := rfl
      simp only [Text.startsWith, drop_zero, hp, decide_false, if_false]
      rw [find?_map]
      have hshift' : ((fun index => decide ((c :: w).drop index <+: dsmlStart)) ∘ Nat.succ) =
          fun index => dsmlStart.startsWith (w.drop index) := rfl
      rw [hshift', ih]
      rfl

theorem dsmlPrefixStart_cons (c : Char) (w : Text) :
    dsmlPrefixStart (c :: w) = heldFrom w + 1 := by
  have hrange : (range (c :: w).length).drop 1 ++ [(c :: w).length] =
      (range w.length ++ [w.length]).map Nat.succ := by
    rw [length_cons, range_succ_eq_map, map_append]
    rfl
  have hshift : ((fun index => dsmlStart.startsWith ((c :: w).drop index)) ∘ Nat.succ) =
      fun index => dsmlStart.startsWith (w.drop index) := rfl
  rw [dsmlPrefixStart, hrange, find?_map, hshift, find_heldFrom]
  rfl

theorem drop_heldFrom (w : Text) : w.drop (heldFrom w) <+: dsmlStart := by
  induction w with
  | nil => exact nil_prefix
  | cons c w ih =>
    rw [heldFrom]
    split_ifs with hp
    · exact hp
    · exact ih

theorem heldFrom_plain (h : '<' ∉ w) : heldFrom w = w.length := by
  induction w with
  | nil => rfl
  | cons c w ih =>
    rw [mem_cons, not_or] at h
    rw [heldFrom, if_neg (not_start_of_ne (Ne.symm h.1)).2, ih h.2, length_cons]

/-- What is released behind other text is visible whatever follows. -/
theorem wholeText_release (hin : ¬ dsmlStart <:+: w) (t : Text) :
    wholeText fromStr allowToolCalls true (w ++ t) = text (w.take (heldFrom w)) +
      wholeText fromStr allowToolCalls true (w.drop (heldFrom w) ++ t) := by
  induction w with
  | nil => rw [heldFrom, take_nil, text_nil, zero_add, drop_nil]
  | cons c w ih =>
    rw [heldFrom]
    split_ifs with hp
    · rw [take_zero, drop_zero, text_nil, zero_add]
    · have hno : ¬ dsmlStart <+: c :: (w ++ t) ∧ ¬ c :: (w ++ t) <+: dsmlStart :=
        not_start_of_append hin hp
      have hin' : ¬ dsmlStart <:+: w := fun h => hin (h.trans (suffix_cons c w).isInfix)
      rw [cons_append, wholeText_cons hno.1 fun h => hno.2 h.2.1, ih hin', take_succ_cons,
        drop_succ_cons, text_cons c (w.take _), add_assoc]

/-- What a push leaves of the buffer behind the last closed block, and whether text precedes it
since that block. -/
def behindBlocks (preceded : Bool) (buffer : Text) : Bool × Text :=
  match _h : splitFirst dsmlStart buffer with
  | none => (preceded, buffer)
  | some (_, rest) =>
      match _h2 : splitFirst dsmlEnd rest with
      | none => (preceded, buffer)
      | some (_, close) => behindBlocks false (close.drop dsmlEnd.length)
termination_by buffer.length
decreasing_by exact behindBlock_length_lt _h _h2

theorem behindBlocks_eq (buffer : Text) : behindBlocks preceded buffer =
    match splitFirst dsmlStart buffer with
    | none => (preceded, buffer)
    | some (_, rest) =>
        match splitFirst dsmlEnd rest with
        | none => (preceded, buffer)
        | some (_, close) => behindBlocks false (close.drop dsmlEnd.length) := by
  rw [behindBlocks]
  split
  · next h => rw [h]
  · next before rest h =>
    rw [h]
    dsimp only
    split
    · next h2 => rw [h2]
    · next inner close h2 => rw [h2]

theorem behindBlocks_none {buffer : Text} (h : splitFirst dsmlStart buffer = none) :
    behindBlocks preceded buffer = (preceded, buffer) := by
  rw [behindBlocks_eq, h]

theorem behindBlocks_open {buffer before rest : Text}
    (h : splitFirst dsmlStart buffer = some (before, rest)) (h2 : splitFirst dsmlEnd rest = none) :
    behindBlocks preceded buffer = (preceded, buffer) := by
  rw [behindBlocks_eq, h]
  dsimp only
  rw [h2]

theorem behindBlocks_block {buffer before rest inner close : Text}
    (h : splitFirst dsmlStart buffer = some (before, rest))
    (h2 : splitFirst dsmlEnd rest = some (inner, close)) :
    behindBlocks preceded buffer = behindBlocks false (close.drop dsmlEnd.length) := by
  rw [behindBlocks_eq, h]
  dsimp only
  rw [h2]

/-- The text is the beginning of an opening tag that the rest completes, or that stays broken at
the end of the input although other text precedes it. -/
def SplitsTag (preceded : Bool) (buffer rest : Text) : Prop :=
  buffer ≠ [] ∧ buffer <+: dsmlStart ∧ ¬ dsmlStart <+: buffer ∧
    (dsmlStart <+: buffer ++ rest ∨ (preceded = true ∧ buffer ++ rest <+: dsmlStart ∧
      looksLikeDsmlProtocol (buffer ++ rest) = true))

/-- The push on this buffer splits a tag: what it has left behind the last closed block. -/
def PushSplits (preceded : Bool) (buffer rest : Text) : Prop :=
  SplitsTag (behindBlocks preceded buffer).1 (behindBlocks preceded buffer).2 rest

/-- Whether text precedes the kept buffer since the last block, behind a push. -/
def precededAfter (fromStr : Text → Option Value) (allowToolCalls preceded : Bool)
    (buffer : Text) : Bool :=
  (behindBlocks preceded buffer).1 ||
    decide ((pushLoop fromStr allowToolCalls buffer).2 ≠ (behindBlocks preceded buffer).2)

/-- A push that splits no tag splits the answer. -/
theorem wholeText_push (h : ¬ PushSplits preceded buffer rest) :
    wholeText fromStr allowToolCalls preceded (buffer ++ rest) =
      (pushLoop fromStr allowToolCalls buffer).1 + wholeText fromStr allowToolCalls
        (precededAfter fromStr allowToolCalls preceded buffer)
        ((pushLoop fromStr allowToolCalls buffer).2 ++ rest) := by
  unfold PushSplits at h
  unfold precededAfter
  fun_induction pushLoop fromStr allowToolCalls buffer generalizing preceded with
  | case1 buffer hstart =>
    rename_i keepFrom
    have hin := splitFirst_eq_none.mp hstart
    rw [behindBlocks_none hstart] at h ⊢
    cases buffer with
    | nil => simp
    | cons c w =>
      have hin' : ¬ dsmlStart <:+: w := fun hw => hin (hw.trans (suffix_cons c w).isInfix)
      have hno : ¬ dsmlStart <+: c :: w := fun hp => hin hp.isInfix
      have hkeep : keepFrom = heldFrom w + 1 := dsmlPrefixStart_cons c w
      have hreleased : ¬ (c :: w).drop (heldFrom w + 1) = c :: w := by
        intro heq
        have := congrArg length heq
        simp only [length_drop, length_cons] at this
        omega
      have hfirst : ¬ dsmlStart <+: c :: (w ++ rest) ∧ ¬ (preceded = true ∧
          c :: (w ++ rest) <+: dsmlStart ∧ looksLikeDsmlProtocol (c :: (w ++ rest)) = true) := by
        by_cases hp : c :: w <+: dsmlStart
        · constructor
          · exact fun hs => h ⟨by simp, hp, hno, Or.inl hs⟩
          · exact fun hheld => h ⟨by simp, hp, hno, Or.inr hheld⟩
        · have hboth := @not_start_of_append (c :: w) rest hin hp
          exact ⟨hboth.1, fun hheld => hboth.2 hheld.2.1⟩
      rw [cons_append, wholeText_cons hfirst.1 hfirst.2, wholeText_release hin' rest]
      simp only [hkeep, ne_eq, hreleased, not_false_eq_true, decide_true, Bool.or_true]
      rw [take_succ_cons, drop_succ_cons, text_cons c (w.take _), add_assoc]
  | case2 buffer before buffer' hstart hend =>
    have hin : dsmlStart <:+: buffer' ++ rest :=
      (splitFirst_starts hstart).isInfix.trans (prefix_append _ _).isInfix
    have hsplit := splitFirst_append_right rest hstart
    have hfront : splitFirst dsmlStart (buffer' ++ rest) = some ([], buffer' ++ rest) :=
      splitFirst_of_starts ((splitFirst_starts hstart).trans (prefix_append _ _))
    generalize (preceded || decide (buffer' ≠ buffer)) = preceded'
    cases hclose : splitFirst dsmlEnd (buffer' ++ rest) with
    | none =>
      have hopen := splitFirst_eq_none.mp hclose
      rw [wholeText_open hsplit hopen, wholeText_open hfront hopen, text_nil, zero_add]
    | some p => rw [wholeText_block hsplit hclose, wholeText_block hfront hclose, text_nil, zero_add,
        add_assoc]
  | case3 buffer before buffer' hstart inner close hend later =>
    rename_i ih
    rw [behindBlocks_block hstart hend] at h ⊢
    have hlong : dsmlEnd.length ≤ close.length := (splitFirst_starts hend).length_le
    rw [wholeText_block (splitFirst_append_right rest hstart) (splitFirst_append_right rest hend),
      drop_append_of_le_length hlong, ih h]
    simp only [add_assoc]
    rfl

/-! ### What a split tag costs -/

/-- The number of visible characters. -/
def visibleLength : DeepSeekToolContent →+ ℕ where
  toFun content := content.visibleText.length
  map_zero' := rfl
  map_add' _ _ := length_append

@[simp] theorem visibleLength_text (t : Text) : visibleLength (text t) = t.length := rfl

@[simp] theorem visibleLength_readBlock (block : Text) :
    visibleLength (readBlock fromStr allowToolCalls block) = 0 := by
  unfold readBlock
  dsimp only
  split_ifs <;> rfl

/-- What precedes a text matters for less than an opening tag. -/
theorem visibleLength_preceded (u : Text) :
    visibleLength (wholeText fromStr allowToolCalls false u) <
      dsmlStart.length + visibleLength (wholeText fromStr allowToolCalls true u) := by
  have hpos : 0 < dsmlStart.length := by decide
  by_cases hin : dsmlStart <:+: u
  · rw [@wholeText_preceded fromStr allowToolCalls false true u hin]
    omega
  · rw [wholeText_none hin, wholeText_none hin]
    cases u with
    | nil =>
      rw [closeText, closeText]
      omega
    | cons c w =>
      have hfalse : closeText fromStr allowToolCalls false (c :: w) =
          text [c] + closeText fromStr allowToolCalls true w := by
        rw [closeText, if_neg (by simp)]
      rw [hfalse, closeText]
      split_ifs with hp
      · have hle := hp.2.length_le
        have hne : (c :: w).length ≠ dsmlStart.length := by
          intro hlen
          exact hin (hp.2.eq_of_length hlen ▸ infix_rfl)
        rw [closeText_plain (notMem_of_start_eq hp.2).2, map_add, visibleLength_text,
          visibleLength_text]
        simp only [length_cons, length_nil] at hle hne ⊢
        omega
      · omega

/-- Behind a closed block at least as much is visible as before, up to one tag, whether the block
was opened or not. -/
theorem visibleLength_block {u inner close : Text} (preceded : Bool)
    (h : splitFirst dsmlEnd u = some (inner, close)) :
    visibleLength (wholeText fromStr allowToolCalls false (close.drop dsmlEnd.length)) <
      dsmlStart.length + visibleLength (wholeText fromStr allowToolCalls preceded u) := by
  have hslash : '/' ∈ dsmlEnd := by decide
  have hslash' : '/' ∉ dsmlStart := by decide
  have hend : dsmlEnd = '<' :: '/' :: dsmlEnd.drop 2 := by decide
  have hlengths : dsmlStart.length ≤ dsmlEnd.length := by decide
  have hpos : 0 < dsmlStart.length := by decide
  induction u generalizing inner preceded with
  | nil =>
    have hne : dsmlEnd ≠ [] := by decide
    simp [splitFirst, hne] at h
  | cons c v ih =>
    have hclosing : dsmlEnd <:+: c :: v := by
      rw [splitFirst_append h]
      exact (splitFirst_starts h).isInfix.trans (suffix_append _ _).isInfix
    have hheld : ¬ c :: v <+: dsmlStart :=
      fun hp => hslash' (hp.subset (hclosing.subset hslash))
    by_cases hstart : dsmlStart <+: c :: v
    · rw [wholeText_block (splitFirst_of_starts hstart) h, map_add, map_add, visibleLength_readBlock]
      omega
    · rw [wholeText_cons hstart fun hh => hheld hh.2.1, map_add, visibleLength_text]
      by_cases hp : dsmlEnd <+: c :: v
      · rw [splitFirst_of_starts hp, Option.some.injEq, Prod.mk.injEq] at h
        obtain ⟨v', hv⟩ := hp
        have hv' : v = dsmlEnd.tail ++ v' := by
          rw [hend] at hv
          exact (cons.inj hv).2.symm
        have hdrop : close.drop dsmlEnd.length = v' := by
          rw [← h.2, ← hv, drop_left]
        have hplain := @wholeText_plain fromStr allowToolCalls dsmlEnd.tail (by decide) v'
        have htail := @visibleLength_preceded fromStr allowToolCalls v'
        rw [hdrop, hv', hplain, map_add, visibleLength_text]
        omega
      · rw [splitFirst, if_neg hp] at h
        obtain ⟨p, hrest, hpair⟩ := Option.map_eq_some_iff.mp h
        rw [Prod.mk.injEq] at hpair
        have := @ih p.1 true (by rw [hrest, ← hpair.2])
        omega

/-- A push that splits a tag makes more text visible. -/
theorem visibleLength_splits {buffer rest : Text} (h : SplitsTag preceded buffer rest) :
    visibleLength (wholeText fromStr allowToolCalls preceded (buffer ++ rest)) <
      buffer.length + visibleLength (wholeText fromStr allowToolCalls true rest) := by
  obtain ⟨hne, hpre, hproper, hcase⟩ := h
  have hlen := length_pos_iff.mpr hne
  have hopens : dsmlStart <+: buffer ++ rest →
      visibleLength (wholeText fromStr allowToolCalls preceded (buffer ++ rest)) <
        buffer.length + visibleLength (wholeText fromStr allowToolCalls true rest) := by
    rintro ⟨u, hu⟩
    obtain ⟨s, hs⟩ := hpre
    have hrest : rest = s ++ u := by
      rw [← hs, append_assoc] at hu
      exact (append_cancel_left hu).symm
    have hplain : '<' ∉ s := by
      obtain ⟨c, w, rfl⟩ := exists_cons_of_ne_nil hne
      have hwhole : c :: (w ++ s) <+: dsmlStart := hs ▸ prefix_rfl
      have hall := (notMem_of_start_eq hwhole).2
      exact fun hmem => hall (mem_append_right _ hmem)
    have hsize : dsmlStart.length = buffer.length + s.length := by
      rw [← hs, length_append]
    have hfront : splitFirst dsmlStart (dsmlStart ++ u) = some ([], dsmlStart ++ u) :=
      splitFirst_of_starts (prefix_append _ _)
    rw [← hu, hrest, wholeText_plain hplain, map_add, visibleLength_text]
    cases hend : splitFirst dsmlEnd u with
    | none =>
      have hnone : splitFirst dsmlEnd (dsmlStart ++ u) = none := by
        rw [splitFirst_end_start, hend]
        rfl
      rw [wholeText_open hfront (splitFirst_eq_none.mp hnone), map_add, visibleLength_readBlock,
        visibleLength_text, length_nil]
      omega
    | some p =>
      have hsome : splitFirst dsmlEnd (dsmlStart ++ u) = some (dsmlStart ++ p.1, p.2) := by
        rw [splitFirst_end_start, hend]
        rfl
      have hblock := @visibleLength_block fromStr allowToolCalls u p.1 p.2 true hend
      rw [wholeText_block hfront hsome, map_add, map_add, visibleLength_readBlock,
        visibleLength_text, length_nil]
      omega
  rcases hcase with hstart | ⟨hpreceded, hheld, hlooks⟩
  · exact hopens hstart
  · by_cases hwhole : dsmlStart <+: buffer ++ rest
    · exact hopens hwhole
    · have hin : ¬ dsmlStart <:+: buffer ++ rest := by
        intro hin
        have hle := hin.length_le
        have heq := hheld.eq_of_length (Nat.le_antisymm hheld.length_le hle)
        exact hwhole (heq ▸ prefix_rfl)
      obtain ⟨c, w, hcons⟩ := exists_cons_of_ne_nil (l := buffer ++ rest) (by simp [hne])
      rw [wholeText_none hin, hcons, closeText, if_pos ⟨hpreceded, hcons ▸ hheld⟩,
        finish_of_looks (by simp) (hcons ▸ hlooks), visibleLength_readBlock]
      omega

/-- A push that splits a tag releases it whole, and the answer grows. -/
theorem visibleLength_push (h : PushSplits preceded buffer rest) :
    visibleLength (wholeText fromStr allowToolCalls preceded (buffer ++ rest)) <
      visibleLength (pushLoop fromStr allowToolCalls buffer).1 +
        visibleLength (wholeText fromStr allowToolCalls
          (precededAfter fromStr allowToolCalls preceded buffer)
          ((pushLoop fromStr allowToolCalls buffer).2 ++ rest)) := by
  unfold PushSplits at h
  unfold precededAfter
  fun_induction pushLoop fromStr allowToolCalls buffer generalizing preceded with
  | case1 buffer hstart =>
    rename_i keepFrom
    rw [behindBlocks_none hstart] at h ⊢
    obtain ⟨c, w, rfl⟩ := exists_cons_of_ne_nil h.1
    have hkeep : keepFrom = (c :: w).length := by
      have hplain := heldFrom_plain (notMem_of_start_eq h.2.1).2
      rw [length_cons, ← hplain]
      exact dsmlPrefixStart_cons c w
    have hcost := @visibleLength_splits fromStr allowToolCalls preceded (c :: w) rest h
    simpa [hkeep] using hcost
  | case2 buffer before buffer' hstart hend =>
    rw [behindBlocks_open hstart hend] at h
    have hin : dsmlStart <:+: buffer := by
      rw [splitFirst_append hstart]
      exact (splitFirst_starts hstart).isInfix.trans (suffix_append _ _).isInfix
    have heq := h.2.1.eq_of_length (Nat.le_antisymm h.2.1.length_le hin.length_le)
    exact absurd (heq ▸ prefix_rfl) h.2.2.1
  | case3 buffer before buffer' hstart inner close hend later =>
    rename_i ih
    subst later
    rw [behindBlocks_block hstart hend] at h ⊢
    have hlong : dsmlEnd.length ≤ close.length := (splitFirst_starts hend).length_le
    have hlater := ih h
    rw [wholeText_block (splitFirst_append_right rest hstart) (splitFirst_append_right rest hend),
      drop_append_of_le_length hlong]
    simp only [map_add, visibleLength_readBlock, visibleLength_text]
    omega

/-! ### Runs -/

/-- What the adapter keeps is answered at the end of the input as the specification says. -/
theorem wholeText_kept (preceded : Bool) (buffer : Text) :
    wholeText fromStr allowToolCalls (precededAfter fromStr allowToolCalls preceded buffer)
        (pushLoop fromStr allowToolCalls buffer).2 =
      finish fromStr allowToolCalls (pushLoop fromStr allowToolCalls buffer).2 := by
  unfold precededAfter
  fun_induction pushLoop fromStr allowToolCalls buffer generalizing preceded with
  | case1 buffer hstart =>
    rename_i keepFrom
    have hin := splitFirst_eq_none.mp hstart
    rw [behindBlocks_none hstart]
    cases buffer with
    | nil => simp [wholeText_none hin, closeText, finish]
    | cons c w =>
      have hkeep : keepFrom = heldFrom w + 1 := dsmlPrefixStart_cons c w
      have hreleased : ¬ (c :: w).drop (heldFrom w + 1) = c :: w := by
        intro heq
        have := congrArg length heq
        simp only [length_drop, length_cons] at this
        omega
      simp only [hkeep, ne_eq, hreleased, not_false_eq_true, decide_true, Bool.or_true]
      rw [drop_succ_cons]
      have hheld := drop_heldFrom w
      have hin' : ¬ dsmlStart <:+: w.drop (heldFrom w) := fun h =>
        hin ((h.trans (drop_suffix _ w).isInfix).trans (suffix_cons c w).isInfix)
      rw [wholeText_none hin']
      cases hkept : w.drop (heldFrom w) with
      | nil => rfl
      | cons d v => rw [closeText, if_pos ⟨rfl, hkept ▸ hheld⟩]
  | case2 buffer before buffer' hstart hend =>
    have hfront := splitFirst_of_starts (splitFirst_starts hstart)
    have hne : buffer' ≠ [] := by
      rintro rfl
      exact dsmlStart_ne_nil (prefix_nil.mp (splitFirst_starts hstart))
    have hlooks : looksLikeDsmlProtocol buffer' = true := by
      have htag : ("<｜｜DSML" : Text) <+: dsmlStart := by decide
      have hin := (htag.trans (splitFirst_starts hstart)).isInfix
      simp [looksLikeDsmlProtocol, Text.contains, hin]
    rw [wholeText_open hfront (splitFirst_eq_none.mp hend), text_nil, zero_add,
      finish_of_looks hne hlooks]
  | case3 buffer before buffer' hstart inner close hend later =>
    rename_i ih
    rw [behindBlocks_block hstart hend]
    exact ih false

/-- The adapter as a consumer, its state extended by whether text precedes the buffer. -/
def adapter (fromStr : Text → Option Value) (allowToolCalls : Bool) :
    Chunked.Consumer Char (Bool × Text) DeepSeekToolContent where
  push s content :=
    let pushed := push fromStr allowToolCalls s.2 content
    (pushed.1, (precededAfter fromStr allowToolCalls s.1 (s.2 ++ content), pushed.2))
  finish s := finish fromStr allowToolCalls s.2

theorem adapter_run (preceded : Bool) (buffer : Text) (contents : List Text) :
    (adapter fromStr allowToolCalls).run (preceded, buffer) contents =
      adapt fromStr allowToolCalls buffer contents := by
  induction contents generalizing preceded buffer with
  | nil => rfl
  | cons content contents ih => rw [Chunked.Consumer.run, adapt, ih]; rfl

/-- No push of the run splits a tag. -/
def NeverSplits (fromStr : Text → Option Value) (allowToolCalls : Bool) (contents : List Text) :
    Prop :=
  (adapter fromStr allowToolCalls).EachPush
    (fun s content rest => ¬ PushSplits s.1 (s.2 ++ content) rest) (false, []) contents

theorem adapt_eq_whole_iff (contents : List Text) :
    adapt fromStr allowToolCalls [] contents = wholeText fromStr allowToolCalls false
      contents.flatten ↔ NeverSplits fromStr allowToolCalls contents := by
  have hrun := @Chunked.Consumer.run_eq_whole_iff Char (Bool × Text) DeepSeekToolContent
    (adapter fromStr allowToolCalls) _
    (fun s => wholeText fromStr allowToolCalls s.1 s.2 = finish fromStr allowToolCalls s.2)
    (fun s content rest => ¬ PushSplits s.1 (s.2 ++ content) rest)
    (fun s rest => wholeText fromStr allowToolCalls s.1 (s.2 ++ rest)) visibleLength
    (fun s content _ => wholeText_kept s.1 (s.2 ++ content))
    (fun s hs => by rw [append_nil]; exact hs)
    (fun s content rest h => by rw [← append_assoc]; exact wholeText_push h)
    (fun s content rest h => by
      rw [← append_assoc]
      exact visibleLength_push (not_not.mp h))
    (false, []) contents (by
      rw [wholeText_none (by simp [dsmlStart_ne_nil]), closeText]
      rfl)
  rw [adapter_run] at hrun
  exact hrun

/-- One chunk splits no tag. -/
theorem not_pushSplits_whole (t : Text) : ¬ PushSplits false t [] := by
  have hfalse : ∀ preceded, preceded = false → (behindBlocks preceded t).1 = false := by
    intro preceded hp
    fun_induction behindBlocks preceded t with
    | case1 => exact hp
    | case2 => exact hp
    | case3 preceded buffer before rest hstart inner close hend ih => exact ih rfl
  rintro ⟨_, _, hno, hstart | hheld⟩
  · rw [append_nil] at hstart
    exact hno hstart
  · rw [hfalse false rfl] at hheld
    exact absurd hheld.1 (by simp)

/-- The answer does not depend on how the text was cut exactly if no push releases the beginning
of an opening tag that the rest of the text completes or leaves broken. -/
theorem adapt_chunks_iff (fromStr : Text → Option Value) (allowToolCalls : Bool)
    (contents : List Text) :
    adapt fromStr allowToolCalls [] contents = adapt fromStr allowToolCalls [] [contents.flatten] ↔
      NeverSplits fromStr allowToolCalls contents := by
  have hone : adapt fromStr allowToolCalls [] [contents.flatten] =
      wholeText fromStr allowToolCalls false contents.flatten := by
    have hwhole := (@adapt_eq_whole_iff fromStr allowToolCalls [contents.flatten]).mpr
      ⟨not_pushSplits_whole _, trivial⟩
    rwa [flatten_singleton] at hwhole
  rw [hone]
  exact adapt_eq_whole_iff contents

/-- An empty block, cut into single characters. -/
def emptyBlock : Text := dsmlStart ++ dsmlEnd

/-- Each character is the whole buffer when it is pushed, so the opening tag becomes visible. -/
theorem emptyBlock_split : adapt (fun _ => none) false [] (emptyBlock.map fun c => [c]) ≠
    adapt (fun _ => none) false [] [emptyBlock] := by
  intro h
  have hblocked : (adapt (fun _ => none) false [] (emptyBlock.map fun c => [c])).blocked = false ∧
      (adapt (fun _ => none) false [] [emptyBlock]).blocked = true := by
    decide +kernel
  rw [h, hblocked.2] at hblocked
  exact absurd hblocked.1 (by simp)

end CodeSeeX.ToolProtocol
