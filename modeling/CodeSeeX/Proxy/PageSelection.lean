import CodeSeeX.Text

/-!
# The evidence taken from a page

The blocks of a page compete for a budget of characters: code first, then the rest, by score. The
chosen blocks are put back into page order, and what was skipped between two of them is reported.
-/
namespace CodeSeeX.Web
open List Option

inductive BlockKind where
  | prose
  | code
  | tableRow
  deriving DecidableEq

/-- A readable block of a page; `W` is the type of its weight. -/
structure TextBlock (W : Type) where
  headingPath : Text
  text : Text
  kind : BlockKind
  links : List Text
  weight : W
  boilerplate : Bool

/-- The operations on weights and the Unicode tables that the selection uses. -/
structure PageOps (W : Type) where
  /-- `text.to_lowercase()` -/
  toLowercase : Text → Text
  /-- `weight < 0.5` -/
  belowBar : W → Bool
  /-- `weight * (1.0 + 2.0 * hits as f64)` -/
  score : W → ℕ → W
  /-- `left.partial_cmp(&right).unwrap_or(Equal)` -/
  cmp : W → W → Ordering

structure SelectedBlock where
  headingPath : Text
  text : Text
  kind : BlockKind
  links : List Text
  skippedBlocks : ℕ
  skippedChars : ℕ

structure Selection where
  blocks : List SelectedBlock
  keptChars : ℕ
  omittedChars : ℕ
  omittedBlocks : ℕ

def truncateChars (text : Text) (maxChars : ℕ) : Text :=
  if text.length ≤ maxChars then text
  else text.take maxChars ++ ("...[truncated chars=" : Text) ++ Text.ofNat text.length ++ [']']

def minRepeatChars : ℕ := 40

/-- The signature of a block that is long enough to be worth de-duplicating. -/
def repeatedBlockSignature (toLowercase : Text → Text) (text : Text) : Option Text :=
  if text.length < minRepeatChars then none
  else some (toLowercase (Text.join " " text.splitWhitespace))

section Selecting
variable {W : Type} (ops : PageOps W) (blocks : List (TextBlock W)) (budget : ℕ)

/-! ## The order of the offers -/

def hits (queryTerms : List Text) (block : TextBlock W) : ℕ :=
  queryTerms.countP fun term => (ops.toLowercase block.text).contains term

def scored (queryTerms : List Text) : List (ℕ × W) :=
  blocks.zipIdx.map fun (block, index) => (index, ops.score block.weight (hits ops queryTerms block))

/-- The two opening blocks, and then the blocks with the highest scores. -/
def selectionOrder (queryTerms : List Text) : List ℕ :=
  let order := ((scored ops blocks queryTerms).take 2).map Prod.fst
  let byScore := (scored ops blocks queryTerms).mergeSort fun left right =>
    ops.cmp right.2 left.2 ≠ .gt
  byScore.foldl (fun order (index, _) => if index ∈ order then order else order ++ [index]) order

/-! ## Admission -/

structure Admission where
  chosen : List (ℕ × ℕ)
  used : ℕ
  seen : List Text
  admitted : List ℕ
  codeUsed : ℕ

def Admission.start : Admission := { chosen := [], used := 0, seen := [], admitted := [], codeUsed := 0 }

/-- `budget.saturating_mul(3) / 5` -/
def codeReserve : ℕ := min (budget * 3) (2 ^ 64 - 1) / 5

/-- A block that no filter turned away gets what it needs, or what is left. -/
def Admission.take (admission : Admission) (index : ℕ) (block : TextBlock W) : Admission :=
  let length := block.text.length
  let remaining := budget - admission.used
  let codeUsed := if block.kind = .code then admission.codeUsed + min length remaining
    else admission.codeUsed
  if remaining < length then
    { admission with
      chosen := admission.chosen ++ [(index, remaining)], used := budget
      admitted := admission.admitted ++ [index], codeUsed := codeUsed }
  else
    { admission with
      chosen := admission.chosen ++ [(index, length)], used := admission.used + length
      admitted := admission.admitted ++ [index], codeUsed := codeUsed }

/-- `admits`; an index out of range panics. -/
def admits (isCodePass : Bool) (admission : Admission) (index : ℕ) : Option Admission :=
  if budget ≤ admission.used then some admission
  else do
    let block ← blocks[index]?
    if block.boilerplate || ops.belowBar block.weight then some admission
    else if isCodePass && (block.kind ≠ .code || codeReserve budget ≤ admission.codeUsed) then
      some admission
    else
      match repeatedBlockSignature ops.toLowercase block.text with
      | some signature =>
          if signature ∈ admission.seen then some admission
          else if index ∈ admission.admitted then
            some { admission with seen := admission.seen ++ [signature] }
          else some (Admission.take budget { admission with seen := admission.seen ++ [signature] } index block)
      | none =>
          if index ∈ admission.admitted then some admission
          else some (Admission.take budget admission index block)

/-- The second pass stops when the budget is used. -/
def generalPass (admission : Admission) : List ℕ → Option Admission
  | [] => some admission
  | index :: order =>
      if budget ≤ admission.used then some admission
      else do
        let admission ← admits ops blocks budget false admission index
        generalPass admission order

def admission (queryTerms : List Text) : Option Admission := do
  let order := selectionOrder ops blocks queryTerms
  let admission ← order.foldlM (admits ops blocks budget true) Admission.start
  generalPass ops blocks budget admission order

/-- The chosen blocks with the characters they may keep, in page order. -/
def chosenBlocks (queryTerms : List Text) : Option (List (ℕ × ℕ)) :=
  (admission ops blocks budget queryTerms).map fun admission =>
    admission.chosen.mergeSort fun left right => left.1 ≤ right.1

/-! ## Page order -/

/-- `&blocks[start..stop]`; bounds in the wrong order or out of range panic. -/
def slice (start stop : ℕ) : Option (List (TextBlock W)) :=
  if start ≤ stop ∧ stop ≤ blocks.length then some ((blocks.take stop).drop start) else none

def charsOf (blocks : List (TextBlock W)) : ℕ := (blocks.map fun block => block.text.length).sum

/-- What lies between the block before and this one. -/
def skippedBefore (previous : Option ℕ) (index : ℕ) : Option (List (TextBlock W)) :=
  match previous with
  | some previous => slice blocks (previous + 1) index
  | none => slice blocks 0 index

def emit (previous : Option ℕ) : List (ℕ × ℕ) → Option (List SelectedBlock)
  | [] => some []
  | (index, keep) :: chosen => do
      let block ← blocks[index]?
      let skipped ← skippedBefore blocks previous index
      let whole := block.text.length ≤ keep
      let selected ← emit (some index) chosen
      some ({ headingPath := block.headingPath
              text := if whole then block.text else truncateChars block.text keep
              kind := block.kind
              links := if whole then block.links else []
              skippedBlocks := skipped.length
              skippedChars := charsOf skipped } :: selected)

def selectBlocks (queryTerms : List Text) : Option Selection :=
  if blocks = [] then some { blocks := [], keptChars := 0, omittedChars := 0, omittedBlocks := 0 }
  else do
    let chosen ← chosenBlocks ops blocks budget queryTerms
    let selected ← emit blocks none chosen
    let keptChars := (selected.map fun block => block.text.length).sum
    some { blocks := selected
           keptChars := keptChars
           omittedChars := charsOf blocks - keptChars
           omittedBlocks := (selected.map SelectedBlock.skippedBlocks).sum }

end Selecting

/-! ## Offers -/

section Offers
variable {W : Type} (ops : PageOps W) (blocks : List (TextBlock W)) (budget : ℕ)

def eligible (block : TextBlock W) : Bool := ! (block.boilerplate || ops.belowBar block.weight)

/-- Whether the block may take part in the pass. -/
def takesPart (isCodePass : Bool) (block : TextBlock W) : Bool :=
  eligible ops block && (! isCodePass || block.kind = .code)

/-- What the pass may use. -/
def limit (isCodePass : Bool) : ℕ := if isCodePass then codeReserve budget else budget

def signatureOf (block : TextBlock W) : Option Text := repeatedBlockSignature ops.toLowercase block.text

/-- The block comes as far as the duplicate filter, and it was not admitted before. -/
structure Offered (isCodePass : Bool) (admission : Admission) (index : ℕ) (block : TextBlock W) :
    Prop where
  within : admission.used < budget
  reserve : isCodePass = true → admission.codeUsed < codeReserve budget
  takesPart : takesPart ops isCodePass block = true
  fresh : index ∉ admission.admitted

/-- The texts that were seen are those of the admitted blocks. -/
def SeesAdmitted (admission : Admission) : Prop :=
  admission.seen = admission.admitted.filterMap fun index => (blocks[index]?).bind (signatureOf ops)

variable {ops blocks budget} {isCodePass : Bool} {admission : Admission} {index : ℕ} {block : TextBlock W}

theorem codeReserve_le : codeReserve budget ≤ budget := by
  have := Nat.min_le_left (budget * 3) (2 ^ 64 - 1)
  rw [codeReserve]
  omega

theorem mem_seen_of_admitted (hseen : SeesAdmitted ops blocks admission)
    (hblock : blocks[index]? = some block) (hmem : index ∈ admission.admitted) {signature : Text}
    (hsignature : signatureOf ops block = some signature) : signature ∈ admission.seen := by
  rw [hseen, mem_filterMap]
  exact ⟨index, hmem, by rw [hblock]; exact hsignature⟩

variable (ops budget)

/-- The tests before the duplicate filter. -/
def gate (isCodePass : Bool) (admission : Admission) (block : TextBlock W) : Prop :=
  admission.used < budget ∧ takesPart ops isCodePass block = true ∧
    (isCodePass = true → admission.codeUsed < codeReserve budget)

/-- What the duplicate filter and the admitted indices make of a block. -/
def filtered (admission : Admission) (index : ℕ) (block : TextBlock W) : Admission :=
  match signatureOf ops block with
  | some signature =>
      if signature ∈ admission.seen then admission
      else if index ∈ admission.admitted then
        { admission with seen := admission.seen ++ [signature] }
      else Admission.take budget { admission with seen := admission.seen ++ [signature] } index block
  | none => if index ∈ admission.admitted then admission else Admission.take budget admission index block

variable {ops budget}

theorem admits_of_not_gate (hblock : blocks[index]? = some block)
    (h : ¬ gate ops budget isCodePass admission block) :
    admits ops blocks budget isCodePass admission index = some admission := by
  rw [admits]
  by_cases hwithin : budget ≤ admission.used
  · rw [if_pos hwithin]
  · rw [if_neg hwithin, hblock, bind_eq_bind, bind_some]
    by_cases hbar : (block.boilerplate || ops.belowBar block.weight) = true
    · rw [if_pos hbar]
    · rw [if_neg hbar, if_pos]
      by_contra hpass
      refine h ⟨Nat.lt_of_not_le hwithin, ?_, ?_⟩
      · cases isCodePass <;> simp_all [takesPart, eligible]
      · intro hcode
        subst hcode
        simp at hpass
        omega

theorem admits_of_gate (hblock : blocks[index]? = some block)
    (h : gate ops budget isCodePass admission block) :
    admits ops blocks budget isCodePass admission index =
      some (filtered ops budget admission index block) := by
  obtain ⟨hwithin, hpart, hreserve⟩ := h
  rw [takesPart, eligible, Bool.and_eq_true, Bool.not_eq_true'] at hpart
  have hbar : ¬ (block.boilerplate || ops.belowBar block.weight) = true := by
    rw [hpart.1]
    exact Bool.false_ne_true
  have hpass : ¬ (isCodePass && (decide (block.kind ≠ .code) ||
      decide (codeReserve budget ≤ admission.codeUsed))) = true := by
    cases isCodePass with
    | false => exact Bool.false_ne_true
    | true =>
      have hkind : block.kind = .code := by simpa using hpart.2
      have := hreserve rfl
      simp [hkind, this]
  rw [admits, if_neg (Nat.not_le.mpr hwithin), hblock, bind_eq_bind, bind_some,
    if_neg hbar, if_neg hpass, filtered, signatureOf]
  cases repeatedBlockSignature ops.toLowercase block.text with
  | none => exact (apply_ite some _ _ _).symm
  | some signature =>
    show (if signature ∈ admission.seen then _ else _) = some (if signature ∈ admission.seen then _ else _)
    split_ifs <;> rfl

/-- A block that is not offered changes nothing. -/
theorem admits_idle (hseen : SeesAdmitted ops blocks admission) (hblock : blocks[index]? = some block)
    (h : ¬ Offered ops budget isCodePass admission index block) :
    admits ops blocks budget isCodePass admission index = some admission := by
  by_cases hgate : gate ops budget isCodePass admission block
  · have hmem : index ∈ admission.admitted := by
      by_contra hfresh
      exact h ⟨hgate.1, hgate.2.2, hgate.2.1, hfresh⟩
    rw [admits_of_gate hblock hgate, filtered]
    cases hsignature : signatureOf ops block with
    | none => exact congrArg some (if_pos hmem)
    | some signature => exact congrArg some (if_pos (mem_seen_of_admitted hseen hblock hmem hsignature))
  · exact admits_of_not_gate hblock hgate

/-- An offered block whose signature was seen is turned away. -/
theorem admits_repeat (hblock : blocks[index]? = some block)
    (h : Offered ops budget isCodePass admission index block) {signature : Text}
    (hsignature : signatureOf ops block = some signature) (hmem : signature ∈ admission.seen) :
    admits ops blocks budget isCodePass admission index = some admission := by
  rw [admits_of_gate hblock ⟨h.within, h.takesPart, h.reserve⟩, filtered, hsignature]
  exact congrArg some (if_pos hmem)

/-- The block is taken, and its signature is remembered. -/
def taken (ops : PageOps W) (budget : ℕ) (admission : Admission) (index : ℕ) (block : TextBlock W) :
    Admission :=
  Admission.take budget
    { admission with seen := admission.seen ++ (signatureOf ops block).toList } index block

theorem admits_taken (hblock : blocks[index]? = some block)
    (h : Offered ops budget isCodePass admission index block)
    (hnew : ∀ signature ∈ signatureOf ops block, signature ∉ admission.seen) :
    admits ops blocks budget isCodePass admission index =
      some (taken ops budget admission index block) := by
  rw [admits_of_gate hblock ⟨h.within, h.takesPart, h.reserve⟩, filtered, taken]
  cases hsignature : signatureOf ops block with
  | none =>
    show some (if index ∈ admission.admitted then _ else _) = _
    rw [if_neg h.fresh, toList_none, append_nil]
  | some signature =>
    show some (if signature ∈ admission.seen then _ else _) = _
    rw [if_neg (hnew signature hsignature), if_neg h.fresh]
    rfl

/-! ## What an admission keeps -/

structure Valid (ops : PageOps W) (blocks : List (TextBlock W)) (budget : ℕ) (admission : Admission) :
    Prop where
  seen : SeesAdmitted ops blocks admission
  indices : admission.chosen.map Prod.fst = admission.admitted
  nodup : admission.admitted.Nodup
  inBounds : ∀ entry ∈ admission.chosen, ∃ block, blocks[entry.1]? = some block ∧
    entry.2 ≤ block.text.length
  used : admission.used = (admission.chosen.map Prod.snd).sum
  used_le : admission.used ≤ budget

/-- Every chosen block is kept whole. -/
def Uncut (blocks : List (TextBlock W)) (chosen : List (ℕ × ℕ)) : Prop :=
  ∀ entry ∈ chosen, ∀ block, blocks[entry.1]? = some block → block.text.length ≤ entry.2

/-- A block is cut only where the budget ends. -/
def CutsAtEnd (blocks : List (TextBlock W)) (budget : ℕ) (admission : Admission) : Prop :=
  Uncut blocks admission.chosen ∨ admission.used = budget

theorem valid_start : Valid ops blocks budget Admission.start where
  seen := rfl
  indices := rfl
  nodup := nodup_nil
  inBounds := nofun
  used := rfl
  used_le := Nat.zero_le _

/-- What the block may keep. -/
def keepOf (budget : ℕ) (admission : Admission) (block : TextBlock W) : ℕ :=
  min block.text.length (budget - admission.used)

theorem taken_eq (hwithin : admission.used < budget) :
    taken ops budget admission index block =
      { chosen := admission.chosen ++ [(index, keepOf budget admission block)]
        used := admission.used + keepOf budget admission block
        seen := admission.seen ++ (signatureOf ops block).toList
        admitted := admission.admitted ++ [index]
        codeUsed := if block.kind = .code then admission.codeUsed + keepOf budget admission block
          else admission.codeUsed } := by
  rw [taken, Admission.take, keepOf]
  by_cases hlong : budget - admission.used < block.text.length
  · have hmin : min block.text.length (budget - admission.used) = budget - admission.used := by omega
    have hused : admission.used + (budget - admission.used) = budget := by omega
    simp only [if_pos hlong, hmin, hused]
  · have hmin : min block.text.length (budget - admission.used) = block.text.length := by omega
    simp only [if_neg hlong, hmin]

theorem valid_taken (hvalid : Valid ops blocks budget admission) (hblock : blocks[index]? = some block)
    (h : Offered ops budget isCodePass admission index block) :
    Valid ops blocks budget (taken ops budget admission index block) := by
  rw [taken_eq h.within]
  exact
    { seen := by
        have hlast : [index].filterMap (fun other => (blocks[other]?).bind (signatureOf ops)) =
            (signatureOf ops block).toList := by
          cases hsignature : signatureOf ops block <;> simp [hblock, hsignature]
        rw [SeesAdmitted, filterMap_append, hvalid.seen, hlast]
      indices := by rw [map_append, hvalid.indices]; rfl
      nodup := nodup_append.mpr ⟨hvalid.nodup, nodup_singleton _, by
        intro other hother last hlast
        rw [mem_singleton] at hlast
        exact fun heq => h.fresh (hlast ▸ heq ▸ hother)⟩
      inBounds := by
        intro entry hentry
        cases mem_append.mp hentry with
        | inl hold => exact hvalid.inBounds entry hold
        | inr hnew =>
          obtain rfl := mem_singleton.mp hnew
          exact ⟨block, hblock, Nat.min_le_left _ _⟩
      used := by
        rw [map_append, sum_append, ← hvalid.used, map_singleton, sum_singleton]
      used_le := by
        have := h.within
        show admission.used + min block.text.length (budget - admission.used) ≤ budget
        omega }

theorem uncut_taken_iff (hwithin : admission.used < budget) (hblock : blocks[index]? = some block) :
    Uncut blocks (taken ops budget admission index block).chosen ↔
      Uncut blocks admission.chosen ∧ admission.used + block.text.length ≤ budget := by
  have hkeep : block.text.length ≤ keepOf budget admission block ↔
      admission.used + block.text.length ≤ budget := by
    rw [keepOf]
    omega
  rw [taken_eq hwithin, Uncut, forall_mem_append]
  refine and_congr Iff.rfl ?_
  rw [← hkeep]
  constructor
  · intro h
    exact h _ (mem_singleton_self _) block hblock
  · intro h entry hentry other hother
    obtain rfl := mem_singleton.mp hentry
    obtain rfl : block = other := some.inj (hblock.symm.trans hother)
    exact h

theorem cutsAtEnd_taken (hwithin : admission.used < budget) (hblock : blocks[index]? = some block)
    (hcuts : CutsAtEnd blocks budget admission) :
    CutsAtEnd blocks budget (taken ops budget admission index block) := by
  by_cases hfits : admission.used + block.text.length ≤ budget
  · refine .inl ((uncut_taken_iff hwithin hblock).mpr ⟨?_, hfits⟩)
    exact hcuts.resolve_right (Nat.ne_of_lt hwithin)
  · right
    rw [taken_eq hwithin, keepOf]
    show admission.used + min block.text.length (budget - admission.used) = budget
    omega

/-- One offer: nothing changes, or the block is taken. -/
theorem admits_cases (hvalid : Valid ops blocks budget admission)
    (hblock : blocks[index]? = some block) :
    admits ops blocks budget isCodePass admission index = some admission ∨
      Offered ops budget isCodePass admission index block ∧
      admits ops blocks budget isCodePass admission index =
        some (taken ops budget admission index block) := by
  by_cases h : Offered ops budget isCodePass admission index block
  · by_cases hnew : ∀ signature ∈ signatureOf ops block, signature ∉ admission.seen
    · exact .inr ⟨h, admits_taken hblock h hnew⟩
    · push Not at hnew
      obtain ⟨signature, hsignature, hmem⟩ := hnew
      exact .inl (admits_repeat hblock h hsignature hmem)
  · exact .inl (admits_idle hvalid.seen hblock h)

/-! ## A pass -/

variable (ops blocks budget)

/-- What an offer makes of the admission, where it does not panic. -/
def offer (isCodePass : Bool) (admission : Admission) (index : ℕ) : Admission :=
  (admits ops blocks budget isCodePass admission index).getD admission

def pass (isCodePass : Bool) (admission : Admission) (order : List ℕ) : Admission :=
  order.foldl (offer ops blocks budget isCodePass) admission

variable {ops blocks budget} {order : List ℕ}

theorem exists_block (horder : ∀ index ∈ order, index < blocks.length)
    (hmem : index ∈ order) : ∃ block, blocks[index]? = some block :=
  ⟨_, getElem?_eq_getElem (horder index hmem)⟩

section
variable (hvalid : Valid ops blocks budget admission) (hblock : blocks[index]? = some block)
include hvalid hblock

theorem offer_cases :
    offer ops blocks budget isCodePass admission index = admission ∨
      Offered ops budget isCodePass admission index block ∧
      offer ops blocks budget isCodePass admission index =
        taken ops budget admission index block := by
  rw [offer]
  cases admits_cases hvalid hblock with
  | inl h => exact .inl (by rw [h]; rfl)
  | inr h => exact .inr ⟨h.1, by rw [h.2]; rfl⟩

theorem admits_eq_offer :
    admits ops blocks budget isCodePass admission index =
      some (offer ops blocks budget isCodePass admission index) := by
  rw [offer]
  cases admits_cases hvalid hblock with
  | inl h => rw [h]; rfl
  | inr h => rw [h.2]; rfl

theorem valid_offer :
    Valid ops blocks budget (offer ops blocks budget isCodePass admission index) := by
  cases offer_cases hvalid hblock with
  | inl h => rwa [h]
  | inr h =>
    rw [h.2]
    exact valid_taken hvalid hblock h.1

end

/-- What holds before a pass and is kept where a block is taken holds behind it. -/
theorem pass_induction {P : Admission → Prop} (horder : ∀ index ∈ order, index < blocks.length)
    (hvalid : Valid ops blocks budget admission) (hstart : P admission)
    (hstep : ∀ admission index block, blocks[index]? = some block →
      Offered ops budget isCodePass admission index block → P admission →
        P (taken ops budget admission index block)) :
    Valid ops blocks budget (pass ops blocks budget isCodePass admission order) ∧
      P (pass ops blocks budget isCodePass admission order) := by
  induction order generalizing admission with
  | nil => exact ⟨hvalid, hstart⟩
  | cons index order ih =>
    obtain ⟨block, hblock⟩ := exists_block horder mem_cons_self
    refine ih (fun other hother => horder other (mem_cons_of_mem _ hother))
      (valid_offer hvalid hblock) ?_
    cases offer_cases hvalid hblock with
    | inl h => rwa [h]
    | inr h =>
      rw [h.2]
      exact hstep admission index block hblock h.1 hstart

section
variable (horder : ∀ index ∈ order, index < blocks.length)
  (hvalid : Valid ops blocks budget admission)
include horder hvalid

theorem valid_pass :
    Valid ops blocks budget (pass ops blocks budget isCodePass admission order) :=
  (pass_induction (P := fun _ => True) horder hvalid trivial fun _ _ _ _ _ _ => trivial).1

theorem cutsAtEnd_pass (hcuts : CutsAtEnd blocks budget admission) :
    CutsAtEnd blocks budget (pass ops blocks budget isCodePass admission order) :=
  (pass_induction horder hvalid hcuts fun _ _ _ hblock h hcuts =>
    cutsAtEnd_taken h.within hblock hcuts).2

/-- Only content is admitted. -/
theorem eligible_pass
    (h : ∀ index ∈ admission.admitted, (blocks[index]?).any (eligible ops) = true) :
    ∀ index ∈ (pass ops blocks budget isCodePass admission order).admitted,
      (blocks[index]?).any (eligible ops) = true := by
  refine (pass_induction (P := fun admission => ∀ index ∈ admission.admitted,
    (blocks[index]?).any (eligible ops) = true) horder hvalid h ?_).2
  intro admission first block hblock htaken h index hindex
  rw [taken_eq htaken.within] at hindex
  cases mem_append.mp hindex with
  | inl hold => exact h index hold
  | inr hnew =>
    rw [mem_singleton.mp hnew, hblock]
    exact (Bool.and_eq_true_iff.mp htaken.takesPart).1

/-- The first pass. -/
theorem foldlM_admits :
    order.foldlM (admits ops blocks budget isCodePass) admission =
      some (pass ops blocks budget isCodePass admission order) := by
  induction order generalizing admission with
  | nil => rfl
  | cons index order ih =>
    obtain ⟨block, hblock⟩ := exists_block horder mem_cons_self
    rw [foldlM_cons, admits_eq_offer hvalid hblock, bind_eq_bind, bind_some]
    exact ih (fun other hother => horder other (mem_cons_of_mem _ hother))
      (valid_offer hvalid hblock)

end

theorem offer_of_full (hfull : budget ≤ admission.used) :
    offer ops blocks budget isCodePass admission index = admission := by
  rw [offer, admits, if_pos hfull]
  rfl

theorem pass_of_full (hfull : budget ≤ admission.used) :
    pass ops blocks budget isCodePass admission order = admission := by
  induction order with
  | nil => rfl
  | cons index order ih =>
    rw [pass, foldl_cons, offer_of_full hfull]
    exact ih

/-- The second pass; where it stops early, nothing would have changed any more. -/
theorem generalPass_eq (horder : ∀ index ∈ order, index < blocks.length)
    (hvalid : Valid ops blocks budget admission) :
    generalPass ops blocks budget admission order =
      some (pass ops blocks budget false admission order) := by
  induction order generalizing admission with
  | nil => rfl
  | cons index order ih =>
    rw [generalPass]
    by_cases hfull : budget ≤ admission.used
    · rw [if_pos hfull, pass_of_full hfull]
    · obtain ⟨block, hblock⟩ := exists_block horder mem_cons_self
      rw [if_neg hfull, admits_eq_offer hvalid hblock, bind_eq_bind, bind_some]
      exact ih (fun other hother => horder other (mem_cons_of_mem _ hother))
        (valid_offer hvalid hblock)

/-! ## The duplicate filter -/

variable (ops blocks budget) in
/-- The duplicate filter turns away a block that would be taken otherwise. -/
def turnedAway (isCodePass : Bool) (admission : Admission) (index : ℕ) : Bool :=
  (blocks[index]?).any fun block =>
    decide (admission.used < budget) && takesPart ops isCodePass block &&
      (! isCodePass || decide (admission.codeUsed < codeReserve budget)) &&
      decide (index ∉ admission.admitted) && (signatureOf ops block).any (· ∈ admission.seen)

theorem turnedAway_iff (hblock : blocks[index]? = some block) :
    turnedAway ops blocks budget isCodePass admission index = true ↔
      Offered ops budget isCodePass admission index block ∧
        ∃ signature ∈ signatureOf ops block, signature ∈ admission.seen := by
  have hany : ((signatureOf ops block).any (· ∈ admission.seen)) = true ↔
      ∃ signature ∈ signatureOf ops block, signature ∈ admission.seen := by
    cases signatureOf ops block <;> simp
  rw [turnedAway, hblock, any_some, Bool.and_eq_true, hany, Bool.and_eq_true,
    Bool.and_eq_true, Bool.and_eq_true, decide_eq_true_iff, decide_eq_true_iff, Bool.or_eq_true,
    Bool.not_eq_true', decide_eq_true_iff]
  refine and_congr_left fun _ => ?_
  constructor
  · intro ⟨⟨⟨hwithin, hpart⟩, hreserve⟩, hfresh⟩
    refine ⟨hwithin, fun hcode => hreserve.resolve_left ?_, hpart, hfresh⟩
    rw [hcode]
    nofun
  · intro h
    refine ⟨⟨⟨h.within, h.takesPart⟩, ?_⟩, h.fresh⟩
    cases isCodePass with
    | false => exact .inl rfl
    | true => exact .inr (h.reserve rfl)

variable (ops blocks budget)

/-- The blocks of a pass that the duplicate filter turns away. -/
def passRepeats (isCodePass : Bool) : Admission → List ℕ → List ℕ
  | _, [] => []
  | admission, index :: order =>
      (if turnedAway ops blocks budget isCodePass admission index then [index] else []) ++
        passRepeats isCodePass (offer ops blocks budget isCodePass admission index) order

/-! ## What a pass picks -/

def lengthAt (index : ℕ) : ℕ :=
  ((blocks[index]?).map fun block => block.text.length).getD 0

def signatureAt (index : ℕ) : Option Text :=
  (blocks[index]?).bind (signatureOf ops)

def partAt (isCodePass : Bool) (index : ℕ) : Bool :=
  (blocks[index]?).any (takesPart ops isCodePass)

/-- The indices of a list, as long as the lengths before them are below the limit. -/
def fillUp (limit : ℕ) : ℕ → List ℕ → List ℕ
  | _, [] => []
  | used, index :: order =>
      if used < limit then index :: fillUp limit (used + lengthAt blocks index) order else []

/-- A candidate of a pass takes part in it and was not admitted before. -/
def isCandidate (isCodePass : Bool) (admitted : List ℕ) (index : ℕ) : Bool :=
  partAt ops blocks isCodePass index && decide (index ∉ admitted)

def candidates (isCodePass : Bool) (admitted order : List ℕ) : List ℕ :=
  order.filter (isCandidate ops blocks isCodePass admitted)

def picks (isCodePass : Bool) (admission : Admission) (order : List ℕ) : List ℕ :=
  fillUp blocks (limit budget isCodePass) admission.used
    (candidates ops blocks isCodePass admission.admitted order)

/-- Nothing is turned away, and nothing is cut. -/
def CleanPass (isCodePass : Bool) (admission : Admission) (order : List ℕ) : Prop :=
  passRepeats ops blocks budget isCodePass admission order = [] ∧
    Uncut blocks (pass ops blocks budget isCodePass admission order).chosen

/-- What is picked fits, and no two of the blocks have the same signature. -/
def Fits (admission : Admission) (indices : List ℕ) : Prop :=
  admission.used + (indices.map (lengthAt blocks)).sum ≤ budget ∧
    (admission.seen ++ indices.filterMap (signatureAt ops blocks)).Nodup

variable {ops blocks budget}

theorem fillUp_of_full {limit used : ℕ} (h : limit ≤ used) (order : List ℕ) :
    fillUp blocks limit used order = [] := by
  cases order with
  | nil => rfl
  | cons index order => rw [fillUp, if_neg (Nat.not_lt.mpr h)]

theorem uncut_of_pass (horder : ∀ index ∈ order, index < blocks.length)
    (hvalid : Valid ops blocks budget admission)
    (h : Uncut blocks (pass ops blocks budget isCodePass admission order).chosen) :
    Uncut blocks admission.chosen := by
  induction order generalizing admission with
  | nil => exact h
  | cons index order ih =>
    obtain ⟨block, hblock⟩ := exists_block horder mem_cons_self
    have hoffer := ih (fun other hother => horder other (mem_cons_of_mem _ hother))
      (valid_offer hvalid hblock) h
    cases offer_cases hvalid hblock with
    | inl hidle => rwa [hidle] at hoffer
    | inr htaken =>
      rw [htaken.2] at hoffer
      exact ((uncut_taken_iff htaken.1.within hblock).mp hoffer).1

/-- The pass counts what it uses: the first pass for the code alone. -/
def Counts (isCodePass : Bool) (admission : Admission) : Prop :=
  isCodePass = true → admission.codeUsed = admission.used

theorem lt_limit_iff (hcounts : Counts isCodePass admission) :
    admission.used < limit budget isCodePass ↔
      admission.used < budget ∧ (isCodePass = true → admission.codeUsed < codeReserve budget) := by
  have hle := @codeReserve_le budget
  cases isCodePass with
  | false => simp [limit]
  | true =>
    have hcode := hcounts rfl
    simp only [limit, if_true, hcode, forall_const]
    omega

theorem counts_taken (hcounts : Counts isCodePass admission)
    (h : Offered ops budget isCodePass admission index block) :
    Counts isCodePass (taken ops budget admission index block) := by
  intro hcode
  have hkind : block.kind = .code := by
    have hpart := h.takesPart
    rw [hcode, takesPart, Bool.and_eq_true] at hpart
    simpa using hpart.2
  rw [taken_eq h.within]
  show (if block.kind = .code then _ else _) = _
  rw [if_pos hkind, hcounts hcode]

theorem offered_iff (hcounts : Counts isCodePass admission) (hblock : blocks[index]? = some block) :
    Offered ops budget isCodePass admission index block ↔
      admission.used < limit budget isCodePass ∧
        isCandidate ops blocks isCodePass admission.admitted index = true := by
  rw [lt_limit_iff hcounts, isCandidate, Bool.and_eq_true, decide_eq_true_iff, partAt, hblock, any_some]
  exact ⟨fun h => ⟨⟨h.within, h.reserve⟩, h.takesPart, h.fresh⟩,
    fun h => ⟨h.1.1, h.1.2, h.2.1, h.2.2⟩⟩

theorem candidates_taken (hfresh : index ∉ order) :
    candidates ops blocks isCodePass (admission.admitted ++ [index]) order =
      candidates ops blocks isCodePass admission.admitted order := by
  refine filter_congr fun other hother => ?_
  have hne : other ≠ index := fun h => hfresh (h ▸ hother)
  simp [isCandidate, hne]

/-- An index that is not offered is not picked. -/
theorem picks_idle (hcounts : Counts isCodePass admission) (hblock : blocks[index]? = some block)
    (h : ¬ Offered ops budget isCodePass admission index block) :
    picks ops blocks budget isCodePass admission (index :: order) =
      picks ops blocks budget isCodePass admission order := by
  rw [offered_iff hcounts hblock] at h
  rw [picks, picks]
  by_cases hlimit : admission.used < limit budget isCodePass
  · rw [candidates, filter_cons_of_neg fun hpart => h ⟨hlimit, hpart⟩]
    rfl
  · rw [fillUp_of_full (Nat.le_of_not_lt hlimit), fillUp_of_full (Nat.le_of_not_lt hlimit)]

/-- An index that is offered is picked. -/
theorem picks_offered (hcounts : Counts isCodePass admission) (hblock : blocks[index]? = some block)
    (h : Offered ops budget isCodePass admission index block) :
    picks ops blocks budget isCodePass admission (index :: order) =
      index :: fillUp blocks (limit budget isCodePass) (admission.used + lengthAt blocks index)
        (candidates ops blocks isCodePass admission.admitted order) := by
  obtain ⟨hlimit, hpart⟩ := (offered_iff hcounts hblock).mp h
  rw [picks, candidates, filter_cons_of_pos hpart, fillUp, if_pos hlimit]
  rfl

theorem lengthAt_eq (hblock : blocks[index]? = some block) :
    lengthAt blocks index = block.text.length := by
  rw [lengthAt, hblock]
  rfl

theorem signatureAt_eq (hblock : blocks[index]? = some block) :
    signatureAt ops blocks index = signatureOf ops block := by
  rw [signatureAt, hblock]
  rfl

theorem filterMap_cons_signature {indices : List ℕ} (hblock : blocks[index]? = some block) :
    (index :: indices).filterMap (signatureAt ops blocks) =
      (signatureOf ops block).toList ++ indices.filterMap (signatureAt ops blocks) := by
  rw [filterMap_cons, signatureAt_eq hblock]
  cases signatureOf ops block <;> rfl

theorem cleanPass_cons : CleanPass ops blocks budget isCodePass admission (index :: order) ↔
      turnedAway ops blocks budget isCodePass admission index = false ∧
        CleanPass ops blocks budget isCodePass
          (offer ops blocks budget isCodePass admission index) order := by
  rw [CleanPass, CleanPass, passRepeats, append_eq_nil_iff, and_assoc]
  refine and_congr ?_ Iff.rfl
  cases turnedAway ops blocks budget isCodePass admission index <;> simp

/-- What is picked behind a block that is taken whole fits beside it. -/
theorem fits_taken_iff {indices : List ℕ} (hblock : blocks[index]? = some block)
    (hwithin : admission.used < budget) (hwhole : admission.used + block.text.length ≤ budget) :
    Fits ops blocks budget admission (index :: indices) ↔
      Fits ops blocks budget (taken ops budget admission index block) indices := by
  have hkeep : keepOf budget admission block = block.text.length := by
    rw [keepOf]
    omega
  rw [taken_eq hwithin, hkeep, Fits, Fits, filterMap_cons_signature hblock, ← append_assoc,
    map_cons, sum_cons, lengthAt_eq hblock, ← Nat.add_assoc]

theorem picks_taken (hcounts : Counts isCodePass admission) (hblock : blocks[index]? = some block)
    (h : Offered ops budget isCodePass admission index block)
    (hwhole : admission.used + block.text.length ≤ budget) (hfresh : index ∉ order) :
    picks ops blocks budget isCodePass admission (index :: order) =
      index :: picks ops blocks budget isCodePass (taken ops budget admission index block) order := by
  have hkeep : keepOf budget admission block = block.text.length := by
    rw [keepOf]
    omega
  rw [picks_offered hcounts hblock h, lengthAt_eq hblock, taken_eq h.within, hkeep, picks,
    candidates_taken hfresh]

/-- A pass is clean exactly if what it picks fits, and then it takes just that. -/
theorem cleanPass_iff (horder : ∀ index ∈ order, index < blocks.length)
    (hnodup : order.Nodup) (hvalid : Valid ops blocks budget admission)
    (huncut : Uncut blocks admission.chosen) (hcounts : Counts isCodePass admission)
    (hseen : admission.seen.Nodup) :
    (CleanPass ops blocks budget isCodePass admission order ↔
        Fits ops blocks budget admission (picks ops blocks budget isCodePass admission order)) ∧
      (CleanPass ops blocks budget isCodePass admission order →
        (pass ops blocks budget isCodePass admission order).admitted =
          admission.admitted ++ picks ops blocks budget isCodePass admission order) := by
  induction order generalizing admission with
  | nil =>
    have hfits : Fits ops blocks budget admission (picks ops blocks budget isCodePass admission []) :=
      ⟨hvalid.used_le, by simpa [picks, candidates, fillUp] using hseen⟩
    exact ⟨iff_of_true ⟨rfl, huncut⟩ hfits, fun _ => (append_nil _).symm⟩
  | cons index order ih =>
    obtain ⟨block, hblock⟩ := exists_block horder mem_cons_self
    have hrest : ∀ other ∈ order, other < blocks.length :=
      fun other hother => horder other (mem_cons_of_mem _ hother)
    obtain ⟨hfresh, hnodup⟩ := nodup_cons.mp hnodup
    have hpass : pass ops blocks budget isCodePass admission (index :: order) =
        pass ops blocks budget isCodePass
          (offer ops blocks budget isCodePass admission index) order := rfl
    rw [cleanPass_cons, hpass]
    by_cases hoffered : Offered ops budget isCodePass admission index block
    · by_cases hrepeat : ∃ signature ∈ signatureOf ops block, signature ∈ admission.seen
      · -- the block is turned away, and its signature is there twice
        have hturned : turnedAway ops blocks budget isCodePass admission index = true :=
          (turnedAway_iff hblock).mpr ⟨hoffered, hrepeat⟩
        rw [hturned]
        refine ⟨iff_of_false (fun h => absurd h.1 (by nofun)) ?_, fun h => absurd h.1 (by nofun)⟩
        intro hfits
        obtain ⟨signature, hsignature, hmem⟩ := hrepeat
        have hdistinct := hfits.2
        rw [picks_offered hcounts hblock hoffered, filterMap_cons_signature hblock,
          mem_def.mp hsignature] at hdistinct
        exact (nodup_append.mp hdistinct).2.2 signature hmem signature mem_cons_self rfl
      · have hnew : ∀ signature ∈ signatureOf ops block, signature ∉ admission.seen :=
          fun signature hsignature hmem => hrepeat ⟨signature, hsignature, hmem⟩
        have hoffer : offer ops blocks budget isCodePass admission index =
            taken ops budget admission index block := by
          rw [offer, admits_taken hblock hoffered hnew]
          rfl
        have hkept : turnedAway ops blocks budget isCodePass admission index = false := by
          rw [Bool.eq_false_iff]
          exact fun h => hrepeat ((turnedAway_iff hblock).mp h).2
        have hvalidTaken := valid_taken hvalid hblock hoffered
        rw [hoffer, hkept, eq_self, true_and]
        by_cases hwhole : admission.used + block.text.length ≤ budget
        · have hseenTaken : (taken ops budget admission index block).seen.Nodup := by
            rw [taken_eq hoffered.within]
            refine nodup_append.mpr ⟨hseen, ?_, ?_⟩
            · cases signatureOf ops block <;> simp
            · intro signature hmem other hother heq
              exact hnew other (mem_toList.mp hother) (heq ▸ hmem)
          have hadmitted : (taken ops budget admission index block).admitted =
              admission.admitted ++ [index] := by
            rw [taken_eq hoffered.within]
          have huncutTaken : Uncut blocks (taken ops budget admission index block).chosen :=
            (uncut_taken_iff hoffered.within hblock).mpr ⟨huncut, hwhole⟩
          obtain ⟨hiff, hlist⟩ := ih hrest hnodup hvalidTaken huncutTaken
            (counts_taken hcounts hoffered) hseenTaken
          rw [picks_taken hcounts hblock hoffered hwhole hfresh,
            fits_taken_iff hblock hoffered.within hwhole]
          refine ⟨hiff, fun hclean => ?_⟩
          rw [hlist hclean, hadmitted, append_assoc, singleton_append]
        · -- the block is cut, and it does not fit
          have hnot : ¬ CleanPass ops blocks budget isCodePass
              (taken ops budget admission index block) order := by
            intro hclean
            have hall := uncut_of_pass hrest hvalidTaken hclean.2
            exact hwhole ((uncut_taken_iff hoffered.within hblock).mp hall).2
          refine ⟨iff_of_false hnot ?_, fun hclean => absurd hclean hnot⟩
          intro hfits
          have hsum := hfits.1
          rw [picks_offered hcounts hblock hoffered, map_cons, sum_cons,
            lengthAt_eq hblock] at hsum
          omega
    · have hoffer : offer ops blocks budget isCodePass admission index = admission := by
        rw [offer, admits_idle hvalid.seen hblock hoffered]
        rfl
      have hkept : turnedAway ops blocks budget isCodePass admission index = false := by
        rw [Bool.eq_false_iff]
        exact fun h => hoffered ((turnedAway_iff hblock).mp h).1
      rw [hoffer, hkept, eq_self, true_and, picks_idle hcounts hblock hoffered]
      exact ih hrest hnodup hvalid huncut hcounts hseen

/-! ## Both passes -/

variable (ops blocks budget)

/-- The code blocks that the first pass reaches, in the order of the offers. -/
def codeFirst (order : List ℕ) : List ℕ :=
  fillUp blocks (codeReserve budget) 0 (order.filter (partAt ops blocks true))

/-- The blocks that are reached before the budget is used: code up to its reserve, then the rest. -/
def reached (order : List ℕ) : List ℕ :=
  let first := codeFirst ops blocks budget order
  first ++ fillUp blocks budget (first.map (lengthAt blocks)).sum
    (order.filter fun index => partAt ops blocks false index && decide (index ∉ first))

/-- The reached blocks fit into the budget, and no two of them have the same signature. -/
def ReachedFits (order : List ℕ) : Prop :=
  ((reached ops blocks budget order).map (lengthAt blocks)).sum ≤ budget ∧
    ((reached ops blocks budget order).filterMap (signatureAt ops blocks)).Nodup

def codePass (order : List ℕ) : Admission :=
  pass ops blocks budget true Admission.start order

def bothPasses (order : List ℕ) : Admission :=
  pass ops blocks budget false (codePass ops blocks budget order) order

/-- The blocks that the duplicate filter turns away. -/
def repeats (order : List ℕ) : List ℕ :=
  passRepeats ops blocks budget true Admission.start order ++
    passRepeats ops blocks budget false (codePass ops blocks budget order) order

variable {ops blocks budget}

theorem used_eq (hvalid : Valid ops blocks budget admission) (huncut : Uncut blocks admission.chosen) :
    admission.used = (admission.admitted.map (lengthAt blocks)).sum := by
  rw [hvalid.used, ← hvalid.indices, List.map_map]
  refine congrArg sum (map_congr_left fun entry hentry => ?_)
  obtain ⟨block, hblock, hle⟩ := hvalid.inBounds entry hentry
  rw [Function.comp_apply, lengthAt_eq hblock]
  exact Nat.le_antisymm hle (huncut entry hentry block hblock)

theorem picks_start (order : List ℕ) :
    picks ops blocks budget true Admission.start order = codeFirst ops blocks budget order := by
  have hfilter : candidates ops blocks true [] order = order.filter (partAt ops blocks true) :=
    filter_congr fun index _ => by simp [isCandidate]
  rw [picks, codeFirst, ← hfilter]
  rfl

section Both
variable {order : List ℕ}

section
variable (horder : ∀ index ∈ order, index < blocks.length)
include horder

theorem valid_codePass :
    Valid ops blocks budget (codePass ops blocks budget order) :=
  valid_pass horder valid_start

theorem valid_bothPasses :
    Valid ops blocks budget (bothPasses ops blocks budget order) :=
  valid_pass horder (valid_codePass horder)

theorem cutsAtEnd_bothPasses :
    CutsAtEnd blocks budget (bothPasses ops blocks budget order) :=
  cutsAtEnd_pass horder (valid_codePass horder)
    (cutsAtEnd_pass horder valid_start (.inl nofun))

theorem codePass_clean (hnodup : order.Nodup) :
    (CleanPass ops blocks budget true Admission.start order ↔
        Fits ops blocks budget Admission.start (codeFirst ops blocks budget order)) ∧
      (CleanPass ops blocks budget true Admission.start order →
        (codePass ops blocks budget order).admitted = codeFirst ops blocks budget order) := by
  have h := @cleanPass_iff W ops blocks budget true Admission.start order horder hnodup valid_start
    nofun (fun _ => rfl) nodup_nil
  rw [picks_start] at h
  exact h

end

section
variable (hvalid : Valid ops blocks budget (codePass ops blocks budget order))
  (huncut : Uncut blocks (codePass ops blocks budget order).chosen)
  (hadmitted : (codePass ops blocks budget order).admitted = codeFirst ops blocks budget order)
include hvalid huncut hadmitted

/-- What the second pass picks is the rest of what is reached. -/
theorem reached_eq :
    reached ops blocks budget order = (codePass ops blocks budget order).admitted ++
      picks ops blocks budget false (codePass ops blocks budget order) order := by
  rw [reached, picks, used_eq hvalid huncut, hadmitted]
  rfl

theorem fits_codePass_iff :
    Fits ops blocks budget (codePass ops blocks budget order)
        (picks ops blocks budget false (codePass ops blocks budget order) order) ↔
      ReachedFits ops blocks budget order := by
  have hseen : (codePass ops blocks budget order).seen =
      (codePass ops blocks budget order).admitted.filterMap (signatureAt ops blocks) := hvalid.seen
  rw [ReachedFits, reached_eq hvalid huncut hadmitted, Fits, used_eq hvalid huncut, hseen,
    map_append, sum_append, filterMap_append]

end

/-- Both passes are clean exactly if what is reached fits, and then just that is taken. -/
theorem bothPasses_clean (horder : ∀ index ∈ order, index < blocks.length) (hnodup : order.Nodup) :
    (repeats ops blocks budget order = [] ∧
        Uncut blocks (bothPasses ops blocks budget order).chosen ↔
      ReachedFits ops blocks budget order) ∧
      (ReachedFits ops blocks budget order →
        (bothPasses ops blocks budget order).admitted = reached ops blocks budget order) := by
  obtain ⟨hfirst, hfirstAdmitted⟩ := @codePass_clean W ops blocks budget order horder hnodup
  have hvalid : Valid ops blocks budget (codePass ops blocks budget order) := valid_codePass horder
  have hboth : (repeats ops blocks budget order = [] ∧
      Uncut blocks (bothPasses ops blocks budget order).chosen) ↔
      CleanPass ops blocks budget true Admission.start order ∧
        CleanPass ops blocks budget false (codePass ops blocks budget order) order := by
    rw [repeats, append_eq_nil_iff]
    constructor
    · intro ⟨⟨hnone, hnoneLater⟩, huncut⟩
      exact ⟨⟨hnone, uncut_of_pass horder hvalid huncut⟩, hnoneLater, huncut⟩
    · intro ⟨hclean, hcleanLater⟩
      exact ⟨⟨hclean.1, hcleanLater.1⟩, hcleanLater.2⟩
  rw [hboth]
  by_cases hclean : CleanPass ops blocks budget true Admission.start order
  · have hadmitted := hfirstAdmitted hclean
    have hseen : (codePass ops blocks budget order).seen.Nodup := by
      have hdistinct := (hfirst.mp hclean).2
      have hsame : (codePass ops blocks budget order).seen =
          (codeFirst ops blocks budget order).filterMap (signatureAt ops blocks) := by
        rw [hvalid.seen, hadmitted]
        rfl
      rw [hsame]
      exact hdistinct
    obtain ⟨hlater, hlaterAdmitted⟩ := @cleanPass_iff W ops blocks budget false
      (codePass ops blocks budget order) order horder hnodup hvalid hclean.2 nofun hseen
    rw [fits_codePass_iff hvalid hclean.2 hadmitted] at hlater
    refine ⟨⟨fun h => hlater.mp h.2, fun h => ⟨hclean, hlater.mpr h⟩⟩, fun h => ?_⟩
    rw [reached_eq hvalid hclean.2 hadmitted]
    exact hlaterAdmitted (hlater.mpr h)
  · have hnot : ¬ ReachedFits ops blocks budget order := by
      intro h
      refine hclean (hfirst.mpr ⟨?_, ?_⟩)
      · have hsum := h.1
        rw [reached, map_append, sum_append] at hsum
        exact (Nat.zero_add _).symm ▸ (Nat.le_add_right _ _).trans hsum
      · have hdistinct := h.2
        rw [reached, filterMap_append] at hdistinct
        exact (nodup_append.mp hdistinct).1
    exact ⟨iff_of_false (fun h => hclean h.1) hnot, fun h => absurd h hnot⟩

end Both

end Offers

/-! ## The order -/

section Order
variable {W : Type} {ops : PageOps W} {blocks : List (TextBlock W)} {queryTerms : List Text}

theorem scored_indices : (scored ops blocks queryTerms).map Prod.fst = List.range blocks.length := by
  rw [scored, List.map_map]
  exact (zipIdx_map_snd 0 blocks).trans range_eq_range'.symm

theorem mem_foldl_order {order : List ℕ} {entries : List (ℕ × W)} {index : ℕ}
    (h : index ∈ entries.foldl
      (fun order entry => if entry.1 ∈ order then order else order ++ [entry.1]) order) :
    index ∈ order ∨ index ∈ entries.map Prod.fst := by
  induction entries generalizing order with
  | nil => exact .inl h
  | cons entry entries ih =>
    rw [map_cons, mem_cons]
    cases ih h with
    | inr hlater => exact .inr (.inr hlater)
    | inl hnow =>
      have hnow : index ∈ if entry.1 ∈ order then order else order ++ [entry.1] := hnow
      split_ifs at hnow with hmem
      · exact .inl hnow
      · cases mem_append.mp hnow with
        | inl hold => exact .inl hold
        | inr hnew => exact .inr (.inl (mem_singleton.mp hnew))

theorem nodup_foldl_order {order : List ℕ} (horder : order.Nodup) (entries : List (ℕ × W)) :
    (entries.foldl (fun order entry => if entry.1 ∈ order then order else order ++ [entry.1])
      order).Nodup := by
  induction entries generalizing order with
  | nil => exact horder
  | cons entry entries ih =>
    refine ih ?_
    show (if entry.1 ∈ order then order else order ++ [entry.1]).Nodup
    split_ifs with hmem
    · exact horder
    · exact nodup_append.mpr ⟨horder, nodup_singleton _, fun a ha b hb heq =>
        hmem (mem_singleton.mp hb ▸ heq ▸ ha)⟩

theorem lt_of_mem_order {index : ℕ} (h : index ∈ selectionOrder ops blocks queryTerms) :
    index < blocks.length := by
  rw [← mem_range, ← @scored_indices W ops blocks queryTerms]
  cases mem_foldl_order h with
  | inl hfirst => exact (take_sublist 2 _).map _ |>.subset hfirst
  | inr hscore => exact ((mergeSort_perm _ _).map _).mem_iff.mp hscore

theorem selectionOrder_nodup : (selectionOrder ops blocks queryTerms).Nodup := by
  refine nodup_foldl_order ?_ _
  refine ((take_sublist 2 _).map _).nodup ?_
  rw [scored_indices]
  exact nodup_range

end Order

end CodeSeeX.Web
