import CodeSeeX.Proxy.PageSelection

/-!
# What a page selection reports

The chosen blocks are emitted in page order with what was skipped before each. What is kept and
what is omitted should add up to the page; what follows the last chosen block is not counted.
-/
namespace CodeSeeX.Web
open List Option Prod

/-! ## What is reported -/

section Emitting
variable {W : Type} {blocks : List (TextBlock W)}

/-- The text of a chosen block, as it is sent. -/
def sentText (block : TextBlock W) (keep : ℕ) : Text :=
  if block.text.length ≤ keep then block.text else truncateChars block.text keep

theorem length_sentText (block : TextBlock W) {keep : ℕ} (h : keep ≤ block.text.length) :
    keep ≤ (sentText block keep).length ∧
      ((sentText block keep).length = keep ↔ block.text.length ≤ keep) := by
  rw [sentText]
  by_cases hwhole : block.text.length ≤ keep
  · rw [if_pos hwhole]
    omega
  · rw [if_neg hwhole, truncateChars, if_neg hwhole]
    simp only [length_append, length_take, length_singleton]
    omega

/-- The first index that may come next. -/
def nextIndex : Option ℕ → ℕ
  | some previous => previous + 1
  | none => 0

/-- Where the last of the chosen blocks ends. -/
def endIndex (previous : Option ℕ) (chosen : List (ℕ × ℕ)) : ℕ :=
  nextIndex ((chosen.getLast?.map Prod.fst).or previous)

theorem slice_eq {start stop : ℕ} (h : start ≤ stop) (hstop : stop ≤ blocks.length) :
    slice blocks start stop = some ((blocks.take stop).drop start) := if_pos ⟨h, hstop⟩

theorem length_slice {start stop : ℕ} (hstop : stop ≤ blocks.length) :
    ((blocks.take stop).drop start).length = stop - start := by
  rw [length_drop, length_take, Nat.min_eq_left hstop]

/-- Chosen blocks in page order are emitted, each with what was skipped before it. -/
theorem emit_spec {previous : Option ℕ} {chosen : List (ℕ × ℕ)}
    (hsorted : (chosen.map Prod.fst).Pairwise (· < ·))
    (hstart : ∀ entry ∈ chosen, nextIndex previous ≤ entry.1)
    (hblocks : ∀ entry ∈ chosen, entry.1 < blocks.length) :
    ∃ selected, emit blocks previous chosen = some selected ∧ selected.length = chosen.length ∧
      List.Forall₂ (fun (entry : ℕ × ℕ) (block : SelectedBlock) =>
        ∃ source, blocks[entry.1]? = some source ∧ block.text = sentText source entry.2) chosen selected ∧
      (selected.map SelectedBlock.skippedBlocks).sum + selected.length + nextIndex previous =
        endIndex previous chosen := by
  induction chosen generalizing previous with
  | nil => exact ⟨[], rfl, rfl, Forall₂.nil, Nat.zero_add _⟩
  | cons entry chosen ih =>
    obtain ⟨index, keep⟩ := entry
    rw [map_cons, pairwise_cons] at hsorted
    have hfirst : nextIndex previous ≤ index := hstart _ mem_cons_self
    have hlength : index < blocks.length := hblocks _ mem_cons_self
    have hlater : ∀ entry ∈ chosen, nextIndex (some index) ≤ entry.1 :=
      fun entry hentry => hsorted.1 entry.1 (mem_map_of_mem hentry)
    obtain ⟨selected, hemit, hcount, htexts, hsum⟩ := ih hsorted.2 hlater
      fun entry hentry => hblocks entry (mem_cons_of_mem _ hentry)
    have hslice : skippedBefore blocks previous index =
        some ((blocks.take index).drop (nextIndex previous)) := by
      cases previous with
      | none => exact slice_eq hfirst (Nat.le_of_lt hlength)
      | some previous => exact slice_eq hfirst (Nat.le_of_lt hlength)
    have hblock := getElem?_eq_getElem hlength
    rw [emit, hblock, hslice, hemit]
    refine ⟨_, rfl, congrArg Nat.succ hcount, Forall₂.cons ⟨_, hblock, rfl⟩ htexts, ?_⟩
    have hend : endIndex previous ((index, keep) :: chosen) = endIndex (some index) chosen := by
      rw [endIndex, endIndex, getLast?_cons]
      cases chosen.getLast? <;> rfl
    rw [hend, ← hsum, map_cons, sum_cons, length_slice (Nat.le_of_lt hlength),
      length_cons]
    show index - nextIndex previous + _ + _ + nextIndex previous = _ + _ + (index + 1)
    omega

end Emitting

/-! ## The accounts -/

section Accounts
variable {W : Type} {ops : PageOps W} {blocks : List (TextBlock W)} {budget : ℕ}
  {chosen : List (ℕ × ℕ)}

/-- The blocks that the duplicate filter lets pass. -/
def passed (ops : PageOps W) (blocks : List (TextBlock W)) (budget : ℕ) (order : List ℕ) :
    List (TextBlock W) :=
  (blocks.zipIdx.filter fun entry => entry.2 ∉ repeats ops blocks budget order).map Prod.fst

/-- The indices increase, the text fits the budget, and what is kept and what is reported as
omitted add up to the blocks that passed the duplicate filter. -/
structure Accounts (chosen : List (ℕ × ℕ)) (selection : Selection) (passed : List (TextBlock W))
    (budget : ℕ) : Prop where
  increasing : (chosen.map Prod.fst).Pairwise (· < ·)
  within : selection.keptChars ≤ budget
  blocks : selection.blocks.length + selection.omittedBlocks = passed.length
  chars : selection.keptChars + selection.omittedChars = charsOf passed

/-! ### Repeats -/

theorem mem_passRepeats {isCodePass : Bool} {admission : Admission} {order : List ℕ} {index : ℕ}
    (h : index ∈ passRepeats ops blocks budget isCodePass admission order) :
    ∃ block, blocks[index]? = some block ∧ minRepeatChars ≤ block.text.length := by
  induction order generalizing admission with
  | nil => exact absurd h not_mem_nil
  | cons first order ih =>
    cases mem_append.mp h with
    | inr hlater => exact ih hlater
    | inl hnow =>
      split_ifs at hnow with hturned
      · obtain rfl := mem_singleton.mp hnow
        cases hblock : blocks[index]? with
        | none =>
          rw [turnedAway, hblock] at hturned
          exact absurd hturned Bool.false_ne_true
        | some block =>
          obtain ⟨signature, hsignature, -⟩ := ((turnedAway_iff hblock).mp hturned).2
          refine ⟨block, rfl, ?_⟩
          rw [signatureOf, repeatedBlockSignature] at hsignature
          by_contra hshort
          rw [if_pos (Nat.lt_of_not_le hshort)] at hsignature
          cases hsignature
      · exact absurd hnow not_mem_nil

theorem mem_repeats {order : List ℕ} {index : ℕ} (h : index ∈ repeats ops blocks budget order) :
    ∃ block, blocks[index]? = some block ∧ minRepeatChars ≤ block.text.length := by
  cases mem_append.mp h with
  | inl hfirst => exact mem_passRepeats hfirst
  | inr hlater => exact mem_passRepeats hlater

theorem passed_of_no_repeats {order : List ℕ} (h : repeats ops blocks budget order = []) :
    passed ops blocks budget order = blocks := by
  rw [passed, h]
  simp [zipIdx_map_fst]

/-- A block that is turned away has characters that are missed. -/
theorem charsOf_passed_lt {order : List ℕ} (h : repeats ops blocks budget order ≠ []) :
    charsOf (passed ops blocks budget order) < charsOf blocks := by
  obtain ⟨index, hindex⟩ := exists_mem_of_ne_nil _ h
  obtain ⟨block, hblock, hlong⟩ := mem_repeats hindex
  let chars : TextBlock W × ℕ → ℕ := fun entry => entry.1.text.length
  have htotal : charsOf blocks = (blocks.zipIdx.map chars).sum := by
    rw [charsOf]
    nth_rewrite 1 [← zipIdx_map_fst 0 blocks]
    rw [List.map_map]
    rfl
  have hpassed : charsOf (passed ops blocks budget order) =
      ((blocks.zipIdx.filter fun entry => entry.2 ∉ repeats ops blocks budget order).map chars).sum := by
    rw [charsOf, passed, List.map_map]
    rfl
  have hsplit := ((filter_append_perm
    (fun entry => decide (entry.2 ∉ repeats ops blocks budget order)) blocks.zipIdx).map chars).sum_eq
  rw [map_append, sum_append, ← hpassed, ← htotal] at hsplit
  have hmem : (block, index) ∈ blocks.zipIdx.filter
      fun entry => ! decide (entry.2 ∉ repeats ops blocks budget order) := by
    rw [mem_filter, mem_zipIdx_iff_getElem?]
    exact ⟨hblock, by simpa using hindex⟩
  have hchars := le_sum_of_mem (mem_map_of_mem (f := chars) hmem)
  have : chars (block, index) = block.text.length := rfl
  rw [minRepeatChars] at hlong
  omega

/-! ### Kept characters -/

/-- The characters of a chosen block, as it is sent. -/
def keptAt (blocks : List (TextBlock W)) (entry : ℕ × ℕ) : ℕ :=
  ((blocks[entry.1]?).map fun block => (sentText block entry.2).length).getD 0

theorem kept_iff {admission : Admission} (hvalid : Valid ops blocks budget admission)
    (hcuts : CutsAtEnd blocks budget admission) :
    (admission.chosen.map (keptAt blocks)).sum ≤ budget ↔ Uncut blocks admission.chosen := by
  have hle : ∀ entry ∈ admission.chosen, entry.2 ≤ keptAt blocks entry := by
    intro entry hentry
    obtain ⟨block, hblock, hkeep⟩ := hvalid.inBounds entry hentry
    rw [keptAt, hblock]
    exact (length_sentText block hkeep).1
  constructor
  · intro hsum
    by_contra hcut
    have hused := hcuts.resolve_left hcut
    rw [hvalid.used] at hused
    rw [Uncut] at hcut
    push Not at hcut
    obtain ⟨entry, hentry, block, hblock, hshort⟩ := hcut
    have hlt : (admission.chosen.map snd).sum < (admission.chosen.map (keptAt blocks)).sum := by
      refine sum_lt_sum snd (keptAt blocks) hle ⟨entry, hentry, ?_⟩
      have hspec := length_sentText block (Nat.le_of_lt hshort)
      have hkept : keptAt blocks entry = (sentText block entry.2).length := by
        rw [keptAt, hblock]
        rfl
      refine lt_of_le_of_ne (hle entry hentry) fun heq => ?_
      exact Nat.not_lt.mpr (hspec.2.mp (hkept.symm.trans heq.symm)) hshort
    omega
  · intro huncut
    have hsame : admission.chosen.map (keptAt blocks) = admission.chosen.map snd := by
      refine map_congr_left fun entry hentry => ?_
      obtain ⟨block, hblock, hkeep⟩ := hvalid.inBounds entry hentry
      rw [keptAt, hblock]
      exact (length_sentText block hkeep).2.mpr (huncut entry hentry block hblock)
    rw [hsame, ← hvalid.used]
    exact hvalid.used_le

theorem map_lengthAt (blocks : List (TextBlock W)) :
    (range blocks.length).map (lengthAt blocks) = blocks.map fun block => block.text.length := by
  refine ext_getElem? fun i => ?_
  rw [getElem?_map, getElem?_map]
  by_cases hi : i < blocks.length
  · rw [getElem?_range hi, getElem?_eq_getElem hi, map_some, map_some,
      lengthAt_eq (getElem?_eq_getElem hi)]
  · have hrange : (range blocks.length)[i]? = none := by simpa using hi
    rw [hrange, getElem?_eq_none (Nat.le_of_not_lt hi)]
    rfl

/-- Whole blocks, each chosen once, have no more characters than the page. -/
theorem kept_le_charsOf {admission : Admission} (hvalid : Valid ops blocks budget admission)
    (huncut : Uncut blocks admission.chosen) :
    (admission.chosen.map (keptAt blocks)).sum ≤ charsOf blocks := by
  have hsame : admission.chosen.map (keptAt blocks) =
      (admission.chosen.map fst).map (lengthAt blocks) := by
    rw [List.map_map]
    refine map_congr_left fun entry hentry => ?_
    obtain ⟨block, hblock, hkeep⟩ := hvalid.inBounds entry hentry
    have hwhole := huncut entry hentry block hblock
    rw [Function.comp_apply, lengthAt_eq hblock, keptAt, hblock, map_some, getD_some,
      sentText, if_pos hwhole]
  have hsubset : admission.admitted ⊆ range blocks.length := by
    intro index hindex
    rw [← hvalid.indices] at hindex
    obtain ⟨entry, hentry, rfl⟩ := mem_map.mp hindex
    obtain ⟨block, hblock, -⟩ := hvalid.inBounds entry hentry
    exact mem_range.mpr (List.getElem?_eq_some_iff.mp hblock).1
  obtain ⟨indices, hperm, hsub⟩ := subperm_of_subset hvalid.nodup hsubset
  rw [hsame, hvalid.indices, ← (hperm.map (lengthAt blocks)).sum_eq, charsOf, ← map_lengthAt]
  exact (hsub.map (lengthAt blocks)).sum_le_sum fun _ _ => Nat.zero_le _

/-! ### Page order -/

theorem admission_eq (queryTerms : List Text) :
    admission ops blocks budget queryTerms =
      some (bothPasses ops blocks budget (selectionOrder ops blocks queryTerms)) := by
  have horder : ∀ index ∈ selectionOrder ops blocks queryTerms, index < blocks.length :=
    fun _ => lt_of_mem_order
  rw [admission, foldlM_admits horder valid_start, bind_eq_bind, bind_some]
  exact generalPass_eq horder (valid_codePass horder)

/-- In page order the indices increase: no block is chosen twice. -/
theorem sorted_increasing {admission : Admission} (hvalid : Valid ops blocks budget admission) :
    ((admission.chosen.mergeSort fun left right => decide (left.1 ≤ right.1)).map
      Prod.fst).Pairwise (· < ·) := by
  have hsorted : ((admission.chosen.mergeSort fun left right => decide (left.1 ≤ right.1)).map
      fst).Pairwise (· ≤ ·) := by
    rw [pairwise_map]
    refine (pairwise_mergeSort ?_ ?_ _).imp fun h => of_decide_eq_true h
    · intro a b c hab hbc
      exact decide_eq_true ((of_decide_eq_true hab).trans (of_decide_eq_true hbc))
    · intro a b
      rw [Bool.or_eq_true, decide_eq_true_iff, decide_eq_true_iff]
      exact Nat.le_total a.1 b.1
  have hnodup : ((admission.chosen.mergeSort fun left right => decide (left.1 ≤ right.1)).map
      fst).Nodup := by
    refine ((mergeSort_perm _ _).map _).nodup_iff.mpr ?_
    rw [hvalid.indices]
    exact hvalid.nodup
  exact (hsorted.and hnodup).imp fun h => lt_of_le_of_ne h.1 h.2

/-- The last block is among the chosen ones exactly if the chosen blocks end with the page. -/
theorem endIndex_eq_iff (hsorted : (chosen.map Prod.fst).Pairwise (· < ·))
    (hblocks : ∀ entry ∈ chosen, entry.1 < blocks.length) (hne : blocks ≠ []) :
    endIndex none chosen = blocks.length ↔ blocks.length - 1 ∈ chosen.map Prod.fst := by
  have hpos := length_pos_iff.mpr hne
  cases hlast : chosen.getLast? with
  | none =>
    rw [getLast?_eq_none_iff] at hlast
    subst hlast
    exact iff_of_false (Nat.ne_of_lt hpos) not_mem_nil
  | some last =>
    obtain ⟨front, rfl⟩ := getLast?_eq_some_iff.mp hlast
    have hbound := hblocks last (mem_append_right front mem_cons_self)
    rw [endIndex, hlast]
    show last.1 + 1 = blocks.length ↔ _
    rw [map_append, pairwise_append] at hsorted
    rw [map_append, mem_append, map_singleton, mem_singleton]
    constructor
    · intro h
      right
      omega
    · intro h
      cases h with
      | inr heq => omega
      | inl hfront =>
        have := hsorted.2.2 _ hfront last.1 (by simp)
        omega

theorem sum_texts {selected : List SelectedBlock}
    (h : List.Forall₂ (fun (entry : ℕ × ℕ) (block : SelectedBlock) =>
      ∃ source, blocks[entry.1]? = some source ∧ block.text = sentText source entry.2) chosen selected) :
    (selected.map fun block => block.text.length).sum = (chosen.map (keptAt blocks)).sum := by
  induction h with
  | nil => rfl
  | cons hblock _ ih =>
    obtain ⟨source, hsource, htext⟩ := hblock
    rw [map_cons, map_cons, sum_cons, sum_cons, ih, keptAt, hsource, htext]
    rfl

theorem chosen_bounds {admission : Admission} (hvalid : Valid ops blocks budget admission)
    (hperm : chosen.Perm admission.chosen) :
    ∀ entry ∈ chosen, entry.1 < blocks.length := by
  intro entry hentry
  obtain ⟨block, hblock, -⟩ := hvalid.inBounds entry (hperm.mem_iff.mp hentry)
  exact (List.getElem?_eq_some_iff.mp hblock).1

/-- The page's blocks are chosen, and nothing panics. -/
theorem selectBlocks_spec (ops : PageOps W) (budget : ℕ) (queryTerms : List Text) (hne : blocks ≠ []) :
    ∃ chosen selection, chosenBlocks ops blocks budget queryTerms = some chosen ∧
      selectBlocks ops blocks budget queryTerms = some selection ∧
      (chosen.map Prod.fst).Pairwise (· < ·) ∧
      chosen.Perm (bothPasses ops blocks budget (selectionOrder ops blocks queryTerms)).chosen ∧
      selection.keptChars = (chosen.map (keptAt blocks)).sum ∧
      selection.blocks.length + selection.omittedBlocks = endIndex none chosen ∧
      selection.omittedChars = charsOf blocks - selection.keptChars := by
  let admission := bothPasses ops blocks budget (selectionOrder ops blocks queryTerms)
  let chosen := admission.chosen.mergeSort fun left right => decide (left.1 ≤ right.1)
  have hvalid : Valid ops blocks budget admission := valid_bothPasses fun _ => lt_of_mem_order
  have hsorted : (chosen.map fst).Pairwise (· < ·) := sorted_increasing hvalid
  have hperm : chosen.Perm admission.chosen := mergeSort_perm _ _
  have hblocks := chosen_bounds hvalid hperm
  have hchosen : chosenBlocks ops blocks budget queryTerms = some chosen := by
    rw [chosenBlocks, admission_eq]
    rfl
  obtain ⟨selected, hemit, -, htexts, hsum⟩ :=
    @emit_spec W blocks none chosen hsorted (fun _ _ => Nat.zero_le _) hblocks
  let selection : Selection :=
    { blocks := selected
      keptChars := (selected.map fun block => block.text.length).sum
      omittedChars := charsOf blocks - (selected.map fun block => block.text.length).sum
      omittedBlocks := (selected.map SelectedBlock.skippedBlocks).sum }
  refine ⟨chosen, selection, hchosen, ?_, hsorted, hperm, sum_texts htexts, ?_, rfl⟩
  · rw [selectBlocks, if_neg hne, hchosen, bind_eq_bind, bind_some, hemit]
    rfl
  · rw [← hsum, nextIndex, Nat.add_zero]
    exact Nat.add_comm _ _

/-- Where the accounts are right, no block is turned away or cut, and the last one is chosen. -/
theorem Accounts.complete {queryTerms : List Text} {selection : Selection}
    (hchosen : chosenBlocks ops blocks budget queryTerms = some chosen)
    (hselection : selectBlocks ops blocks budget queryTerms = some selection)
    (h : Accounts chosen selection
      (passed ops blocks budget (selectionOrder ops blocks queryTerms)) budget)
    (hne : blocks ≠ []) :
    repeats ops blocks budget (selectionOrder ops blocks queryTerms) = [] ∧
      Uncut blocks (bothPasses ops blocks budget (selectionOrder ops blocks queryTerms)).chosen ∧
      blocks.length - 1 ∈
        (bothPasses ops blocks budget (selectionOrder ops blocks queryTerms)).admitted := by
  have horder : ∀ index ∈ selectionOrder ops blocks queryTerms, index < blocks.length :=
    fun _ => lt_of_mem_order
  have hvalid := @valid_bothPasses W ops blocks budget _ horder
  obtain ⟨other, sent, hother, hsent, hsorted, hperm, hkept, hcount, homitted⟩ :=
    selectBlocks_spec ops budget queryTerms hne
  obtain rfl : chosen = other := Option.some.inj (hchosen.symm.trans hother)
  obtain rfl : selection = sent := Option.some.inj (hselection.symm.trans hsent)
  have hnone : repeats ops blocks budget (selectionOrder ops blocks queryTerms) = [] := by
    by_contra hrepeats
    have hlt := charsOf_passed_lt hrepeats
    have hchars := h.chars
    omega
  refine ⟨hnone, ?_, ?_⟩
  · rw [← kept_iff hvalid (cutsAtEnd_bothPasses horder), ← (hperm.map (keptAt blocks)).sum_eq, ← hkept]
    exact h.within
  · have hbounds := chosen_bounds hvalid hperm
    have hblocks := h.blocks
    rw [passed_of_no_repeats hnone, hcount, endIndex_eq_iff hsorted hbounds hne,
      (hperm.map fst).mem_iff, hvalid.indices] at hblocks
    exact hblocks

/-- The accounts are right exactly if the blocks that are reached fit the budget, none repeats
another, and the last block of the page is among them. -/
theorem selectBlocks_accounts_iff (ops : PageOps W) (blocks : List (TextBlock W)) (budget : ℕ)
    (queryTerms : List Text) :
    (∃ chosen selection, chosenBlocks ops blocks budget queryTerms = some chosen ∧
        selectBlocks ops blocks budget queryTerms = some selection ∧
        Accounts chosen selection
          (passed ops blocks budget (selectionOrder ops blocks queryTerms)) budget) ↔
      blocks = [] ∨ (ReachedFits ops blocks budget (selectionOrder ops blocks queryTerms) ∧
        blocks.length - 1 ∈ reached ops blocks budget (selectionOrder ops blocks queryTerms)) := by
  have horder : ∀ index ∈ selectionOrder ops blocks queryTerms, index < blocks.length :=
    fun _ => lt_of_mem_order
  have hvalid := @valid_bothPasses W ops blocks budget _ horder
  obtain ⟨hclean, hreached⟩ :=
    @bothPasses_clean W ops blocks budget _ horder selectionOrder_nodup
  by_cases hne : blocks = []
  · subst hne
    refine iff_of_true ⟨_, _, by rw [chosenBlocks, admission_eq]; rfl, if_pos rfl, ?_⟩ (Or.inl rfl)
    exact
      { increasing := sorted_increasing hvalid
        within := Nat.zero_le _
        blocks := rfl
        chars := rfl }
  · constructor
    · intro ⟨chosen, selection, hchosen, hselection, haccounts⟩
      obtain ⟨hnone, huncut, hlast⟩ := haccounts.complete hchosen hselection hne
      have hfits := hclean.mp ⟨hnone, huncut⟩
      exact Or.inr ⟨hfits, hreached hfits ▸ hlast⟩
    · intro h
      obtain ⟨hfits, hlast⟩ := h.resolve_left hne
      obtain ⟨hnone, hwhole⟩ := hclean.mpr hfits
      obtain ⟨chosen, selection, hchosen, hselection, hsorted, hperm, hkept, hcount, homitted⟩ :=
        selectBlocks_spec ops budget queryTerms hne
      have hbounds := chosen_bounds hvalid hperm
      have hindex : blocks.length - 1 ∈ chosen.map fst := by
        rw [(hperm.map fst).mem_iff, hvalid.indices, hreached hfits]
        exact hlast
      have hsum := (hperm.map (keptAt blocks)).sum_eq
      have htotal : selection.keptChars ≤ charsOf blocks := by
        rw [hkept, hsum]
        exact kept_le_charsOf hvalid hwhole
      refine ⟨chosen, selection, hchosen, hselection, ?_⟩
      rw [passed_of_no_repeats hnone]
      exact
        { increasing := hsorted
          within := by
            rw [hkept, hsum]
            exact (kept_iff hvalid (cutsAtEnd_bothPasses horder)).mpr hwhole
          blocks := hcount.trans ((endIndex_eq_iff hsorted hbounds hne).mpr hindex)
          chars := by omega }

end Accounts

/-- Weights in hundredths, and the ASCII part of the tables. -/
def hundredths : PageOps ℕ where
  toLowercase := Text.toAsciiLowercase
  belowBar weight := weight < 50
  score weight hits := weight * (1 + 2 * hits)
  cmp := compare

/-- A paragraph and a footer. -/
def footerPage : List (TextBlock ℕ) :=
  [{ headingPath := [], text := "Use rustup.", kind := .prose, links := [], weight := 100
     boilerplate := false },
    { headingPath := [], text := "Imprint", kind := .prose, links := [], weight := 20
      boilerplate := true }]

/-- The footer behind the last chosen block is not reported as omitted. -/
theorem footerPage_omits_nothing :
    ¬ ∃ chosen selection, chosenBlocks hundredths footerPage 200 [] = some chosen ∧
      selectBlocks hundredths footerPage 200 [] = some selection ∧
      Accounts chosen selection
        (passed hundredths footerPage 200 (selectionOrder hundredths footerPage [])) 200 := by
  intro ⟨chosen, selection, hchosen, hselection, haccounts⟩
  have horder : ∀ index ∈ selectionOrder hundredths footerPage [], index < footerPage.length :=
    fun _ => lt_of_mem_order
  obtain ⟨-, -, hlast⟩ := haccounts.complete hchosen hselection (cons_ne_nil _ _)
  have hcontent := eligible_pass horder (valid_codePass horder)
    (eligible_pass horder valid_start nofun) _ hlast
  exact absurd hcontent (by decide)

end CodeSeeX.Web
