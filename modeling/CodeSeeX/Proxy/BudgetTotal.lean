import CodeSeeX.General.Filling
import CodeSeeX.Proxy.BudgetSelection

/-!
# The running total of the selection

The total counts the messages selected before the loop and the blocks that the loop
takes. The members that a partly selected block gains are not counted; they are the
hidden part of what is used. Everything else fills the budget block by block, from
the last block to the first.
-/
namespace CodeSeeX.Proxy.Budget

open Blocks Filling List

section Total

variable {messages : List ChatMessage} {maxBytes : ℕ} {blocks : List (List ℕ)}

/-- Some index of the block is selected. -/
def Meets (indexes : Finset ℕ) (block : List ℕ) : Prop := ∃ i ∈ block, i ∈ indexes

instance (indexes : Finset ℕ) (block : List ℕ) : Decidable (Meets indexes block) :=
  decidableBEx _ _

def blockBytes (messages : List ChatMessage) (block : List ℕ) : ℕ :=
  (block.map (bytesAt messages)).sum

/-- The indexes together with every block that they meet. -/
def closure (indexes : Finset ℕ) (blocks : List (List ℕ)) : Finset ℕ :=
  indexes ∪ (blocks.filter fun block => Meets indexes block).flatten.toFinset

def indexBytes (messages : List ChatMessage) (indexes : Finset ℕ) : ℕ :=
  ∑ i ∈ indexes, bytesAt messages i

variable {indexes : Finset ℕ}

theorem mem_closure {i : ℕ} : i ∈ closure indexes blocks ↔
      i ∈ indexes ∨ ∃ block ∈ blocks, Meets indexes block ∧ i ∈ block := by
  simp [closure, and_assoc]

variable {block : List ℕ} {selection : Selection}

theorem takeBlock_of_meets (h : Meets selection.indexes block) :
    takeBlock messages maxBytes selection block =
      { selection with indexes := selection.indexes ∪ block.toFinset } := by
  have hany : (block.any fun index => decide (index ∈ selection.indexes)) = true := by
    simpa [Meets] using h
  rw [takeBlock, if_pos hany]

theorem takeBlock_of_room (h : ¬ Meets selection.indexes block)
    (hroom : selection.totalBytes + blockBytes messages block ≤ maxBytes ∨
      selection.indexes = ∅) :
    takeBlock messages maxBytes selection block =
      { selection with
        indexes := selection.indexes ∪ block.toFinset
        totalBytes := selection.totalBytes + blockBytes messages block } := by
  have hany : ¬ (block.any fun index => decide (index ∈ selection.indexes)) = true := by
    simpa [Meets] using h
  rw [takeBlock, if_neg hany]
  exact if_pos hroom

theorem takeBlock_of_full (h : ¬ Meets selection.indexes block)
    (hfull : ¬ selection.totalBytes + blockBytes messages block ≤ maxBytes)
    (hne : selection.indexes ≠ ∅) :
    takeBlock messages maxBytes selection block =
      { selection with droppedBlocks := selection.droppedBlocks + 1 } := by
  have hany : ¬ (block.any fun index => decide (index ∈ selection.indexes)) = true := by
    simpa [Meets] using h
  rw [takeBlock, if_neg hany]
  exact if_neg (not_or.mpr ⟨hfull, hne⟩)

/-! ### Blocks apart from each other -/

theorem meets_union {block other : List ℕ} (h : block.Disjoint other) :
    Meets (indexes ∪ block.toFinset) other ↔ Meets indexes other := by
  constructor
  · rintro ⟨i, hi, hmem⟩
    rcases Finset.mem_union.mp hmem with hold | hnew
    · exact ⟨i, hi, hold⟩
    · exact absurd hi (h (mem_toFinset.mp hnew))
  · rintro ⟨i, hi, hmem⟩
    exact ⟨i, hi, Finset.mem_union_left _ hmem⟩

theorem filter_meets_union (h : ∀ other ∈ blocks, block.Disjoint other) :
    blocks.filter (fun other => Meets (indexes ∪ block.toFinset) other) =
      blocks.filter fun other => Meets indexes other := by
  apply filter_congr
  intro other hother
  simp [meets_union (h other hother)]

theorem closure_meets (h : ∀ other ∈ blocks, block.Disjoint other) (hmeets : Meets indexes block) :
    closure (indexes ∪ block.toFinset) blocks = closure indexes (block :: blocks) := by
  have hcons : (block :: blocks).filter (fun other => Meets indexes other) =
      block :: blocks.filter fun other => Meets indexes other := by
    simp [hmeets]
  simp only [closure, filter_meets_union h, hcons, flatten_cons, toFinset_append,
    Finset.union_assoc]

theorem closure_not_meets (hmeets : ¬ Meets indexes block) :
    closure indexes (block :: blocks) = closure indexes blocks := by
  simp [closure, hmeets]

/-- A block taken for its room adds its bytes to those of the closure. -/
theorem closureBytes_taken (hnodup : block.Nodup)
    (h : ∀ other ∈ blocks, block.Disjoint other) (hmeets : ¬ Meets indexes block) :
    indexBytes messages (closure (indexes ∪ block.toFinset) blocks) =
      indexBytes messages (closure indexes blocks) + blockBytes messages block := by
  have hunion : closure (indexes ∪ block.toFinset) blocks =
      closure indexes blocks ∪ block.toFinset := by
    simp only [closure, filter_meets_union h, Finset.union_right_comm]
  have hapart : Disjoint (closure indexes blocks) block.toFinset := by
    rw [Finset.disjoint_left]
    intro i hi hblock
    rw [mem_toFinset] at hblock
    rcases mem_closure.mp hi with hold | ⟨other, hother, _, hi'⟩
    · exact hmeets ⟨i, hblock, hold⟩
    · exact h other hother hblock hi'
  rw [indexBytes, hunion, Finset.sum_union hapart, sum_toFinset _ hnodup]
  rfl

/-! ### The whole loop -/

/-- The sizes offered by the blocks that are not selected in part. -/
def offeredBytes (messages : List ChatMessage) (indexes : Finset ℕ) (blocks : List (List ℕ)) :
    List ℕ :=
  (blocks.filter fun block => ¬ Meets indexes block).map (blockBytes messages)

theorem offeredBytes_union (h : ∀ other ∈ blocks, block.Disjoint other) :
    offeredBytes messages (indexes ∪ block.toFinset) blocks =
      offeredBytes messages indexes blocks := by
  unfold offeredBytes
  congr 1
  apply filter_congr
  intro other hother
  simp [meets_union (h other hother)]

/-- The loop fills the budget with the offered blocks; what it selects has the bytes of the
closure and those it added to the total. -/
theorem loop_totals (selection : Selection) (hdisjoint : blocks.Pairwise List.Disjoint)
    (hnodup : ∀ block ∈ blocks, block.Nodup) (hne : selection.indexes.Nonempty) :
    (blocks.foldl (takeBlock messages maxBytes) selection).totalBytes =
        fill maxBytes selection.totalBytes (offeredBytes messages selection.indexes blocks) ∧
      indexBytes messages (blocks.foldl (takeBlock messages maxBytes) selection).indexes +
          selection.totalBytes =
        indexBytes messages (closure selection.indexes blocks) +
          (blocks.foldl (takeBlock messages maxBytes) selection).totalBytes := by
  induction blocks generalizing selection with
  | nil => simp [offeredBytes, fill, closure]
  | cons block blocks ih =>
    rw [pairwise_cons] at hdisjoint
    rw [forall_mem_cons] at hnodup
    rw [foldl_cons]
    by_cases hmeets : Meets selection.indexes block
    · have hoffered : offeredBytes messages selection.indexes (block :: blocks) =
          offeredBytes messages selection.indexes blocks := by
        simp [offeredBytes, hmeets]
      rw [takeBlock_of_meets hmeets, hoffered, ← closure_meets hdisjoint.1 hmeets,
        ← offeredBytes_union hdisjoint.1]
      exact ih _ hdisjoint.2 hnodup.2 (hne.mono Finset.subset_union_left)
    · have hoffered : offeredBytes messages selection.indexes (block :: blocks) =
          blockBytes messages block :: offeredBytes messages selection.indexes blocks := by
        simp [offeredBytes, hmeets]
      rw [hoffered, fill, closure_not_meets hmeets]
      by_cases hroom : selection.totalBytes + blockBytes messages block ≤ maxBytes
      · rw [if_pos hroom, takeBlock_of_room hmeets (.inl hroom)]
        obtain ⟨htotal, hbytes⟩ := ih { selection with
          indexes := selection.indexes ∪ block.toFinset
          totalBytes := selection.totalBytes + blockBytes messages block }
          hdisjoint.2 hnodup.2 (hne.mono Finset.subset_union_left)
        rw [offeredBytes_union hdisjoint.1] at htotal
        rw [closureBytes_taken hnodup.1 hdisjoint.1 hmeets] at hbytes
        refine ⟨htotal, ?_⟩
        dsimp only at hbytes
        omega
      · rw [if_neg hroom, takeBlock_of_full hmeets hroom hne.ne_empty]
        exact ih _ hdisjoint.2 hnodup.2 hne

/-- Nothing is taken once the total is over the budget. -/
theorem loop_over_budget (hne : selection.indexes.Nonempty)
    (hover : maxBytes < selection.totalBytes)
    (hapart : ∀ block ∈ blocks, ¬ Meets selection.indexes block) :
    (blocks.foldl (takeBlock messages maxBytes) selection).indexes = selection.indexes := by
  induction blocks generalizing selection with
  | nil => rfl
  | cons block blocks ih =>
    rw [forall_mem_cons] at hapart
    rw [foldl_cons, takeBlock_of_full hapart.1 (by omega) hne.ne_empty]
    exact ih hne hover hapart.2

theorem blocks_apart (messages : List ChatMessage) :
    (messageBlocks 0 messages).reverse.Pairwise List.Disjoint ∧
      ∀ block ∈ (messageBlocks 0 messages).reverse, block.Nodup := by
  rw [pairwise_reverse, messageBlocks_eq_positions]
  refine ⟨positions_pairwise.imp List.Disjoint.symm, ?_⟩
  intro block hblock
  exact positions_nodup (mem_reverse.mp hblock)

/-- The bytes of what is picked, index by index. -/
theorem pickedBytes_from (indexes : Finset ℕ) (start : ℕ) (messages : List ChatMessage) :
    ((pick indexes start messages).map chatMessageJsonBytes).sum =
      ∑ i ∈ indexes.filter (start ≤ ·), bytesAt messages (i - start) := by
  induction messages generalizing start with
  | nil => simp [pick, bytesAt]
  | cons message messages ih =>
    have hlater : ∑ i ∈ indexes.filter (start + 1 ≤ ·), bytesAt (message :: messages) (i - start) =
        ((pick indexes (start + 1) messages).map chatMessageJsonBytes).sum := by
      rw [ih]
      apply Finset.sum_congr rfl
      intro i hi
      obtain ⟨k, rfl⟩ := Nat.exists_eq_add_of_le (Finset.mem_filter.mp hi).2
      have hk : start + 1 + k - start = k + 1 := by omega
      have hk' : start + 1 + k - (start + 1) = k := by omega
      rw [hk, hk']
      rfl
    by_cases hstart : start ∈ indexes
    · have hsplit : indexes.filter (start ≤ ·) =
          insert start (indexes.filter (start + 1 ≤ ·)) := by
        ext i
        simp only [Finset.mem_filter, Finset.mem_insert]
        constructor
        · intro h
          by_cases heq : i = start
          · exact .inl heq
          · exact .inr ⟨h.1, by omega⟩
        · rintro (rfl | h)
          · exact ⟨hstart, le_refl i⟩
          · exact ⟨h.1, by omega⟩
      rw [hsplit, Finset.sum_insert (by simp), hlater, pick, if_pos hstart, map_cons,
        sum_cons, Nat.sub_self]
      rfl
    · have hsame : indexes.filter (start ≤ ·) = indexes.filter (start + 1 ≤ ·) := by
        ext i
        simp only [Finset.mem_filter]
        refine and_congr_right fun hi => ?_
        have hne : i ≠ start := fun heq => hstart (heq ▸ hi)
        omega
      rw [hsame, hlater, pick, if_neg hstart]

theorem pickedBytes (indexes : Finset ℕ) (messages : List ChatMessage) :
    ((pick indexes 0 messages).map chatMessageJsonBytes).sum = indexBytes messages indexes := by
  simp [pickedBytes_from, indexBytes]

end Total

/-! ### The budget -/

variable (messages : List ChatMessage) (protectedStartIndex : ℕ)

/-- The messages kept whatever the budget, the calls that their results answer, and all of
every block that holds one of these. -/
def mandatoryClosure : Finset ℕ :=
  closure (firstSelection messages protectedStartIndex).indexes
    (messageBlocks 0 messages).reverse

/-- The bytes of the mandatory messages that the running total leaves out. -/
def hiddenBytes : ℕ :=
  indexBytes messages (mandatoryClosure messages protectedStartIndex) -
    (firstSelection messages protectedStartIndex).totalBytes

/-- The sizes of the blocks without a mandatory message, the last block first. -/
def optionalBytes : List ℕ :=
  offeredBytes messages (firstSelection messages protectedStartIndex).indexes
    (messageBlocks 0 messages).reverse

def chosenBytes (maxBytes : ℕ) : ℕ :=
  ((selectBudgetedMessageBlocks messages protectedStartIndex maxBytes).messages.map
    chatMessageJsonBytes).sum

theorem counted_add_hidden :
    (firstSelection messages protectedStartIndex).totalBytes +
        hiddenBytes messages protectedStartIndex =
      indexBytes messages (mandatoryClosure messages protectedStartIndex) := by
  apply Nat.add_sub_cancel'
  have hsub : (firstSelection messages protectedStartIndex).indexes ⊆
      mandatoryClosure messages protectedStartIndex := fun i hi => mem_closure.mpr (.inl hi)
  exact Finset.sum_le_sum_of_subset hsub

variable {messages}

theorem chosenBytes_eq {protectedStartIndex maxBytes : ℕ}
    (h : (firstSelection messages protectedStartIndex).indexes.Nonempty) :
    chosenBytes messages protectedStartIndex maxBytes =
      fill maxBytes (firstSelection messages protectedStartIndex).totalBytes
        (optionalBytes messages protectedStartIndex) +
          hiddenBytes messages protectedStartIndex := by
  obtain ⟨hdisjoint, hnodup⟩ := blocks_apart messages
  obtain ⟨htotal, hbytes⟩ := @loop_totals messages maxBytes _
    (firstSelection messages protectedStartIndex) hdisjoint hnodup h
  have hchosen : chosenBytes messages protectedStartIndex maxBytes =
      indexBytes messages (finalSelection messages protectedStartIndex maxBytes).indexes :=
    pickedBytes _ messages
  have hhidden := counted_add_hidden messages protectedStartIndex
  unfold mandatoryClosure at hhidden
  unfold optionalBytes
  rw [← htotal, hchosen, finalSelection]
  omega

/-- When something is mandatory the budget is kept exactly if the hidden bytes make no
difference to which blocks are taken. -/
theorem chosen_within_iff {protectedStartIndex maxBytes : ℕ}
    (hsome : (firstSelection messages protectedStartIndex).indexes.Nonempty)
    (hclosed : indexBytes messages (mandatoryClosure messages protectedStartIndex) ≤ maxBytes) :
    chosenBytes messages protectedStartIndex maxBytes ≤ maxBytes ↔
      Unaffected maxBytes (hiddenBytes messages protectedStartIndex)
        (firstSelection messages protectedStartIndex).totalBytes
        (optionalBytes messages protectedStartIndex) := by
  rw [chosenBytes_eq hsome]
  exact fill_within_iff (counted_add_hidden messages protectedStartIndex ▸ hclosed)

-- The hidden first result lets the earlier question in, past the budget.
example : indexBytes cutGroup (mandatoryClosure cutGroup 4) = 284 ∧
    chosenBytes cutGroup 4 300 = 331 := by decide +kernel

theorem block_nonempty (index : ℕ) (messages : List ChatMessage) :
    ∀ block ∈ messageBlocks index messages, block ≠ [] := by
  induction messages using messageGroups.induct generalizing index with
  | case1 => simp [messageBlocks]
  | case2 message rest results ih =>
    rw [messageBlocks, forall_mem_cons]
    exact ⟨by simp [range'_succ], ih _⟩

/-- With nothing mandatory the last block is taken whatever its size; it stands alone when it
is over the budget. -/
theorem chosen_without_mandatory {protectedStartIndex : ℕ}
    (maxBytes : ℕ) (hnone : (firstSelection messages protectedStartIndex).indexes = ∅) :
    chosenBytes messages protectedStartIndex maxBytes ≤ maxBytes ∨
      ∃ last, (messageBlocks 0 messages).getLast? = some last ∧
        (selectBudgetedMessageBlocks messages protectedStartIndex maxBytes).messages =
          pick last.toFinset 0 messages := by
  obtain ⟨hdisjoint, hnodup⟩ := blocks_apart messages
  have hchosen : chosenBytes messages protectedStartIndex maxBytes =
      indexBytes messages (finalSelection messages protectedStartIndex maxBytes).indexes :=
    pickedBytes _ messages
  cases hblocks : (messageBlocks 0 messages).reverse with
  | nil =>
    left
    rw [hchosen, finalSelection, hblocks, foldl_nil, hnone]
    exact Nat.zero_le _
  | cons last earlier =>
    rw [hblocks, pairwise_cons] at hdisjoint
    rw [hblocks, forall_mem_cons] at hnodup
    have hlast : (messageBlocks 0 messages).getLast? = some last := by
      rw [← head?_reverse, hblocks]
      rfl
    have hne : last ≠ [] := block_nonempty 0 messages last (mem_of_getLast? hlast)
    obtain ⟨taken, hfinal, hindexes, htotal⟩ : ∃ taken : Selection,
        finalSelection messages protectedStartIndex maxBytes =
            earlier.foldl (takeBlock messages maxBytes) taken ∧
          taken.indexes = last.toFinset ∧ taken.totalBytes = blockBytes messages last := by
      have hmeets : ¬ Meets (firstSelection messages protectedStartIndex).indexes last := by
        simp [Meets, hnone]
      have hzero : (firstSelection messages protectedStartIndex).totalBytes = 0 := by
        rw [firstSelection] at hnone ⊢
        simp only at hnone ⊢
        rw [hnone, Finset.sum_empty]
      refine ⟨takeBlock messages maxBytes (firstSelection messages protectedStartIndex) last,
        ?_, ?_, ?_⟩
      · rw [finalSelection, hblocks, foldl_cons]
      · rw [takeBlock_of_room hmeets (.inr hnone)]
        simp [hnone]
      · rw [takeBlock_of_room hmeets (.inr hnone)]
        simp [hzero]
    have htaken : taken.indexes.Nonempty := by
      rw [hindexes]
      exact toFinset_nonempty_iff last |>.mpr hne
    have hapart : ∀ block ∈ earlier, ¬ Meets taken.indexes block := by
      rintro block hblock ⟨i, hi, hmem⟩
      rw [hindexes, mem_toFinset] at hmem
      exact hdisjoint.1 block hblock hmem hi
    by_cases hroom : taken.totalBytes ≤ maxBytes
    · left
      obtain ⟨hfilled, hbytes⟩ := @loop_totals messages maxBytes _ taken hdisjoint.2 hnodup.2 htaken
      have hclosure : closure taken.indexes earlier = last.toFinset := by
        have hfilter : earlier.filter (fun block => Meets taken.indexes block) = [] := by
          simpa using hapart
        rw [closure, hfilter, hindexes]
        simp
      have hlastBytes : indexBytes messages last.toFinset = taken.totalBytes := by
        rw [htotal]
        exact sum_toFinset _ hnodup.1
      have hle := @fill_le maxBytes _ (offeredBytes messages taken.indexes earlier) hroom
      rw [hclosure, hlastBytes] at hbytes
      rw [hchosen, hfinal]
      omega
    · right
      refine ⟨last, hlast, ?_⟩
      have hleft := @loop_over_budget messages maxBytes _ taken htaken (not_le.mp hroom) hapart
      show pick (finalSelection messages protectedStartIndex maxBytes).indexes 0 messages = _
      rw [hfinal, hleft, hindexes]

/-- The claim fails without the exception: a single message that nothing makes mandatory is
taken although nothing of the budget is left. -/
theorem lone_message_over_budget :
    indexBytes [ChatMessage.text "user" "hello"]
        (mandatoryClosure [ChatMessage.text "user" "hello"] 1) ≤ 0 ∧
      ¬ chosenBytes [ChatMessage.text "user" "hello"] 1 0 ≤ 0 := by
  decide +kernel

/-- The chosen messages stay within the budget when the mandatory ones do and the bytes missing
from the running total let no further block in; only with nothing mandatory is the last block
taken over the budget, and then alone. -/
theorem selection_within_budget (messages : List ChatMessage) (protectedStartIndex maxBytes : ℕ)
    (hclosed : indexBytes messages (mandatoryClosure messages protectedStartIndex) ≤ maxBytes)
    (hhidden : Unaffected maxBytes (hiddenBytes messages protectedStartIndex)
      (firstSelection messages protectedStartIndex).totalBytes
      (optionalBytes messages protectedStartIndex)) :
    chosenBytes messages protectedStartIndex maxBytes ≤ maxBytes ∨
      mandatoryIndexes messages protectedStartIndex = ∅ ∧
        ∃ last, (messageBlocks 0 messages).getLast? = some last ∧
          (selectBudgetedMessageBlocks messages protectedStartIndex maxBytes).messages =
            pick last.toFinset 0 messages := by
  rcases Finset.eq_empty_or_nonempty (firstSelection messages protectedStartIndex).indexes
    with hnone | hsome
  · have hmandatory : mandatoryIndexes messages protectedStartIndex = ∅ :=
      Finset.subset_empty.mp (hnone ▸ Finset.subset_union_left)
    rcases chosen_without_mandatory maxBytes hnone with hwithin | hlast
    · exact .inl hwithin
    · exact .inr ⟨hmandatory, hlast⟩
  · exact .inl ((chosen_within_iff hsome hclosed).mpr hhidden)

/-- The boundary falls between the two results and hides the first of them. -/
theorem cutGroup_within_budget :
    hiddenBytes cutGroup 4 ≠ 0 ∧
      (chosenBytes cutGroup 4 340 ≤ 340 ∨
        mandatoryIndexes cutGroup 4 = ∅ ∧
          ∃ last, (messageBlocks 0 cutGroup).getLast? = some last ∧
            (selectBudgetedMessageBlocks cutGroup 4 340).messages =
              pick last.toFinset 0 cutGroup) :=
  ⟨by decide +kernel, selection_within_budget cutGroup 4 340 (by decide +kernel)
    ((fill_within_iff (by decide +kernel)).mp (by decide +kernel))⟩

end CodeSeeX.Proxy.Budget
