import CodeSeeX.Proxy.PendingGroups

/-!
# What a continuation is made of

Every item of the merged input is a copy of a client item or of a retained item.
The origins of the items are followed through the merge, so that an item that is
lost or doubled can be told from one that merely equals another.
-/
namespace CodeSeeX.Native
open List Option Prod

/-- Where an item of the merged input is copied from. -/
inductive Origin
  | client (index : ℕ)
  | record (round item : ℕ)
  deriving DecidableEq

/-- The index of the last item of a kind. -/
def lastIdx? {α : Type} (p : α → Bool) (items : List α) : Option ℕ :=
  ((items.zipIdx.filter fun entry => p entry.1).map Prod.snd).getLast?

/-- A tool output for the call, as the code recognises it. -/
def answers (id : Text) (item : Value) : Bool := isToolOutput item ∧ callId item = some id

namespace NativeInjectedItems

variable (round : NativeInjectedItems)

/-- The retained output for a call: the last one of the round. -/
def hostedIndex (id : Text) : Option ℕ := lastIdx? (answers id) round.items

/-- The client's output for a call: its first one. -/
def clientIndex (tail : List Value) (id : Text) : Option ℕ := tail.findIdx? (answers id)

def outputOrigin (index : ℕ) (tail : List Value) (item : Value) : Option Origin :=
  (callId item).bind fun id =>
    ((round.hostedIndex id).map (Origin.record index)).or ((clientIndex tail id).map Origin.client)

def replayedOrigins (index : ℕ) (tail : List Value) : List Origin :=
  let providerItems := round.items.zipIdx.filter fun entry => ! isToolOutput entry.1
  providerItems.map (fun entry => Origin.record index entry.2) ++
    providerItems.filterMap fun entry => round.outputOrigin index tail entry.1

end NativeInjectedItems

namespace PendingNativeToolGroup

variable (group : PendingNativeToolGroup)

def mergeOrigins (input : List Value) (dropped : List ℕ) :
    List (NativeInjectedItems × ℕ) → List (Value × ℕ) → List Origin
  | rounds, [] => rounds.flatMap fun entry => entry.1.replayedOrigins entry.2 input
  | rounds, (_, index) :: rest =>
      let due := fun entry : NativeInjectedItems × ℕ =>
        decide (min entry.1.offset input.length ≤ index)
      (rounds.takeWhile due).flatMap (fun entry => entry.1.replayedOrigins entry.2 input) ++
        (if index ∈ dropped then [] else [Origin.client index]) ++
        mergeOrigins input dropped (rounds.dropWhile due) rest

/-- The origins of the merged input, item by item. -/
def origins (input : List Value) : List Origin :=
  mergeOrigins input (group.dropped input) group.injectedItems.zipIdx input.zipIdx

/-- The item that an origin points to. -/
def itemAt (input : List Value) : Origin → Option Value
  | .client index => input[index]?
  | .record round item => (group.injectedItems[round]?).bind (·.items[item]?)

end PendingNativeToolGroup

/-! ## The last index -/

section LastIndex
variable {α : Type} {p : α → Bool}

theorem lastIdx?_concat (items : List α) (item : α) :
    lastIdx? p (items ++ [item]) = if p item then some items.length else lastIdx? p items := by
  unfold lastIdx?
  cases h : p item <;> simp [zipIdx_append, h]

theorem lastIdx?_eq_some {items : List α} {k : ℕ} :
    lastIdx? p items = some k ↔
      ∃ item, items[k]? = some item ∧ p item = true ∧ ∀ later ∈ items.drop (k + 1), p later = false := by
  induction items using reverseRecOn with
  | nil => simp [lastIdx?]
  | append_singleton items last ih =>
    rw [lastIdx?_concat]
    cases hlast : p last with
    | true =>
      rw [if_pos rfl, some_inj]
      constructor
      · rintro rfl
        exact ⟨last, by simp, hlast, by simp⟩
      · rintro ⟨item, hitem, _, hlater⟩
        have hk : k < (items ++ [last]).length := (List.getElem?_eq_some_iff.mp hitem).1
        rw [length_append, length_singleton] at hk
        by_contra hne
        have hmem : last ∈ (items ++ [last]).drop (k + 1) := by
          rw [drop_append_of_le_length (by omega)]
          simp
        simp [hlater last hmem] at hlast
    | false =>
      rw [if_neg (by simp), ih]
      constructor
      · rintro ⟨item, hitem, hp, hlater⟩
        have hk : k < items.length := (List.getElem?_eq_some_iff.mp hitem).1
        refine ⟨item, by rw [List.getElem?_append_left hk, hitem], hp, ?_⟩
        rw [drop_append_of_le_length (by omega)]
        intro later hmem
        rcases mem_append.mp hmem with hmem | hmem
        · exact hlater later hmem
        · rw [mem_singleton.mp hmem, hlast]
      · rintro ⟨item, hitem, hp, hlater⟩
        have hk : k < (items ++ [last]).length := (List.getElem?_eq_some_iff.mp hitem).1
        rw [length_append, length_singleton] at hk
        have hlt : k < items.length := by
          by_contra hge
          obtain rfl : k = items.length := by omega
          have heq : last = item := by simpa using hitem
          rw [← heq, hlast] at hp
          cases hp
        rw [List.getElem?_append_left hlt] at hitem
        rw [drop_append_of_le_length (by omega)] at hlater
        exact ⟨item, hitem, hp, fun later hmem => hlater later (mem_append_left _ hmem)⟩

/-- The last item of a kind stands at the last index. -/
theorem getLast?_filter (items : List α) :
    (items.filter p).getLast? = (lastIdx? p items).bind fun k => items[k]? := by
  induction items using reverseRecOn with
  | nil => rfl
  | append_singleton items last ih =>
    rw [lastIdx?_concat, filter_append]
    cases hlast : p last with
    | true => simp [hlast]
    | false =>
      rw [filter_cons_of_neg (by simp [hlast]), filter_nil, append_nil, ih,
        if_neg (by simp)]
      cases hk : lastIdx? p items with
      | none => rfl
      | some k =>
        obtain ⟨item, hitem, _⟩ := lastIdx?_eq_some.mp hk
        have hlt : k < items.length := (List.getElem?_eq_some_iff.mp hitem).1
        simp [List.getElem?_append_left hlt]

end LastIndex

/-! ## Origins follow the code -/

namespace NativeInjectedItems

variable (round : NativeInjectedItems)

theorem get_hostedOutputs (id : Text) :
    round.hostedOutputs.get id = (round.hostedIndex id).bind fun k => round.items[k]? := by
  rw [hostedIndex, ← getLast?_filter, hostedOutputs]
  induction round.items using reverseRecOn with
  | nil => rfl
  | append_singleton items item ih =>
    rw [foldl_append, foldl_cons, foldl_nil, filter_append]
    by_cases houtput : isToolOutput item = true
    · rw [if_pos houtput]
      cases hcall : callId item with
      | none => simp [ih, answers, hcall]
      | some other =>
        by_cases hid : id = other
        · subst hid
          simp [answers, houtput, hcall]
        · simp [BTreeMap.get_insert_ne _ hid, ih, answers, hcall, Ne.symm hid]
    · rw [if_neg houtput, ih]
      simp [answers, houtput]

variable {round} {group : PendingNativeToolGroup} {index : ℕ}

theorem outputFor_eq (h : group.injectedItems[index]? = some round) (input : List Value)
    (item : Value) : (round.outputFor input item).map some =
      (round.outputOrigin index input item).map (group.itemAt input) := by
  unfold outputFor outputOrigin
  cases callId item with
  | none => rfl
  | some id =>
    simp only [bind_some, get_hostedOutputs]
    cases hhosted : round.hostedIndex id with
    | some k =>
      obtain ⟨output, houtput, _⟩ := lastIdx?_eq_some.mp hhosted
      simp [PendingNativeToolGroup.itemAt, h, houtput]
    | none =>
      have hfind := @find?_eq_bind_findIdx?_getElem? _ input (answers id)
      change (input.find? (answers id)).map some = _
      rw [hfind, clientIndex]
      cases hclient : input.findIdx? (answers id) with
      | none => rfl
      | some i =>
        obtain ⟨hlt, _⟩ := findIdx?_eq_some_iff_getElem.mp hclient
        simp [PendingNativeToolGroup.itemAt, getElem?_eq_getElem hlt]

theorem replayedTurn_eq (h : group.injectedItems[index]? = some round) (input : List Value) :
    (round.replayedTurn input).map some =
      (round.replayedOrigins index input).map (group.itemAt input) := by
  have hfilter : (round.items.zipIdx.filter fun entry => ! isToolOutput entry.1).map fst =
      round.items.filter fun item => ! isToolOutput item := by
    have hmap := filter_map (f := fst) (p := fun item => ! isToolOutput item)
      (l := round.items.zipIdx)
    rw [zipIdx_map_fst] at hmap
    exact hmap.symm
  simp only [replayedTurn, replayedOrigins, map_append, ← hfilter, List.map_map]
  congr 1
  · apply map_congr_left
    intro entry hmem
    have hentry := mk_mem_zipIdx_iff_getElem?.mp (mem_of_mem_filter hmem)
    simp [PendingNativeToolGroup.itemAt, h, hentry]
  · rw [filterMap_map, map_filterMap, map_filterMap]
    apply filterMap_congr
    intro entry _
    rw [Function.comp_apply, outputFor_eq h]

end NativeInjectedItems

namespace PendingNativeToolGroup

variable {group : PendingNativeToolGroup} {input : List Value}

theorem mergeLoop_eq (dropped : List ℕ) (rounds : List (NativeInjectedItems × ℕ))
    (rest : List (Value × ℕ))
    (hrounds : ∀ entry ∈ rounds, group.injectedItems[entry.2]? = some entry.1)
    (hrest : ∀ entry ∈ rest, input[entry.2]? = some entry.1) :
    (mergeLoop input dropped (rounds.map Prod.fst) rest).map some =
      (mergeOrigins input dropped rounds rest).map (group.itemAt input) := by
  have hblock : ∀ block : List (NativeInjectedItems × ℕ), block ⊆ rounds →
      ((block.map fst).flatMap (·.replayedTurn input)).map some =
        (block.flatMap fun entry => entry.1.replayedOrigins entry.2 input).map
          (group.itemAt input) := by
    intro block hsub
    rw [flatMap_map, map_flatMap, map_flatMap]
    apply flatMap_congr
    intro entry hmem
    exact NativeInjectedItems.replayedTurn_eq (hrounds entry (hsub hmem)) input
  induction rest generalizing rounds with
  | nil => exact hblock rounds fun _ hmem => hmem
  | cons first rest ih =>
    obtain ⟨item, index⟩ := first
    have hitem : input[index]? = some item := hrest (item, index) mem_cons_self
    simp only [mergeLoop, mergeOrigins, takeWhile_map, dropWhile_map, map_append]
    congr 1
    · congr 1
      · exact hblock _ (takeWhile_subset _)
      · split
        · rfl
        · simp [itemAt, hitem]
    · apply ih _ (fun entry hmem => hrounds entry (dropWhile_subset _ hmem))
        (fun entry hmem => hrest entry (mem_cons_of_mem _ hmem))
      exact fun block hsub => hblock block fun entry hmem => dropWhile_subset _ (hsub hmem)

/-- The merged input consists of copies, item by item those of its origins. -/
theorem mergedInput_eq (group : PendingNativeToolGroup) (input : List Value) :
    (group.continuation input).mergedInput.map some =
      (group.origins input).map (group.itemAt input) := by
  have hmerge := mergeLoop_eq (group.dropped input) group.injectedItems.zipIdx input.zipIdx
    (fun entry hmem => mem_zipIdx_iff_getElem?.mp hmem)
    (fun entry hmem => mem_zipIdx_iff_getElem?.mp hmem)
  rw [zipIdx_map_fst] at hmerge
  exact hmerge

/-! ## Counting origins -/

/-- The client items that the loop copies, and the rounds that it replays. -/
theorem mergeOrigins_perm (dropped : List ℕ) (rounds : List (NativeInjectedItems × ℕ))
    (rest : List (Value × ℕ)) :
    (mergeOrigins input dropped rounds rest).Perm
      (((rest.map Prod.snd).filter (· ∉ dropped)).map Origin.client ++
        rounds.flatMap fun entry => entry.1.replayedOrigins entry.2 input) := by
  induction rest generalizing rounds with
  | nil => exact Perm.refl _
  | cons first rest ih =>
    obtain ⟨item, index⟩ := first
    simp only [mergeOrigins]
    set due := fun entry : NativeInjectedItems × ℕ => decide (min entry.1.offset input.length ≤ index)
    have hsplit : rounds.flatMap (fun entry => entry.1.replayedOrigins entry.2 input) =
        (rounds.takeWhile due).flatMap (fun entry => entry.1.replayedOrigins entry.2 input) ++
          (rounds.dropWhile due).flatMap fun entry => entry.1.replayedOrigins entry.2 input := by
      rw [← flatMap_append, takeWhile_append_dropWhile]
    have hkept : (((item, index) :: rest).map snd).filter (· ∉ dropped) =
        (if index ∈ dropped then [] else [index]) ++ (rest.map snd).filter (· ∉ dropped) := by
      by_cases hindex : index ∈ dropped <;> simp [hindex]
    have hclient : (if index ∈ dropped then [] else [Origin.client index]) =
        (if index ∈ dropped then [] else [index]).map Origin.client := by
      split <;> rfl
    rw [hkept, hsplit, hclient, map_append]
    refine ((ih (rounds.dropWhile due)).append_left _).trans ?_
    rw [append_assoc, append_assoc]
    refine (perm_append_comm_assoc _ _ _).trans ?_
    exact (perm_append_comm_assoc _ _ _).append_left _

/-- Origins of a kind that the rounds do not have stand in the order of the client's items. -/
theorem mergeOrigins_filter {q : Origin → Bool} (dropped : List ℕ)
    (rounds : List (NativeInjectedItems × ℕ)) (rest : List (Value × ℕ))
    (hq : ∀ entry ∈ rounds, ∀ origin ∈ entry.1.replayedOrigins entry.2 input, q origin = false) :
    (mergeOrigins input dropped rounds rest).filter q =
      (((rest.map Prod.snd).filter (· ∉ dropped)).map Origin.client).filter q := by
  have hblock : ∀ block : List (NativeInjectedItems × ℕ), block ⊆ rounds →
      (block.flatMap fun entry => entry.1.replayedOrigins entry.2 input).filter q = [] := by
    intro block hsub
    rw [filter_eq_nil_iff]
    intro origin hmem
    obtain ⟨entry, hentry, horigin⟩ := mem_flatMap.mp hmem
    simp [hq entry (hsub hentry) origin horigin]
  induction rest generalizing rounds with
  | nil => exact hblock rounds fun _ hmem => hmem
  | cons first rest ih =>
    obtain ⟨item, index⟩ := first
    simp only [mergeOrigins, filter_append, hblock _ (takeWhile_subset _), nil_append]
    rw [ih _ (fun entry hmem => hq entry (dropWhile_subset _ hmem))
      (fun block hsub => hblock block fun entry hmem => dropWhile_subset _ (hsub hmem))]
    by_cases hindex : index ∈ dropped
    · simp [hindex]
    · simp [hindex, filter_cons]
      split <;> rfl

/-! ## The client's copy of the turn -/

/-- The item is there and its call is one of the group's. -/
def OwnedAt (group : PendingNativeToolGroup) (input : List Value) (index : ℕ) : Prop :=
  ∃ item, input[index]? = some item ∧ ownedHere item group.ownedIds = true

/-- The first owned item of the tail. -/
def FirstOwned (group : PendingNativeToolGroup) (input : List Value) (first : ℕ) : Prop :=
  group.tailStart input ≤ first ∧ group.OwnedAt input first ∧
    ∀ index, group.tailStart input ≤ index → index < first → ¬ group.OwnedAt input index

/-- The item belongs to the reasoning directly before the first owned item of the tail. -/
def OpensTurn (group : PendingNativeToolGroup) (input : List Value) (index : ℕ) : Prop :=
  group.tailStart input ≤ index ∧ ∃ first, group.FirstOwned input first ∧ index < first ∧
    ∀ between, index ≤ between → between < first →
      (input[between]?.bind itemType) = some ("reasoning" : Text)

theorem mem_reasoningBefore {start first index : ℕ} :
    index ∈ reasoningBefore input start first ↔ start ≤ index ∧ index < first ∧
      ∀ between, index ≤ between → between < first →
        (input[between]?.bind itemType) = some ("reasoning" : Text) := by
  induction first with
  | zero => simp [reasoningBefore]
  | succ first ih =>
    rw [reasoningBefore]
    split
    · rename_i hlast
      rw [mem_cons, ih]
      constructor
      · rintro (rfl | ⟨hstart, hlt, hbetween⟩)
        · refine ⟨hlast.1, by omega, fun between hle hlt => ?_⟩
          obtain rfl : between = index := by omega
          exact hlast.2
        · refine ⟨hstart, by omega, fun between hle hlt' => ?_⟩
          by_cases heq : between = first
          · rw [heq]
            exact hlast.2
          · exact hbetween between hle (by omega)
      · rintro ⟨hstart, hlt, hbetween⟩
        by_cases heq : index = first
        · exact Or.inl heq
        · exact Or.inr ⟨hstart, by omega, fun between hle hlt' => hbetween between hle (by omega)⟩
    · rename_i hlast
      constructor
      · intro hmem
        cases hmem
      · rintro ⟨hstart, hlt, hbetween⟩
        exact absurd ⟨by omega, hbetween first (by omega) (by omega)⟩ hlast

theorem getElem?_drop_zipIdx {n k : ℕ} {entry : Value × ℕ} :
    (input.zipIdx.drop n)[k]? = some entry ↔ input[n + k]? = some entry.1 ∧ entry.2 = n + k := by
  obtain ⟨item, index⟩ := entry
  rw [getElem?_drop, getElem?_zipIdx, map_eq_some_iff]
  constructor
  · rintro ⟨stored, hstored, heq⟩
    obtain ⟨rfl, rfl⟩ := Prod.mk.inj heq
    exact ⟨hstored, by omega⟩
  · rintro ⟨hstored, rfl⟩
    exact ⟨item, hstored, by simp⟩

theorem mem_drop_zipIdx {n : ℕ} {entry : Value × ℕ} :
    entry ∈ input.zipIdx.drop n ↔ n ≤ entry.2 ∧ input[entry.2]? = some entry.1 := by
  rw [mem_iff_getElem?]
  constructor
  · rintro ⟨k, hk⟩
    obtain ⟨hitem, hindex⟩ := getElem?_drop_zipIdx.mp hk
    exact ⟨by omega, by rw [hindex, hitem]⟩
  · rintro ⟨hle, hitem⟩
    exact ⟨entry.2 - n, getElem?_drop_zipIdx.mpr ⟨by rw [Nat.add_sub_cancel' hle, hitem], by omega⟩⟩

theorem firstOwned_iff {first : ℕ} :
    ((input.zipIdx.drop (group.tailStart input)).find?
        fun entry => ownedHere entry.1 group.ownedIds).map Prod.snd = some first ↔
      group.FirstOwned input first := by
  rw [map_eq_some_iff]
  constructor
  · rintro ⟨entry, hfind, rfl⟩
    obtain ⟨howned, k, hk, hentry, hbefore⟩ := find?_eq_some_iff_getElem.mp hfind
    obtain ⟨hitem, hindex⟩ := getElem?_drop_zipIdx.mp
      ((List.getElem?_eq_getElem hk).trans (congrArg some hentry))
    refine ⟨by omega, ⟨entry.1, by rw [hindex, hitem], howned⟩, fun index hle hlt => ?_⟩
    rintro ⟨item, hat, howned'⟩
    have hlt' : index - group.tailStart input < k := by omega
    have hno := hbefore (index - group.tailStart input) hlt'
    have hthere : (input.zipIdx.drop (group.tailStart input))[index - group.tailStart input]? =
        some (item, index) :=
      getElem?_drop_zipIdx.mpr ⟨by rw [Nat.add_sub_cancel' hle, hat], by omega⟩
    rw [List.getElem?_eq_getElem (by omega), some_inj] at hthere
    rw [hthere] at hno
    simp [howned'] at hno
  · rintro ⟨hle, ⟨item, hat, howned⟩, hbefore⟩
    have hthere : (input.zipIdx.drop (group.tailStart input))[first - group.tailStart input]? =
        some (item, first) :=
      getElem?_drop_zipIdx.mpr ⟨by rw [Nat.add_sub_cancel' hle, hat], by omega⟩
    obtain ⟨hlt, hentry⟩ := List.getElem?_eq_some_iff.mp hthere
    refine ⟨(item, first), find?_eq_some_iff_getElem.mpr ⟨howned, _, hlt, hentry, ?_⟩, rfl⟩
    intro k hk
    rw [Bool.not_eq_true']
    by_contra hyes
    rw [Bool.not_eq_false] at hyes
    obtain ⟨hitem, hindex⟩ := getElem?_drop_zipIdx.mp (List.getElem?_eq_getElem (hk.trans hlt))
    exact hbefore (group.tailStart input + k) (by omega) (by omega) ⟨_, hitem, hyes⟩

/-- What is dropped: the owned items of the tail and the reasoning before the first of them. -/
theorem mem_dropped {index : ℕ} : index ∈ group.dropped input ↔
    (group.tailStart input ≤ index ∧ group.OwnedAt input index) ∨ group.OpensTurn input index := by
  have howned : index ∈ ((input.zipIdx.drop (group.tailStart input)).filter
        fun entry => ownedHere entry.1 group.ownedIds).map snd ↔
      group.tailStart input ≤ index ∧ group.OwnedAt input index := by
    rw [List.mem_map]
    constructor
    · rintro ⟨entry, hmem, rfl⟩
      obtain ⟨hmem, howned⟩ := mem_filter.mp hmem
      obtain ⟨hle, hitem⟩ := mem_drop_zipIdx.mp hmem
      exact ⟨hle, entry.1, hitem, howned⟩
    · rintro ⟨hle, item, hitem, howned⟩
      exact ⟨(item, index), mem_filter.mpr ⟨mem_drop_zipIdx.mpr ⟨hle, hitem⟩, howned⟩, rfl⟩
  rw [dropped, mem_append, howned, or_comm]
  apply or_congr Iff.rfl
  cases hfirst : ((input.zipIdx.drop (group.tailStart input)).find?
      fun entry => ownedHere entry.1 group.ownedIds).map snd with
  | none =>
    simp only [not_mem_nil, false_iff]
    rintro ⟨_, first, hfirst', _⟩
    rw [firstOwned_iff.mpr hfirst'] at hfirst
    cases hfirst
  | some first =>
    have hfirst' := firstOwned_iff.mp hfirst
    simp only [mem_reasoningBefore]
    constructor
    · rintro ⟨hstart, hlt, hbetween⟩
      exact ⟨hstart, first, hfirst', hlt, hbetween⟩
    · rintro ⟨hstart, other, hother, hlt, hbetween⟩
      have heq := (firstOwned_iff.mpr hother).symm.trans hfirst
      obtain rfl := some_inj.mp heq
      exact ⟨hstart, hlt, hbetween⟩

end PendingNativeToolGroup

end CodeSeeX.Native
