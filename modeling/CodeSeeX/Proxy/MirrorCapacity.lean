import CodeSeeX.Proxy.ReasoningMirror

/-!
# The capacity of the reasoning mirror

The mirror tracks eight items. Over that it lets go of the one with the first identifier, which may
be the one that it just began.
-/
namespace CodeSeeX
open List

section
variable {κ ν : Type} [LinearOrder κ] {m : BTreeMap κ ν} {key : κ} {value : ν} {limit : ℕ}

theorem BTreeMap.len_dropFirst_le (m : BTreeMap κ ν) (limit : ℕ) : (m.dropFirst limit).len ≤ limit := by
  rw [dropFirst, len, length_drop, len]
  omega

theorem BTreeMap.dropFirst_of_le (h : m.len ≤ limit) : m.dropFirst limit = m :=
  BTreeMap.ext (congrArg (drop · m.entries) (Nat.sub_eq_zero_of_le h))

theorem BTreeMap.len_insert_of_mem (h : m.get key = some value) (newValue : ν) :
    (m.insert key newValue).len = m.len :=
  (insert_perm_remove m key newValue).length_eq.trans (remove_perm (get_eq_some.mp h)).length_eq.symm

/-- A key stays when it is filled into a map unless it is the first of too many. -/
theorem BTreeMap.get_orInsert_dropFirst (h : m.len ≤ limit) :
    (((m.orInsert key value).dropFirst limit).get key).isSome = true ↔
      (m.get key).isSome = true ∨ m.len < limit ∨ ∃ other ∈ m.keys, other < key := by
  by_cases hstored : (m.get key).isSome = true
  · rw [orInsert, if_pos hstored, dropFirst_of_le h]
    exact iff_of_true hstored (.inl hstored)
  have hnew : key ∉ m.keys := fun hmem => hstored (isSome_get_iff.mpr hmem)
  have hperm : (m.insert key value).keys.Perm (key :: m.keys) := (insert_perm value hnew).map _
  have hlen : (m.insert key value).len = m.len + 1 := (insert_perm value hnew).length_eq
  rw [orInsert, if_neg hstored]
  by_cases hroom : m.len < limit
  · rw [dropFirst_of_le (by omega), get_insert_self]
    exact iff_of_true rfl (.inr (.inl hroom))
  have hone : (m.insert key value).len - limit = 1 := by omega
  have hdrop : ((m.insert key value).dropFirst limit).keys = (m.insert key value).keys.tail := by
    show ((m.insert key value).entries.drop ((m.insert key value).len - limit)).map Prod.fst = _
    rw [hone, drop_one, map_tail]
    rfl
  have hsorted : (m.insert key value).keys.Pairwise (· < ·) :=
    pairwise_map.mpr (m.insert key value).sorted
  rw [isSome_get_iff, hdrop, or_iff_right hstored, or_iff_right hroom]
  cases hkeys : (m.insert key value).keys with
  | nil => exact absurd (hperm.symm.mem_iff.mp mem_cons_self) (by rw [hkeys]; exact not_mem_nil)
  | cons first rest =>
    rw [hkeys] at hperm hsorted
    obtain ⟨hfirst, -⟩ := pairwise_cons.mp hsorted
    rw [tail_cons]
    constructor
    · intro hmem
      have hlt := hfirst key hmem
      have hold := mem_cons.mp (hperm.mem_iff.mp mem_cons_self)
      exact ⟨first, hold.resolve_left hlt.ne, hlt⟩
    · rintro ⟨other, hother, hlt⟩
      refine (mem_cons.mp (hperm.mem_iff.mpr mem_cons_self)).resolve_left ?_
      rintro rfl
      obtain rfl | hrest := mem_cons.mp (hperm.mem_iff.mpr (mem_cons_of_mem _ hother))
      · exact lt_irrefl _ hlt
      · exact lt_asymm hlt (hfirst other hrest)

end

namespace Native
namespace ReasoningSummaryMirror

/-- What the provider sends of its reasoning, with the response and the index of the item. -/
inductive MirrorEvent where
  | itemAdded (payload : Value)
  | providerSummary (payload : Value)
  | contentPart (responseId : Text) (outputIndex : ℕ) (payload : Value)
  | textDelta (responseId : Text) (outputIndex : ℕ) (payload : Value)
  | textDone (responseId : Text) (outputIndex : ℕ) (payload : Value)
  | itemDone (responseId : Text) (outputIndex : ℕ) (payload : Value)

def receive (m : ReasoningSummaryMirror) : MirrorEvent → ReasoningSummaryMirror
  | .itemAdded payload => m.onItemAdded payload
  | .providerSummary payload => m.onProviderSummary payload
  | .contentPart responseId outputIndex payload => (m.onContentPart responseId outputIndex payload).2
  | .textDelta responseId outputIndex payload => (m.onTextDelta responseId outputIndex payload).2
  | .textDone responseId outputIndex payload => (m.onTextDone responseId outputIndex payload).2
  | .itemDone responseId outputIndex payload => (m.onItemDone responseId outputIndex payload).2.2

/-- The mirror behind a stream. -/
def received (mode : ReasoningSummaryMode) (events : List MirrorEvent) : ReasoningSummaryMirror :=
  events.foldl receive (new mode)

/-- The item that is begun is tracked, among eight at most, and hears all of its deltas. -/
structure KeepsBegun (m : ReasoningSummaryMirror) (itemId : Text) : Prop where
  bounded : (m.begin itemId).projectors.len ≤ maxTrackedItems
  tracked : ∃ projector, (m.begin itemId).projectors.get itemId = some projector ∧
    ∀ deltas : List Text,
      (deltas.foldl (fun m delta => (m.pushDelta itemId delta).2) (m.begin itemId)).projectors.get
        itemId = some (deltas.foldl (fun projector delta => (projector.push delta).2) projector)

/-- The item is tracked, or the mirror has room for it, or another identifier is before it. -/
def HasRoom (m : ReasoningSummaryMirror) (itemId : Text) : Prop :=
  (m.projectors.get itemId).isSome = true ∨ m.projectors.len < maxTrackedItems ∨
    ∃ other ∈ m.projectors.keys, other < itemId

/-! ## The number of tracked items -/

section
variable {m : ReasoningSummaryMirror}

section
variable (m : ReasoningSummaryMirror) (itemId : Text)

theorem begin_bounded :
    (m.begin itemId).projectors.len ≤ maxTrackedItems := BTreeMap.len_dropFirst_le _ _

theorem begin_projectors :
    (m.begin itemId).projectors =
      (m.projectors.orInsert itemId (SummaryProjector.new m.mode)).dropFirst maxTrackedItems := by
  rw [begin]
  split_ifs <;> rfl

end

theorem len_pushDelta (itemId delta : Text) :
    (m.pushDelta itemId delta).2.projectors.len = m.projectors.len := by
  rw [pushDelta]
  split
  · rfl
  · next h => exact BTreeMap.len_insert_of_mem h _

theorem len_finishText (itemId : Text) :
    (m.finishText itemId).2.projectors.len = m.projectors.len := by
  rw [finishText]
  split
  · rfl
  · next h => exact BTreeMap.len_insert_of_mem h _

theorem projectors_announcePart (responseId itemId : Text) (outputIndex : ℕ) :
    (m.announcePart responseId outputIndex itemId).2.projectors = m.projectors := by
  rw [announcePart]
  split_ifs <;> rfl

theorem projectors_finishItem (itemId : Text) : (m.finishItem itemId).projectors = m.projectors := by
  rw [finishItem]
  split_ifs <;> rfl

theorem len_finishReasoningSummary (responseId itemId : Text) (outputIndex : ℕ) :
    (m.finishReasoningSummary responseId outputIndex itemId).2.projectors.len = m.projectors.len := by
  have hpart := congrArg BTreeMap.len (projectors_announcePart (m := m) responseId itemId outputIndex)
  rw [finishReasoningSummary]
  dsimp only
  split_ifs
  · exact hpart
  · split <;> exact (len_finishText itemId).trans hpart

theorem receive_bounded (h : m.projectors.len ≤ maxTrackedItems) (event : MirrorEvent) :
    (m.receive event).projectors.len ≤ maxTrackedItems := by
  cases event with
  | itemAdded payload =>
    rw [receive, onItemAdded]
    split
    · exact h
    split
    · exact h
    dsimp only
    split_ifs <;> exact begin_bounded m _
  | providerSummary payload =>
    rw [receive, onProviderSummary]
    split <;> exact h
  | contentPart responseId outputIndex payload =>
    rw [receive, onContentPart]
    split
    · exact h
    dsimp only
    split_ifs
    · exact h
    · exact begin_bounded m _
    · rw [projectors_announcePart]
      exact begin_bounded m _
  | textDelta responseId outputIndex payload =>
    rw [receive, onTextDelta]
    split
    · exact h
    dsimp only
    split_ifs
    · exact begin_bounded m _
    · rw [projectors_announcePart, len_pushDelta]
      exact begin_bounded m _
  | textDone responseId outputIndex payload =>
    rw [receive, onTextDone]
    split
    · exact h
    dsimp only
    split_ifs
    · exact begin_bounded m _
    · rw [len_finishReasoningSummary]
      exact begin_bounded m _
  | itemDone responseId outputIndex payload =>
    rw [receive, onItemDone]
    split
    · exact h
    split_ifs
    · exact h
    · rwa [projectors_finishItem]
    · rwa [projectors_finishItem]
    split
    · rwa [projectors_finishItem]
    · rwa [projectors_finishItem, len_finishReasoningSummary]

end

section
variable (mode : ReasoningSummaryMode) (events : List MirrorEvent)

theorem received_bounded :
    (received mode events).projectors.len ≤ maxTrackedItems :=
  foldlRecOn (motive := fun m => m.projectors.len ≤ maxTrackedItems) events receive
    (Nat.zero_le _) fun _ h event _ => receive_bounded h event

/-- In every state the item that is begun is kept exactly when there is room for it. -/
theorem keepsBegun_iff (itemId : Text) :
    KeepsBegun (received mode events) itemId ↔ HasRoom (received mode events) itemId := by
  rw [HasRoom, ← BTreeMap.get_orInsert_dropFirst (received_bounded mode events), ← begin_projectors]
  constructor
  · rintro ⟨-, projector, h, -⟩
    rw [h]
    rfl
  · intro h
    obtain ⟨projector, h⟩ := Option.isSome_iff_exists.mp h
    refine ⟨begin_bounded _ itemId, projector, h, fun deltas => ?_⟩
    generalize (received mode events).begin itemId = m at h
    induction deltas generalizing m projector with
    | nil => exact h
    | cons delta deltas ih =>
      refine ih _ _ ?_
      dsimp only
      rw [pushDelta, h]
      exact BTreeMap.get_insert_self _ _ _

end

def announced (itemId : Text) : MirrorEvent :=
  .itemAdded (.object [("item", .object [("id", .string itemId), ("type", .string "reasoning")])])

/-- The ninth item is not kept when its identifier is the first of all. -/
theorem first_not_kept : ¬KeepsBegun
    (received .smart ((["b", "c", "d", "e", "f", "g", "h", "i"] : List Text).map announced)) "a" := by
  rintro ⟨-, projector, h, -⟩
  have hnone : ((received .smart (((["b", "c", "d", "e", "f", "g", "h", "i"] : List Text)).map
      announced)).begin "a").projectors.get "a" = none := by rfl
  rw [hnone] at h
  cases h

end ReasoningSummaryMirror
end Native
end CodeSeeX
