import CodeSeeX.General.Gaps
import CodeSeeX.General.SlotOrder
import CodeSeeX.Proxy.UpstreamPayload

/-!
# Tool outputs behind their calls

The outputs of a turn are moved in front of the notices that came between them. The turn is
rewritten only if each call id has an output and there is a notice; each slot keeps one output.
-/
namespace CodeSeeX.Native
open SlotOrder Gaps List Option Bool

variable {item : Value} {ids : List Text} {items : List Value} {calls window rest : List Value}

/-! ## Items of a turn -/

def isMessage (item : Value) : Bool := itemType item = some ("message" : Text)

/-- Neither a message nor a tool output: no output is to be moved across it. -/
def isFixed (item : Value) : Bool := ! isMessage item && ! isToolOutput item

def turnIds (calls : List Value) : List Text := calls.filterMap callId

/-- The place of an output among the calls. -/
def slotOf (ids : List Text) (item : Value) : Option ℕ := toolOutputSlot item ids

/-- What the window of a turn takes in. -/
def inWindow (ids : List Text) (item : Value) : Bool := (slotOf ids item).isSome || isMessage item

theorem isMessage_iff :
    isMessage item = true ↔ itemType item = some ("message" : Text) := decide_eq_true_iff

theorem isFixed_of_call (h : isNativeToolCallItem item = true) :
    isFixed item = true := by
  rw [isNativeToolCallItem, decide_eq_true_iff] at h
  cases h with
  | inl h => simp [isFixed, isMessage, isToolOutput, h]
  | inr h => simp [isFixed, isMessage, isToolOutput, h]

theorem isToolOutput_of_slot {ids : List Text} {item : Value} {k : ℕ}
    (h : slotOf ids item = some k) : isToolOutput item = true := by
  rw [slotOf, toolOutputSlot] at h
  cases hout : isToolOutput item with
  | true => rfl
  | false =>
    rw [hout] at h
    exact absurd h (by simp)

theorem not_isMessage_of_output (h : isToolOutput item = true) :
    isMessage item = false := by
  rw [isToolOutput, decide_eq_true_iff] at h
  cases h with
  | inl h => simp [isMessage, h]
  | inr h => simp [isMessage, h]

theorem slotOf_eq_none (h : isToolOutput item = false) :
    slotOf ids item = none := by
  rw [slotOf, toolOutputSlot, h]
  rfl

theorem slotOf_of_message (h : isMessage item = true) :
    slotOf ids item = none := by
  refine slotOf_eq_none ?_
  cases hout : isToolOutput item with
  | false => rfl
  | true => exact absurd h (by rw [not_isMessage_of_output hout]; exact false_ne_true)

theorem slotOf_lt {k : ℕ} (h : slotOf ids item = some k) :
    k < ids.length := by
  have hout := isToolOutput_of_slot h
  rw [slotOf, toolOutputSlot, hout] at h
  obtain ⟨id, -, hid⟩ := bind_eq_some_iff.mp h
  exact (findIdx?_eq_some_iff_findIdx_eq.mp hid).1

theorem slotOf_nil : slotOf [] item = none := by
  cases h : slotOf [] item with
  | none => rfl
  | some k => exact absurd (slotOf_lt h) (Nat.not_lt_zero k)

theorem inWindow_of_fixed (h : isFixed item = true) :
    inWindow ids item = false := by
  rw [isFixed, and_eq_true, not_eq_true', not_eq_true'] at h
  rw [inWindow, h.1, slotOf_eq_none h.2]
  rfl

theorem isFixed_of_inWindow (h : inWindow ids item = true) :
    isFixed item = false := by
  cases hfixed : isFixed item with
  | false => rfl
  | true => exact absurd h (by rw [inWindow_of_fixed hfixed]; exact false_ne_true)

/-! ## The window -/

theorem toolOutputWindow_eq (ids : List Text) (window : ToolOutputWindow) (items : List Value) :
    toolOutputWindow ids window items =
      ({ outputs := (items.takeWhile (inWindow ids)).foldl (fill (slotOf ids)) window.outputs
         notices := window.notices ++ (items.takeWhile (inWindow ids)).filter isMessage
         items := window.items ++ items.takeWhile (inWindow ids) },
        items.dropWhile (inWindow ids)) := by
  induction items generalizing window with
  | nil => simp [toolOutputWindow]
  | cons item items ih =>
    rw [toolOutputWindow]
    by_cases hcall : isNativeToolCallItem item = true
    · have hout : inWindow ids item = false := inWindow_of_fixed (isFixed_of_call hcall)
      simp [hcall, hout]
    · rw [if_neg hcall]
      cases hslot : toolOutputSlot item ids with
      | some slot =>
        have hin : inWindow ids item = true := by simp [inWindow, slotOf, hslot]
        have hmessage : isMessage item = false :=
          not_isMessage_of_output (@isToolOutput_of_slot ids item slot hslot)
        simp [ih, hin, hmessage, fill, slotOf, hslot]
      | none =>
        by_cases hmessage : itemType item = some ("message" : Text)
        · have hin : isMessage item = true := isMessage_iff.mpr hmessage
          simp [ih, hmessage, inWindow, hin, fill, slotOf, hslot]
        · have hin : isMessage item = false := by simpa [isMessage] using hmessage
          simp [hmessage, inWindow, hin, slotOf, hslot]

/-- The turn is rewritten: it has a notice, and an output for each call id. -/
def regroups (ids : List Text) (window : List Value) : Bool :=
  ! ids.isEmpty && window.any isMessage &&
    (range ids.length).all fun k => (last (slotOf ids) window k).isSome

/-- The calls of a turn and its window, as they are sent. -/
def regrouped (calls window : List Value) : List Value :=
  if regroups (turnIds calls) window then
    calls ++ lasts (slotOf (turnIds calls)) (turnIds calls).length window ++ window.filter isMessage
  else calls ++ window

/-! ## One turn -/

theorem groupToolOutputs_nil (fuel : ℕ) : groupToolOutputs fuel [] = [] := by
  cases fuel <;> rfl

theorem not_regroups_iff {window : List Value} (hids : ids ≠ []) :
    (window.filter isMessage = [] ∨
      ((List.range ids.length).map (last (slotOf ids) window)).any Option.isNone = true) ↔
      ¬ regroups ids window = true := by
  have hnil : ids.isEmpty = false := by simpa using hids
  rw [regroups, hnil, and_eq_true, not_and_or, List.any_map, Bool.not_false, Bool.true_and]
  refine or_congr ?_ ?_
  · rw [filter_eq_nil_iff, List.any_eq_true]
    exact ⟨fun h ⟨item, hmem, hitem⟩ => h item hmem hitem, fun h item hmem hitem => h ⟨item, hmem, hitem⟩⟩
  · rw [List.any_eq_true, List.all_eq_true]
    constructor
    · intro ⟨k, hk, hnone⟩ hall
      have := hall k hk
      rw [isNone_iff_eq_none.mp hnone] at this
      exact Bool.false_ne_true this
    · intro h
      by_contra hnone
      refine h fun k hk => ?_
      by_contra hlast
      exact hnone ⟨k, hk, by simpa using hlast⟩

/-- The window is scanned, and the turn is rewritten or left. -/
theorem groupToolOutputs_call {fuel : ℕ} {items calls rest : List Value}
    (hcall : isNativeToolCallItem item = true)
    (hcalls : (item :: items).takeWhile isNativeToolCallItem = calls)
    (hrest : (item :: items).dropWhile isNativeToolCallItem = rest) :
    groupToolOutputs (fuel + 1) (item :: items) =
      if turnIds calls = [] then calls ++ groupToolOutputs fuel rest
      else regrouped calls (rest.takeWhile (inWindow (turnIds calls))) ++
        groupToolOutputs fuel (rest.dropWhile (inWindow (turnIds calls))) := by
  have hnotCall : ¬ (! isNativeToolCallItem item) = true := by simp [hcall]
  rw [groupToolOutputs, if_neg hnotCall, hcalls, hrest]
  refine ite_congr rfl (fun _ => rfl) fun hids => ?_
  have hempty : ((turnIds calls).map fun _ => (none : Option Value)) =
      replicate (turnIds calls).length none := map_const'
  simp only [toolOutputWindow_eq, nil_append]
  rw [show calls.filterMap callId = turnIds calls from rfl, hempty, foldl_fill]
  by_cases h : regroups (turnIds calls) (rest.takeWhile (inWindow (turnIds calls))) = true
  · rw [if_neg fun hnot => (not_regroups_iff hids).mp hnot h, regrouped, if_pos h, lasts,
      filterMap_map, Function.id_comp]
  · rw [if_pos ((not_regroups_iff hids).mpr h), regrouped, if_neg h]

theorem groupToolOutputs_item {fuel : ℕ} (hcall : isNativeToolCallItem item = false) :
    groupToolOutputs (fuel + 1) (item :: items) = item :: groupToolOutputs fuel items := by
  rw [groupToolOutputs, if_pos (by rw [hcall]; rfl)]

/-- The fuel is enough as soon as it covers the items. -/
theorem groupToolOutputs_fuel {n m : ℕ} (hn : items.length ≤ n) (hm : items.length ≤ m) :
    groupToolOutputs n items = groupToolOutputs m items := by
  induction n generalizing m items with
  | zero =>
    obtain rfl := length_eq_zero_iff.mp (Nat.le_zero.mp hn)
    rw [groupToolOutputs_nil, groupToolOutputs_nil]
  | succ n ih =>
    cases items with
    | nil => rw [groupToolOutputs_nil, groupToolOutputs_nil]
    | cons item items =>
      rw [length_cons] at hn hm
      obtain ⟨m, rfl⟩ := Nat.exists_eq_succ_of_ne_zero (Nat.ne_of_gt (Nat.lt_of_lt_of_le
        (Nat.succ_pos _) hm))
      cases hcall : isNativeToolCallItem item with
      | false =>
        rw [groupToolOutputs_item hcall, groupToolOutputs_item hcall,
          ih (m := m) (by omega) (by omega)]
      | true =>
        have hrest : ((item :: items).dropWhile isNativeToolCallItem).length ≤ items.length := by
          rw [dropWhile_cons_of_pos hcall]
          exact (dropWhile_suffix _).length_le
        have hleft := (dropWhile_suffix (l := (item :: items).dropWhile isNativeToolCallItem)
          (inWindow (turnIds ((item :: items).takeWhile isNativeToolCallItem)))).length_le
        rw [groupToolOutputs_call hcall rfl rfl, groupToolOutputs_call hcall rfl rfl,
          ih (m := m) (by omega) (by omega), ih (m := m) (by omega) (by omega)]

/-- The calls of a turn with all that its window takes in, in front of the rest. -/
structure TurnAhead (calls window rest : List Value) : Prop where
  calls_ne_nil : calls ≠ []
  calls_all : ∀ item ∈ calls, isNativeToolCallItem item = true
  window_all : ∀ item ∈ window, inWindow (turnIds calls) item = true
  calls_maximal : Stops isNativeToolCallItem (window ++ rest)
  window_maximal : Stops (inWindow (turnIds calls)) rest

theorem group_item (hcall : isNativeToolCallItem item = false) :
    groupToolOutputsWithTheirCalls (item :: items) =
      item :: groupToolOutputsWithTheirCalls items :=
  groupToolOutputs_item hcall

theorem group_messages {messages rest : List Value} (h : ∀ item ∈ messages, isMessage item = true) :
    groupToolOutputsWithTheirCalls (messages ++ rest) =
      messages ++ groupToolOutputsWithTheirCalls rest := by
  induction messages with
  | nil => rfl
  | cons item messages ih =>
    have hcall : isNativeToolCallItem item = false := by
      have := isMessage_iff.mp (h item mem_cons_self)
      simp [isNativeToolCallItem, this]
    rw [cons_append, group_item hcall, ih fun other hother => h other
      (mem_cons_of_mem item hother), cons_append]

theorem group_turn (h : TurnAhead calls window rest) :
    groupToolOutputsWithTheirCalls (calls ++ window ++ rest) =
      regrouped calls window ++ groupToolOutputsWithTheirCalls rest := by
  obtain ⟨item, items, rfl⟩ := exists_cons_of_ne_nil h.calls_ne_nil
  have hcall := h.calls_all item mem_cons_self
  have htake : (item :: (items ++ window ++ rest)).takeWhile isNativeToolCallItem = item :: items := by
    rw [append_assoc]
    exact takeWhile_append h.calls_all h.calls_maximal
  have hdrop : (item :: (items ++ window ++ rest)).dropWhile isNativeToolCallItem = window ++ rest := by
    rw [append_assoc]
    exact dropWhile_append h.calls_all h.calls_maximal
  show groupToolOutputs ((items ++ window ++ rest).length + 1) (item :: (items ++ window ++ rest)) = _
  rw [groupToolOutputs_call hcall htake hdrop]
  by_cases hids : turnIds (item :: items) = []
  · have hmessages : ∀ other ∈ window, isMessage other = true := by
      intro other hother
      have := h.window_all other hother
      rw [hids, inWindow, slotOf_nil] at this
      exact this
    have hleave : regrouped (item :: items) window = item :: items ++ window := by
      rw [regrouped, hids]
      exact if_neg Bool.false_ne_true
    have hfuel : groupToolOutputs (items ++ window ++ rest).length (window ++ rest) =
        groupToolOutputsWithTheirCalls (window ++ rest) := by
      refine groupToolOutputs_fuel ?_ (Nat.le_refl _)
      simp only [length_append]
      omega
    rw [if_pos hids, hfuel, group_messages hmessages, hleave, append_assoc]
  · rw [if_neg hids, takeWhile_append h.window_all h.window_maximal,
      dropWhile_append h.window_all h.window_maximal]
    refine congrArg _ (groupToolOutputs_fuel ?_ (Nat.le_refl _))
    rw [length_append]
    exact Nat.le_add_left _ _

theorem exists_turnAhead {item : Value} {items : List Value}
    (hcall : isNativeToolCallItem item = true) :
    ∃ calls window rest, TurnAhead calls window rest ∧ item :: items = calls ++ window ++ rest := by
  let calls := (item :: items).takeWhile isNativeToolCallItem
  let behind := (item :: items).dropWhile isNativeToolCallItem
  let ids := turnIds calls
  have hbehind : behind = behind.takeWhile (inWindow ids) ++ behind.dropWhile (inWindow ids) :=
    takeWhile_append_dropWhile.symm
  refine ⟨calls, behind.takeWhile (inWindow ids), behind.dropWhile (inWindow ids),
    { calls_ne_nil := ?_
      calls_all := fun _ => mem_takeWhile_imp
      window_all := fun _ => mem_takeWhile_imp
      calls_maximal := ?_
      window_maximal := stops_dropWhile _ _ }, ?_⟩
  · exact fun h => nomatch (takeWhile_cons_of_pos hcall).symm.trans h
  · rw [← hbehind]
    exact stops_dropWhile _ _
  · rw [append_assoc, ← hbehind]
    exact takeWhile_append_dropWhile.symm

/-- Items are read one by one, and a turn at once. -/
theorem turn_induction {motive : List Value → Prop} (hnil : motive [])
    (hitem : ∀ item items, isNativeToolCallItem item = false → motive items → motive (item :: items))
    (hturn : ∀ calls window rest, TurnAhead calls window rest → motive rest →
      motive (calls ++ window ++ rest)) (items : List Value) : motive items := by
  induction hlength : items.length using Nat.strong_induction_on generalizing items with
  | _ length ih =>
    subst hlength
    cases items with
    | nil => exact hnil
    | cons item items =>
      cases hcall : isNativeToolCallItem item with
      | false => exact hitem item items hcall (ih items.length (Nat.lt_succ_self _) items rfl)
      | true =>
        obtain ⟨calls, window, rest, hahead, heq⟩ := @exists_turnAhead item items hcall
        have hlength := congrArg length heq
        have hpos := length_pos_iff.mpr hahead.calls_ne_nil
        simp only [length_append] at hlength
        rw [heq]
        refine hturn calls window rest hahead (ih rest.length ?_ rest rfl)
        omega

/-! ## What a rewritten turn keeps -/

/-- The window of a turn, as it is sent. -/
def settled (ids : List Text) (window : List Value) : List Value :=
  if regroups ids window then
    lasts (slotOf ids) ids.length window ++ window.filter isMessage
  else window

theorem regrouped_eq (calls window : List Value) :
    regrouped calls window = calls ++ settled (turnIds calls) window := by
  rw [regrouped, settled]
  split_ifs
  · rw [append_assoc]
  · rfl

/-- No slot of the turn has two outputs in the window. -/
def AnsweredOnce (ids : List Text) (window : List Value) : Prop :=
  ∀ k < ids.length, (ofSlot (slotOf ids) k window).length ≤ 1

section Settled
variable {ids : List Text} {window : List Value}

theorem inWindow_settled (h : ∀ item ∈ window, inWindow ids item = true) :
    ∀ item ∈ settled ids window, inWindow ids item = true := by
  intro item hmem
  rw [settled] at hmem
  split_ifs at hmem with hregroups
  · cases mem_append.mp hmem with
    | inl hlast => exact h item (mem_lasts hlast).1
    | inr hmessage => exact h item (mem_filter.mp hmessage).1
  · exact h item hmem

theorem exists_isMessage_of_regroups (h : regroups ids window = true) :
    ∃ item ∈ window, isMessage item = true := by
  rw [regroups, and_eq_true, and_eq_true] at h
  exact any_eq_true.mp h.1.2

theorem slot_filter_eq (h : ∀ item ∈ window, inWindow ids item = true) :
    (window.filter fun item => (slotOf ids item).any (· < ids.length)) =
      window.filter fun item => ! isMessage item := by
  refine filter_congr fun item hmem => ?_
  cases hslot : slotOf ids item with
  | some k =>
    rw [not_isMessage_of_output (isToolOutput_of_slot hslot)]
    exact decide_eq_true (slotOf_lt hslot)
  | none =>
    have hin := h item hmem
    rw [inWindow, hslot] at hin
    have hmessage : isMessage item = true := hin
    rw [hmessage]
    rfl

/-- Slot by slot and then the notices, nothing is lost. -/
theorem ordered_append_perm (h : ∀ item ∈ window, inWindow ids item = true) :
    (ordered (slotOf ids) ids.length window ++ window.filter isMessage).Perm window := by
  refine ((ordered_perm ids.length window).append_right _).trans ?_
  rw [slot_filter_eq h]
  exact perm_append_comm.trans (filter_append_perm isMessage window)

theorem filter_isMessage_lasts :
    (lasts (slotOf ids) ids.length window).filter isMessage = [] := by
  rw [filter_eq_nil_iff]
  intro item hmem
  obtain ⟨k, -, hslot⟩ := (mem_lasts hmem).2
  rw [not_isMessage_of_output (isToolOutput_of_slot hslot)]
  exact false_ne_true

theorem length_settled_le (h : ∀ item ∈ window, inWindow ids item = true) :
    (settled ids window).length ≤ window.length := by
  rw [settled]
  split_ifs
  · rw [← (ordered_append_perm h).length_eq, length_append, length_append]
    exact Nat.add_le_add_right (length_lasts_le _ _) _
  · exact Nat.le_refl _

theorem answeredOnce_of_length (h : ∀ item ∈ window, inWindow ids item = true)
    (hregroups : regroups ids window = true)
    (hlength : (settled ids window).length = window.length) : AnsweredOnce ids window := by
  rw [settled, if_pos hregroups, ← (ordered_append_perm h).length_eq, length_append,
    length_append] at hlength
  exact length_le_one_of_length_eq (Nat.add_right_cancel hlength)

theorem settled_eq (hregroups : regroups ids window = true) (honce : AnsweredOnce ids window) :
    settled ids window = ordered (slotOf ids) ids.length window ++ window.filter isMessage := by
  rw [settled, if_pos hregroups, lasts_eq honce]

theorem settled_perm (h : ∀ item ∈ window, inWindow ids item = true)
    (honce : regroups ids window = true → AnsweredOnce ids window) :
    (settled ids window).Perm window := by
  by_cases hregroups : regroups ids window = true
  · rw [settled_eq hregroups (honce hregroups)]
    exact ordered_append_perm h
  · rw [settled, if_neg hregroups]

theorem settled_filter (h : ∀ item ∈ window, inWindow ids item = true) :
    (settled ids window).filter (fun item => ! isToolOutput item) =
      window.filter fun item => ! isToolOutput item := by
  rw [settled]
  split_ifs
  · have houtputs : (lasts (slotOf ids) ids.length window).filter (fun item => ! isToolOutput item) =
        [] := by
      rw [filter_eq_nil_iff]
      intro item hmem
      obtain ⟨k, -, hslot⟩ := (mem_lasts hmem).2
      simp [isToolOutput_of_slot hslot]
    rw [filter_append, houtputs, List.nil_append, List.filter_filter]
    refine filter_congr fun item hmem => ?_
    cases hmessage : isMessage item with
    | true =>
      cases hout : isToolOutput item with
      | false => rfl
      | true => exact absurd (not_isMessage_of_output hout) (by rw [hmessage]; nofun)
    | false =>
      have hin := h item hmem
      rw [inWindow, hmessage, Bool.or_false, isSome_iff_exists] at hin
      obtain ⟨k, hslot⟩ := hin
      rw [isToolOutput_of_slot hslot]
      rfl
  · rfl

/-- A window that has been settled stays as it is. -/
theorem settled_settled : settled ids (settled ids window) = settled ids window := by
  by_cases hregroups : regroups ids window = true
  · have hwindow : settled ids window =
        lasts (slotOf ids) ids.length window ++ window.filter isMessage := if_pos hregroups
    have hmessages : (settled ids window).filter isMessage = window.filter isMessage := by
      rw [hwindow, filter_append, filter_isMessage_lasts, List.nil_append, List.filter_filter]
      simp only [Bool.and_self]
    have hlasts : lasts (slotOf ids) ids.length (settled ids window) =
        lasts (slotOf ids) ids.length window := by
      rw [hwindow]
      exact lasts_append fun item hmem => slotOf_of_message (mem_filter.mp hmem).2
    by_cases hagain : regroups ids (settled ids window) = true
    · rw [settled, if_pos hagain, hlasts, hmessages, hwindow]
    · rw [settled, if_neg hagain]
  · have hwindow : settled ids window = window := if_neg hregroups
    rw [hwindow, hwindow]

theorem eq_nil_of_settled (h : settled ids window = []) : window = [] := by
  rw [settled] at h
  split_ifs at h with hregroups
  · obtain ⟨item, hmem, hitem⟩ := exists_isMessage_of_regroups hregroups
    have hnotices := (append_eq_nil_iff.mp h).2
    exact absurd hitem (filter_eq_nil_iff.mp hnotices item hmem)
  · exact h

end Settled

/-! ## All turns -/

theorem group_ahead (h : TurnAhead calls window rest) :
    groupToolOutputsWithTheirCalls (calls ++ window ++ rest) =
      calls ++ (settled (turnIds calls) window ++ groupToolOutputsWithTheirCalls rest) := by
  rw [group_turn h, regrouped_eq, append_assoc]

theorem group_head (items : List Value) :
    (groupToolOutputsWithTheirCalls items).head? = items.head? := by
  induction items using turn_induction with
  | hnil => rfl
  | hitem item items hcall _ => rw [group_item hcall, head?_cons, head?_cons]
  | hturn calls window rest hahead _ =>
    obtain ⟨item, items, rfl⟩ := exists_cons_of_ne_nil hahead.calls_ne_nil
    rw [group_ahead hahead]
    rfl

theorem TurnAhead.group {calls window rest : List Value} (h : TurnAhead calls window rest) :
    TurnAhead calls (settled (turnIds calls) window) (groupToolOutputsWithTheirCalls rest) where
  calls_ne_nil := h.calls_ne_nil
  calls_all := h.calls_all
  window_all := inWindow_settled h.window_all
  calls_maximal := by
    cases hsettled : settled (turnIds calls) window with
    | nil =>
      have hmaximal := h.calls_maximal
      rw [eq_nil_of_settled hsettled] at hmaximal
      exact stops_of_head_eq (group_head rest) hmaximal
    | cons item items =>
      intro other hother
      obtain rfl := mem_some_iff.mp hother
      have hin := inWindow_settled h.window_all item (by rw [hsettled]; exact mem_cons_self)
      cases hcall : isNativeToolCallItem item with
      | false => rfl
      | true => exact absurd hin (by rw [inWindow_of_fixed (isFixed_of_call hcall)]; nofun)
  window_maximal := stops_of_head_eq (group_head rest) h.window_maximal

theorem group_group (items : List Value) :
    groupToolOutputsWithTheirCalls (groupToolOutputsWithTheirCalls items) =
      groupToolOutputsWithTheirCalls items := by
  induction items using turn_induction with
  | hnil => rfl
  | hitem item items hcall ih => rw [group_item hcall, group_item hcall, ih]
  | hturn calls window rest hahead ih =>
    rw [group_ahead hahead, ← append_assoc, group_ahead hahead.group, settled_settled, ih,
      append_assoc]

theorem group_filter (items : List Value) :
    (groupToolOutputsWithTheirCalls items).filter (fun item => ! isToolOutput item) =
      items.filter fun item => ! isToolOutput item := by
  induction items using turn_induction with
  | hnil => rfl
  | hitem item items hcall ih =>
    rw [group_item hcall, filter_cons, filter_cons, ih]
  | hturn calls window rest hahead ih =>
    rw [group_ahead hahead, append_assoc]
    simp only [filter_append, settled_filter hahead.window_all, ih]

theorem length_group_le (items : List Value) :
    (groupToolOutputsWithTheirCalls items).length ≤ items.length := by
  induction items using turn_induction with
  | hnil => exact Nat.le_refl _
  | hitem item items hcall ih =>
    rw [group_item hcall]
    exact Nat.succ_le_succ ih
  | hturn calls window rest hahead ih =>
    have hsettled := length_settled_le hahead.window_all
    rw [group_ahead hahead]
    simp only [length_append]
    omega

/-- What a rewriting loses, it loses in one of the turns. -/
theorem length_parts (h : TurnAhead calls window rest)
    (hlength : (groupToolOutputsWithTheirCalls (calls ++ window ++ rest)).length =
      (calls ++ window ++ rest).length) :
    (settled (turnIds calls) window).length = window.length ∧
      (groupToolOutputsWithTheirCalls rest).length = rest.length := by
  have hsettled := length_settled_le h.window_all
  have hrest := length_group_le rest
  rw [group_ahead h] at hlength
  simp only [length_append] at hlength
  omega

theorem group_perm (hlength : (groupToolOutputsWithTheirCalls items).length = items.length) :
    (groupToolOutputsWithTheirCalls items).Perm items := by
  induction items using turn_induction with
  | hnil => exact Perm.refl _
  | hitem item items hcall ih =>
    rw [group_item hcall] at hlength ⊢
    exact (ih (Nat.succ.inj hlength)).cons item
  | hturn calls window rest hahead ih =>
    obtain ⟨hwindow, hrest⟩ := length_parts hahead hlength
    rw [group_ahead hahead, append_assoc]
    refine ((settled_perm hahead.window_all ?_).append (ih hrest)).append_left calls
    exact fun hregroups => answeredOnce_of_length hahead.window_all hregroups hwindow

/-- Between two items that no output may cross, the same outputs. -/
def SameOutputs (before after : List Value) : Prop :=
  (after.filter isToolOutput).Perm (before.filter isToolOutput)

theorem sameOutputs_nil : SameOutputs [] [] := Perm.refl _

theorem SameOutputs.append {window sent before after : List Value} (hwindow : sent.Perm window)
    (h : SameOutputs before after) : SameOutputs (window ++ before) (sent ++ after) := by
  rw [SameOutputs, filter_append, filter_append]
  exact (hwindow.filter _).append h

theorem group_aligned (hlength : (groupToolOutputsWithTheirCalls items).length = items.length) :
    Aligned isFixed SameOutputs items (groupToolOutputsWithTheirCalls items) := by
  induction items using turn_induction with
  | hnil => exact Aligned.last nofun nofun (Perm.refl _)
  | hitem item items hcall ih =>
    rw [group_item hcall] at hlength ⊢
    have hrest := ih (Nat.succ.inj hlength)
    cases hfixed : isFixed item with
    | true =>
      have hmarks : ∀ other ∈ [item], isFixed other = true := by simpa using hfixed
      exact hrest.marks sameOutputs_nil hmarks
    | false =>
      have hgap : ∀ other ∈ [item], isFixed other = false := by simpa using hfixed
      exact hrest.append (SameOutputs.append (Perm.refl [item])) hgap hgap
  | hturn calls window rest hahead ih =>
    obtain ⟨hwindow, hrest⟩ := length_parts hahead hlength
    have hperm : (settled (turnIds calls) window).Perm window := by
      refine settled_perm hahead.window_all fun hregroups => ?_
      exact answeredOnce_of_length hahead.window_all hregroups hwindow
    rw [group_ahead hahead, append_assoc]
    refine Aligned.marks ?_ sameOutputs_nil fun item hmem =>
      isFixed_of_call (hahead.calls_all item hmem)
    exact (ih hrest).append (SameOutputs.append hperm)
      (fun item hmem => isFixed_of_inWindow (hahead.window_all item hmem))
      fun item hmem => isFixed_of_inWindow (hahead.window_all item (hperm.mem_iff.mp hmem))

/-! ## The turns of a list -/

/-- A maximal run of calls and the messages and outputs behind it, up to the next other item. -/
structure IsTurn (items before calls window after : List Value) : Prop where
  eq : items = before ++ (calls ++ window ++ after)
  calls_ne_nil : calls ≠ []
  calls_all : ∀ item ∈ calls, isNativeToolCallItem item = true
  before_last : ∀ item ∈ before.getLast?, isNativeToolCallItem item = false
  calls_maximal : Stops isNativeToolCallItem (window ++ after)
  window_all : ∀ item ∈ window, isFixed item = false
  window_maximal : Stops (fun item => ! isFixed item) after

/-- Every call has an output in the window. -/
def Answered (calls window : List Value) : Prop :=
  ∀ call ∈ calls, ∃ id, callId call = some id ∧
    ∃ item ∈ window, isToolOutput item = true ∧ callId item = some id

/-- The outputs of the calls, in call order. -/
def inCallOrder (calls window : List Value) : List Value :=
  ordered (slotOf (turnIds calls)) (turnIds calls).length window

/-- The outputs of a turn whose calls are all answered stand directly behind the calls. -/
def PutsOutputs (items sent : List Value) : Prop :=
  ∀ before calls window after, IsTurn items before calls window after → Answered calls window →
    ∃ front rest, sent = front ++ (calls ++ inCallOrder calls window ++ rest) ∧
      front.length = before.length

structure LosslessReordering (items : List Value) : Prop where
  permutation : (groupToolOutputsWithTheirCalls items).Perm items
  order : (groupToolOutputsWithTheirCalls items).filter (fun item => ! isToolOutput item) =
    items.filter fun item => ! isToolOutput item
  confined : Aligned isFixed SameOutputs items (groupToolOutputsWithTheirCalls items)
  grouped : PutsOutputs items (groupToolOutputsWithTheirCalls items)
  stable : groupToolOutputsWithTheirCalls (groupToolOutputsWithTheirCalls items) =
    groupToolOutputsWithTheirCalls items

/-- The part of the window that is scanned: it ends at an output of another turn. -/
def scanned (calls window : List Value) : List Value := window.takeWhile (inWindow (turnIds calls))

def unscanned (calls window : List Value) : List Value :=
  window.dropWhile (inWindow (turnIds calls))

/-- The turn is rewritten only if no call is answered twice. If all its calls are answered, it is
rewritten and no output is left behind the scanned part, or the outputs are in place already. -/
structure KeepsTurn (calls window : List Value) : Prop where
  once : regroups (turnIds calls) (scanned calls window) = true →
    AnsweredOnce (turnIds calls) (scanned calls window)
  placed : Answered calls window →
    if regroups (turnIds calls) (scanned calls window) = true then
      ∀ item ∈ unscanned calls window, slotOf (turnIds calls) item = none
    else inCallOrder calls window <+: window

section Turn
variable {items before calls window after : List Value}

theorem scanned_append : scanned calls window ++ unscanned calls window = window :=
  takeWhile_append_dropWhile

theorem IsTurn.ahead (h : IsTurn items before calls window after) :
    TurnAhead calls (scanned calls window) (unscanned calls window ++ after) where
  calls_ne_nil := h.calls_ne_nil
  calls_all := h.calls_all
  window_all := fun _ => mem_takeWhile_imp
  calls_maximal := by
    rw [← append_assoc, scanned_append]
    exact h.calls_maximal
  window_maximal := by
    refine (stops_dropWhile _ window).append fun item hitem => ?_
    have hfixed : isFixed item = true := by simpa using h.window_maximal item hitem
    exact inWindow_of_fixed hfixed

theorem IsTurn.eq_scanned (h : IsTurn items before calls window after) :
    items = before ++ (calls ++ scanned calls window ++ (unscanned calls window ++ after)) := by
  rw [h.eq, ← append_assoc (calls ++ scanned calls window), append_assoc calls (scanned _ _),
    scanned_append]

/-- What stands before a turn is sent as if the turn were not there. -/
theorem group_append (hcall : isNativeToolCallItem item = true)
    (hlast : ∀ other ∈ before.getLast?, isNativeToolCallItem other = false) :
    groupToolOutputsWithTheirCalls (before ++ item :: items) =
      groupToolOutputsWithTheirCalls before ++ groupToolOutputsWithTheirCalls (item :: items) := by
  induction before using turn_induction with
  | hnil => rfl
  | hitem first rest hfirst ih =>
    rw [cons_append, group_item hfirst, group_item hfirst, cons_append]
    refine congrArg _ (ih fun other hother => hlast other ?_)
    rw [getLast?_cons, mem_def.mp hother]
    rfl
  | hturn calls window rest hahead ih =>
    have hlater : TurnAhead calls window (rest ++ item :: items) :=
      { calls_ne_nil := hahead.calls_ne_nil
        calls_all := hahead.calls_all
        window_all := hahead.window_all
        calls_maximal := by
          rw [← append_assoc]
          cases hbehind : window ++ rest with
          | cons first behind =>
            have hmaximal := hahead.calls_maximal
            rw [hbehind] at hmaximal
            exact hmaximal
          | nil =>
            rw [append_assoc, hbehind, append_nil] at hlast
            have hmem := getLast_mem hahead.calls_ne_nil
            have hnot := hlast _ (getLast?_eq_some_getLast hahead.calls_ne_nil)
            exact absurd (hahead.calls_all _ hmem) (by rw [hnot]; nofun)
        window_maximal := by
          refine hahead.window_maximal.append fun other hother => ?_
          obtain rfl := mem_some_iff.mp hother
          exact inWindow_of_fixed (isFixed_of_call hcall) }
    rw [append_assoc, group_ahead hlater, group_ahead hahead, ih fun other hother => hlast other ?_]
    · simp only [append_assoc]
    · rw [getLast?_append, mem_def.mp hother]
      rfl

theorem IsTurn.group (h : IsTurn items before calls window after) :
    groupToolOutputsWithTheirCalls items = groupToolOutputsWithTheirCalls before ++
      (calls ++ (settled (turnIds calls) (scanned calls window) ++
        groupToolOutputsWithTheirCalls (unscanned calls window ++ after))) := by
  obtain ⟨item, others, hcons⟩ := exists_cons_of_ne_nil h.calls_ne_nil
  have hcall : isNativeToolCallItem item = true :=
    h.calls_all item (by rw [hcons]; exact mem_cons_self)
  have hfront : calls ++ scanned calls window ++ (unscanned calls window ++ after) =
      item :: (others ++ scanned calls window ++ (unscanned calls window ++ after)) := by
    rw [hcons]
    rfl
  rw [h.eq_scanned, hfront, group_append hcall h.before_last, ← hfront, group_ahead h.ahead]

/-- Where nothing is lost at all, nothing is lost before, in or behind a turn. -/
theorem IsTurn.lengths (h : IsTurn items before calls window after)
    (hlength : (groupToolOutputsWithTheirCalls items).length = items.length) :
    (groupToolOutputsWithTheirCalls before).length = before.length ∧
      (settled (turnIds calls) (scanned calls window)).length = (scanned calls window).length := by
  have hbefore := length_group_le before
  have hsettled := length_settled_le h.ahead.window_all
  have hrest := length_group_le (unscanned calls window ++ after)
  have hitems := congrArg length h.eq_scanned
  rw [h.group, hitems] at hlength
  simp only [length_append] at hlength hrest
  omega

/-- An output of the turn, by its slot. -/
def hasSlot (calls : List Value) (item : Value) : Bool := (slotOf (turnIds calls) item).isSome

theorem hasSlot_of_mem (h : item ∈ inCallOrder calls window) :
    hasSlot calls item = true := by
  obtain ⟨-, k, -, hslot⟩ := mem_ordered.mp h
  rw [hasSlot, hslot]
  rfl

theorem hasSlot_of_not_inWindow (h : inWindow (turnIds calls) item = false) :
    hasSlot calls item = false := (or_eq_false_iff.mp h).1

theorem hasSlot_of_message (h : isMessage item = true) :
    hasSlot calls item = false := by
  rw [hasSlot, slotOf_of_message h]
  rfl

/-- Behind the outputs of a rewritten turn comes a notice. -/
theorem stops_notices (h : regroups (turnIds calls) window = true) (rest : List Value) :
    Stops (hasSlot calls) (window.filter isMessage ++ rest) := by
  cases hnotices : window.filter isMessage with
  | nil =>
    obtain ⟨item, hmem, hitem⟩ := exists_isMessage_of_regroups h
    exact absurd hitem (filter_eq_nil_iff.mp hnotices item hmem)
  | cons notice notices =>
    have hmem : notice ∈ window.filter isMessage := by
      rw [hnotices]
      exact mem_cons_self
    intro other hother
    obtain rfl := mem_some_iff.mp hother
    exact hasSlot_of_message (mem_filter.mp hmem).2

/-- The outputs are in place behind the calls exactly if nothing holds them up. -/
theorem IsTurn.isPrefix_iff (h : IsTurn items before calls window after)
    (honce : regroups (turnIds calls) (scanned calls window) = true →
      AnsweredOnce (turnIds calls) (scanned calls window)) :
    (inCallOrder calls window <+: settled (turnIds calls) (scanned calls window) ++
        groupToolOutputsWithTheirCalls (unscanned calls window ++ after)) ↔
      if regroups (turnIds calls) (scanned calls window) = true then
        ∀ item ∈ unscanned calls window, slotOf (turnIds calls) item = none
      else inCallOrder calls window <+: window := by
  have hslots : ∀ item ∈ inCallOrder calls window, hasSlot calls item = true :=
    fun item hmem => hasSlot_of_mem hmem
  by_cases hregroups : regroups (turnIds calls) (scanned calls window) = true
  · rw [if_pos hregroups, settled_eq hregroups (honce hregroups), append_assoc,
      isPrefix_append_iff hslots (stops_notices hregroups _), inCallOrder]
    nth_rewrite 1 [← @scanned_append calls window]
    exact ordered_isPrefix_iff fun item k => slotOf_lt
  · have hsent : Stops (hasSlot calls)
        (groupToolOutputsWithTheirCalls (unscanned calls window ++ after)) := by
      refine (stops_of_head_eq (group_head _) h.ahead.window_maximal).imp fun item hitem => ?_
      exact hasSlot_of_not_inWindow hitem
    have hleft : Stops (hasSlot calls) (unscanned calls window) :=
      (stops_dropWhile _ window).imp fun item hitem => hasSlot_of_not_inWindow hitem
    have hwindow : inCallOrder calls window <+: window ↔
        inCallOrder calls window <+: scanned calls window := by
      nth_rewrite 2 [← @scanned_append calls window]
      exact isPrefix_append_iff hslots hleft
    have hsettled : settled (turnIds calls) (scanned calls window) = scanned calls window :=
      if_neg hregroups
    rw [if_neg hregroups, hwindow, hsettled, isPrefix_append_iff hslots hsent]

/-- The turn is the one at its place. -/
theorem IsTurn.putsOutputs_iff (h : IsTurn items before calls window after)
    (hlength : (groupToolOutputsWithTheirCalls before).length = before.length) :
    (∃ front rest, groupToolOutputsWithTheirCalls items =
        front ++ (calls ++ inCallOrder calls window ++ rest) ∧ front.length = before.length) ↔
      inCallOrder calls window <+: settled (turnIds calls) (scanned calls window) ++
        groupToolOutputsWithTheirCalls (unscanned calls window ++ after) := by
  rw [h.group]
  constructor
  · intro ⟨front, rest, heq, hfront⟩
    have hbehind := (append_inj heq (hlength.trans hfront.symm)).2
    rw [append_assoc] at hbehind
    exact ⟨rest, (append_cancel_left hbehind).symm⟩
  · intro ⟨rest, heq⟩
    refine ⟨groupToolOutputsWithTheirCalls before, rest, ?_, hlength⟩
    rw [← heq, append_assoc calls]

theorem TurnAhead.isTurn {rest : List Value} (h : TurnAhead calls window rest)
    (hbefore : ∀ item ∈ before.getLast?, isNativeToolCallItem item = false) :
    IsTurn (before ++ (calls ++ window ++ rest)) before calls
      (window ++ rest.takeWhile fun item => ! isFixed item)
      (rest.dropWhile fun item => ! isFixed item) where
  eq := by rw [← append_assoc calls, append_assoc (calls ++ window),
    takeWhile_append_dropWhile]
  calls_ne_nil := h.calls_ne_nil
  calls_all := h.calls_all
  before_last := hbefore
  calls_maximal := by
    rw [append_assoc, takeWhile_append_dropWhile]
    exact h.calls_maximal
  window_all := by
    intro item hmem
    cases mem_append.mp hmem with
    | inl hwindow => exact isFixed_of_inWindow (h.window_all item hwindow)
    | inr hrest => simpa using mem_takeWhile_imp hrest
  window_maximal := stops_dropWhile _ rest

theorem TurnAhead.scanned_eq {rest : List Value} (h : TurnAhead calls window rest) :
    scanned calls (window ++ rest.takeWhile fun item => ! isFixed item) = window :=
  takeWhile_append h.window_all (h.window_maximal.takeWhile_stops _)

/-- Where no rewritten turn is answered twice, nothing is lost. -/
theorem length_group (hfront : (∀ item ∈ before.getLast?, isNativeToolCallItem item = false) ∨
      Stops isNativeToolCallItem items)
    (honce : ∀ front calls window after, IsTurn (before ++ items) front calls window after →
      regroups (turnIds calls) (scanned calls window) = true →
        AnsweredOnce (turnIds calls) (scanned calls window)) :
    (groupToolOutputsWithTheirCalls items).length = items.length := by
  induction items using turn_induction generalizing before with
  | hnil => rfl
  | hitem item items hcall ih =>
    rw [group_item hcall, length_cons, length_cons]
    refine congrArg _ (@ih (before ++ [item]) (.inl ?_) ?_)
    · intro other hother
      rw [getLast?_concat, mem_some_iff] at hother
      exact hother ▸ hcall
    · rw [append_assoc]
      exact honce
  | hturn calls window rest hahead ih =>
    have hbefore : ∀ item ∈ before.getLast?, isNativeToolCallItem item = false := by
      cases hfront with
      | inl h => exact h
      | inr h =>
        obtain ⟨item, others, rfl⟩ := exists_cons_of_ne_nil hahead.calls_ne_nil
        exact absurd (hahead.calls_all item mem_cons_self) (by rw [h item rfl]; nofun)
    have hthis := honce _ _ _ _ (hahead.isTurn hbefore)
    rw [hahead.scanned_eq] at hthis
    have hwindow := (settled_perm hahead.window_all hthis).length_eq
    have hrest : (groupToolOutputsWithTheirCalls rest).length = rest.length := by
      refine @ih (before ++ (calls ++ window)) ?_ ?_
      · cases window with
        | nil => exact .inr hahead.calls_maximal
        | cons first others =>
          refine .inl fun item hitem => ?_
          rw [← append_assoc, getLast?_append_of_ne_nil _ (cons_ne_nil _ _)] at hitem
          have hin := hahead.window_all item (mem_of_mem_getLast? hitem)
          cases hcall : isNativeToolCallItem item with
          | false => rfl
          | true => exact absurd hin (by rw [inWindow_of_fixed (isFixed_of_call hcall)]; nofun)
      · rw [append_assoc]
        exact honce
    rw [group_ahead hahead]
    simp only [length_append]
    omega

end Turn

/-- The grouping is a lossless reordering exactly if every turn is kept. -/
theorem losslessReordering_iff (items : List Value) :
    LosslessReordering items ↔ ∀ before calls window after,
      IsTurn items before calls window after → KeepsTurn calls window := by
  constructor
  · intro h before calls window after hturn
    obtain ⟨hbefore, hsettled⟩ := hturn.lengths h.permutation.length_eq
    have honce : regroups (turnIds calls) (scanned calls window) = true →
        AnsweredOnce (turnIds calls) (scanned calls window) :=
      fun hregroups => answeredOnce_of_length hturn.ahead.window_all hregroups hsettled
    refine { once := honce, placed := fun hanswered => ?_ }
    exact (hturn.isPrefix_iff honce).mp ((hturn.putsOutputs_iff hbefore).mp
      (h.grouped before calls window after hturn hanswered))
  · intro h
    have hlength : (groupToolOutputsWithTheirCalls items).length = items.length := by
      refine @length_group items [] (.inl nofun) fun front calls window after hturn => ?_
      exact (h front calls window after hturn).once
    refine
      { permutation := group_perm hlength
        order := group_filter items
        confined := group_aligned hlength
        grouped := fun before calls window after hturn hanswered => ?_
        stable := group_group items }
    have hkept := h before calls window after hturn
    exact (hturn.putsOutputs_iff (hturn.lengths hlength).1).mpr
      ((hturn.isPrefix_iff hkept.once).mpr (hkept.placed hanswered))

/-- A call that is answered twice with a notice between: the first answer is gone. -/
def answeredTwice : List Value :=
  [.object [("type", .string "function_call"), ("call_id", .string "c")],
    .object [("type", .string "function_call_output"), ("call_id", .string "c"), ("output", .string "1")],
    .object [("type", .string "message")],
    .object [("type", .string "function_call_output"), ("call_id", .string "c"), ("output", .string "2")]]

theorem answeredTwice_loses : ¬ LosslessReordering answeredTwice := by
  intro h
  have hlength : (groupToolOutputsWithTheirCalls answeredTwice).length = 3 := by decide +kernel
  exact absurd (hlength.symm.trans h.permutation.length_eq) (by decide)

end CodeSeeX.Native
