import CodeSeeX.Store.Billing

/-!
# The passes over the billable requests

Each pass only moves turns out of the pool of billable turns into the rows of a
session. The one row made without the pool is that of a finished turn for which
nothing was left. `Claims` says which requests a finished turn asks for; it gets
those that no finished turn listed before it asked for.
-/
namespace CodeSeeX.Store
open List HashMap AList

variable {pool : HashMap Text RequestTurn} {rows : List UsageSessionRow} {id : Text}
  {turn : RequestTurn} {pass : FinalPass}

/-- What a row and its turn have in common. -/
def UsageSessionRow.account (row : UsageSessionRow) : Text × Text × UsageBillingItem :=
  (row.id, row.lifecycle, row.billingItem)

def RequestTurn.account (turn : RequestTurn) : Text × Text × UsageBillingItem :=
  (turn.id, turn.lifecycle, turn.billingItem)

@[simp] theorem usageSessionRow_account (turn : RequestTurn) (isFinal : Bool) :
    (usageSessionRow turn isFinal).account = turn.account := rfl

/-- The rows of all sessions. -/
def sessionRows (sessions : List UsageSession) : List UsageSessionRow := sessions.flatMap (·.rows)

@[simp] theorem sessionRows_append (left right : List UsageSession) :
    sessionRows (left ++ right) = sessionRows left ++ sessionRows right := flatMap_append

@[simp] theorem sessionRows_singleton (session : UsageSession) :
    sessionRows [session] = session.rows := by simp [sessionRows]

/-! ## Finished turns -/

/-- The ids that a finished turn asks for: its chain, and the rounds anchored to it. -/
def Claims (pass : FinalPass) (chains : HashMap Text (List Text)) (finalTurn : RequestTurn)
    (id : Text) : Prop :=
  id ∈ (chains.lookup finalTurn.id).getD [] ∨
    id ∈ (pass.handoffIdsByFinalId.lookup finalTurn.id).getD [] ∨
    id ∈ (pass.guardStopIdsByFinalId.lookup finalTurn.id).getD []

theorem takeAnchored_perm (pool : HashMap Text RequestTurn) (rows : List UsageSessionRow)
    (ids : List Text) :
    ((takeAnchored pool rows ids).1.map (·.account) ++
      (takeAnchored pool rows ids).2.values.map (·.account)).Perm
      (rows.map (·.account) ++ pool.values.map (·.account)) := by
  have h := (removeEach_perm pool (ids.filter fun id => id ∉ rows.map (·.id))).map
    RequestTurn.account
  simp only [takeAnchored, map_append, map_map, append_assoc]
  apply Perm.append_left
  simpa [Function.comp_def] using h

/-- Rows that were taken out of the pool are not in it any more. -/
def RowsTaken (pool : HashMap Text RequestTurn) (rows : List UsageSessionRow) : Prop :=
  ∀ row ∈ rows, pool.lookup row.id = none

theorem lookup_takeAnchored (hrows : RowsTaken pool rows) (ids : List Text) :
    (takeAnchored pool rows ids).2.lookup id = some turn ↔
      pool.lookup id = some turn ∧ id ∉ ids := by
  simp only [takeAnchored, lookup_removeEach, mem_filter, decide_eq_true_eq]
  constructor
  · rintro ⟨hlook, hnot⟩
    refine ⟨hlook, fun hid => hnot ⟨hid, fun hrow => ?_⟩⟩
    obtain ⟨row, hmem, rfl⟩ := mem_map.mp hrow
    rw [hrows row hmem] at hlook
    cases hlook
  · rintro ⟨hlook, hnot⟩
    exact ⟨hlook, fun hid => hnot hid.1⟩

theorem takeAnchored_eq_nil (ids : List Text) :
    (takeAnchored pool rows ids).1 = [] ↔ rows = [] ∧ ∀ id ∈ ids, pool.lookup id = none := by
  simp only [takeAnchored, append_eq_nil_iff, map_eq_nil_iff,
    removeEach_eq_nil, and_congr_right_iff]
  rintro rfl
  simp

/-- A pool keeps every turn under its own id. -/
def PoolKeyed (pool : HashMap Text RequestTurn) : Prop :=
  ∀ id turn, pool.lookup id = some turn → turn.id = id

theorem PoolKeyed.mono {pool pool' : HashMap Text RequestTurn} (h : PoolKeyed pool)
    (hsub : ∀ id turn, pool'.lookup id = some turn → pool.lookup id = some turn) :
    PoolKeyed pool' := fun id turn hlook => h id turn (hsub id turn hlook)

theorem lookup_eq_none_of {pool pool' : HashMap Text RequestTurn} {ids : List Text}
    (h : ∀ turn, pool'.lookup id = some turn ↔ pool.lookup id = some turn ∧ id ∉ ids)
    (hid : id ∈ ids) : pool'.lookup id = none := by
  rw [Option.eq_none_iff_forall_ne_some]
  intro turn hlook
  exact ((h turn).mp hlook).2 hid

theorem rowsTaken_removeEach (hkeyed : PoolKeyed pool) (ids : List Text)
    (f : RequestTurn → UsageSessionRow) (hf : ∀ turn, (f turn).id = turn.id) :
    RowsTaken (pool.removeEach ids).2 ((pool.removeEach ids).1.map f) := by
  intro row hrow
  obtain ⟨turn, hturn, rfl⟩ := mem_map.mp hrow
  obtain ⟨id, hid, hlook⟩ := mem_removeEach hturn
  rw [hf, hkeyed id turn hlook]
  exact lookup_eq_none_of (fun _ => lookup_removeEach pool ids) hid

theorem rowsTaken_takeAnchored (hkeyed : PoolKeyed pool) (hrows : RowsTaken pool rows)
    (ids : List Text) :
    RowsTaken (takeAnchored pool rows ids).2 (takeAnchored pool rows ids).1 := by
  intro row hrow
  rcases mem_append.mp hrow with hrow | hrow
  · rw [Option.eq_none_iff_forall_ne_some]
    intro turn hlook
    have hbefore := ((lookup_takeAnchored hrows ids).mp hlook).1
    rw [hrows row hrow] at hbefore
    cases hbefore
  · exact rowsTaken_removeEach hkeyed _ _ (fun _ => rfl) row hrow

section FinalTurn
variable {pass : FinalPass} {chain : List Text} {finalTurn : RequestTurn}

/-- The rows of a finished turn's chain. -/
def chainRows (pass : FinalPass) (chain : List Text) (finalTurn : RequestTurn) :
    List UsageSessionRow × HashMap Text RequestTurn :=
  ((pass.billableById.removeEach chain).1.map fun turn =>
      usageSessionRow turn (turn.id = finalTurn.id),
    (pass.billableById.removeEach chain).2)

/-- The rows of its chain and of the rounds handed back for it. -/
def handoffRows (pass : FinalPass) (chain : List Text) (finalTurn : RequestTurn) :
    List UsageSessionRow × HashMap Text RequestTurn :=
  takeAnchored (chainRows pass chain finalTurn).2 (chainRows pass chain finalTurn).1
    ((pass.handoffIdsByFinalId.lookup finalTurn.id).getD [])

theorem finalTurnRows_eq :
    finalTurnRows pass chain finalTurn =
      takeAnchored (handoffRows pass chain finalTurn).2 (handoffRows pass chain finalTurn).1
        ((pass.guardStopIdsByFinalId.lookup finalTurn.id).getD []) := rfl

theorem finalTurnRows_perm :
    ((finalTurnRows pass chain finalTurn).1.map (·.account) ++
      (finalTurnRows pass chain finalTurn).2.values.map (·.account)).Perm
      (pass.billableById.values.map (·.account)) := by
  have hchain := (removeEach_perm pass.billableById chain).map RequestTurn.account
  apply (takeAnchored_perm _ _ _).trans
  apply (takeAnchored_perm _ _ _).trans
  simpa [chainRows, Function.comp_def] using hchain

variable (hkeyed : PoolKeyed pass.billableById)
include hkeyed

theorem rowsTaken_chainRows :
    RowsTaken (chainRows pass chain finalTurn).2 (chainRows pass chain finalTurn).1 :=
  rowsTaken_removeEach hkeyed chain _ fun _ => rfl

theorem rowsTaken_handoffRows :
    RowsTaken (handoffRows pass chain finalTurn).2 (handoffRows pass chain finalTurn).1 := by
  apply rowsTaken_takeAnchored _ (rowsTaken_chainRows hkeyed)
  exact hkeyed.mono fun id turn hlook => ((lookup_removeEach _ _).mp hlook).1

/-- A finished turn leaves in the pool what it does not ask for. -/
theorem lookup_finalTurnRows :
    (finalTurnRows pass chain finalTurn).2.lookup id = some turn ↔
      pass.billableById.lookup id = some turn ∧ id ∉ chain ∧
        id ∉ (pass.handoffIdsByFinalId.lookup finalTurn.id).getD [] ∧
        id ∉ (pass.guardStopIdsByFinalId.lookup finalTurn.id).getD [] := by
  rw [finalTurnRows_eq, lookup_takeAnchored (rowsTaken_handoffRows hkeyed), handoffRows,
    lookup_takeAnchored (rowsTaken_chainRows hkeyed), chainRows, lookup_removeEach,
    and_assoc, and_assoc]

/-- A finished turn has no row when nothing that it asks for is left. -/
theorem finalTurnRows_eq_nil :
    (finalTurnRows pass chain finalTurn).1 = [] ↔
      ∀ id, id ∈ chain ∨ id ∈ (pass.handoffIdsByFinalId.lookup finalTurn.id).getD [] ∨
        id ∈ (pass.guardStopIdsByFinalId.lookup finalTurn.id).getD [] →
        pass.billableById.lookup id = none := by
  constructor
  · intro hnil id hid
    rw [Option.eq_none_iff_forall_ne_some]
    intro turn hlook
    have hperm : ((finalTurnRows pass chain finalTurn).2.values.map (·.account)).Perm
        (pass.billableById.values.map (·.account)) := by
      have h := @finalTurnRows_perm pass chain finalTurn
      rwa [hnil, map_nil, nil_append] at h
    have hmem : turn.account ∈ pass.billableById.values.map (·.account) :=
      mem_map.mpr ⟨turn, mem_values.mpr ⟨id, hlook⟩, rfl⟩
    obtain ⟨kept, hkept, haccount⟩ := mem_map.mp (hperm.mem_iff.mpr hmem)
    obtain ⟨key, hkey⟩ := mem_values.mp hkept
    obtain ⟨hpool, hchain, hhandoff, hguard⟩ := (lookup_finalTurnRows hkeyed).mp hkey
    have hkeyeq : key = id := by
      rw [← hkeyed key kept hpool, ← hkeyed id turn hlook]
      exact congrArg Prod.fst haccount
    subst hkeyeq
    rcases hid with hid | hid | hid
    · exact hchain hid
    · exact hhandoff hid
    · exact hguard hid
  · intro hnone
    have hchain : (chainRows pass chain finalTurn).1 = [] := by
      rw [chainRows, map_eq_nil_iff, removeEach_eq_nil]
      exact fun id hid => hnone id (.inl hid)
    have hleft : ∀ id, pass.billableById.lookup id = none →
        (chainRows pass chain finalTurn).2.lookup id = none := by
      intro id hid
      rw [Option.eq_none_iff_forall_ne_some]
      intro turn hlook
      rw [((lookup_removeEach _ _).mp hlook).1] at hid
      cases hid
    have hhandoff : (handoffRows pass chain finalTurn).1 = [] := by
      rw [handoffRows, takeAnchored_eq_nil]
      exact ⟨hchain, fun id hid => hleft id (hnone id (.inr (.inl hid)))⟩
    rw [finalTurnRows_eq, takeAnchored_eq_nil]
    refine ⟨hhandoff, fun id hid => ?_⟩
    rw [Option.eq_none_iff_forall_ne_some]
    intro turn hlook
    have hbefore := ((lookup_takeAnchored (rowsTaken_chainRows hkeyed) _).mp hlook).1
    rw [hleft id (hnone id (.inr (.inr hid)))] at hbefore
    cases hbefore

end FinalTurn

/-! ## The pass over the finished turns -/

section FinalPass
variable {inner : StoreInner} {chains : HashMap Text (List Text)}

theorem claims_step {first other : RequestTurn} (hne : other.id ≠ first.id) (id : Text) :
    Claims (finalTurnStep inner chains pass first) chains other id ↔
      Claims pass chains other id := by
  simp only [Claims, finalTurnStep, lookup_erase_ne hne]

section
variable {pass : FinalPass} (hkeyed : PoolKeyed pass.billableById) (finalTurn : RequestTurn)
include hkeyed

theorem lookup_step :
    (finalTurnStep inner chains pass finalTurn).billableById.lookup id = some turn ↔
      pass.billableById.lookup id = some turn ∧ ¬ Claims pass chains finalTurn id := by
  simp only [finalTurnStep, lookup_finalTurnRows hkeyed, Claims, not_or]

theorem poolKeyed_step :
    PoolKeyed (finalTurnStep inner chains pass finalTurn).billableById :=
  hkeyed.mono fun _ _ hlook => ((lookup_step hkeyed finalTurn).mp hlook).1

end

/-- Nothing that the finished turn asks for is in the pool. -/
def Starved (pass : FinalPass) (chains : HashMap Text (List Text)) (finalTurn : RequestTurn) :
    Prop :=
  ∀ id, Claims pass chains finalTurn id → pass.billableById.lookup id = none

theorem rows_step {pass : FinalPass} (hkeyed : PoolKeyed pass.billableById)
    (finalTurn : RequestTurn) :
    ∃ fallback : List RequestTurn,
      (fallback = [finalTurn] ∧ Starved pass chains finalTurn ∨
        fallback = [] ∧ ¬ Starved pass chains finalTurn) ∧
      ((sessionRows (finalTurnStep inner chains pass finalTurn).sessions).map (·.account) ++
        (finalTurnStep inner chains pass finalTurn).billableById.values.map (·.account)).Perm
        ((sessionRows pass.sessions).map (·.account) ++
          pass.billableById.values.map (·.account) ++ fallback.map (·.account)) := by
  have hperm := @finalTurnRows_perm pass ((chains.lookup finalTurn.id).getD []) finalTurn
  have hnil := @finalTurnRows_eq_nil pass ((chains.lookup finalTurn.id).getD []) finalTurn hkeyed
  have hsorted : ∀ rows : List UsageSessionRow,
      ((rows.insertionSort fun left right => rowLe inner left.id right.id).map
        (·.account)).Perm (rows.map (·.account)) := fun rows => (perm_insertionSort _ rows).map _
  simp only [finalTurnStep, sessionRows_append, sessionRows_singleton, usageSessionFromRows,
    map_append, append_assoc]
  by_cases hrows : (finalTurnRows pass ((chains.lookup finalTurn.id).getD []) finalTurn).1 = []
  · refine ⟨[finalTurn], .inl ⟨rfl, hnil.mp hrows⟩, Perm.append_left _ ?_⟩
    rw [hrows, map_nil, nil_append] at hperm
    rw [hrows]
    refine ((hsorted _).append hperm).trans ?_
    simpa using (perm_append_singleton finalTurn.account _).symm
  · refine ⟨[], .inr ⟨rfl, fun h => hrows (hnil.mpr h)⟩, Perm.append_left _ ?_⟩
    rw [if_neg (by simpa using hrows)]
    simpa using ((hsorted _).append_right _).trans hperm

/-- What the finished turns leave in the pool. -/
theorem lookup_finalFold {turns : List RequestTurn} (hkeyed : PoolKeyed pass.billableById)
    (hnodup : (turns.map (·.id)).Nodup) :
    (turns.foldl (finalTurnStep inner chains) pass).billableById.lookup id = some turn ↔
      pass.billableById.lookup id = some turn ∧ ∀ other ∈ turns, ¬ Claims pass chains other id := by
  induction turns generalizing pass with
  | nil => simp
  | cons first turns ih =>
    rw [map_cons, nodup_cons] at hnodup
    rw [foldl_cons, ih (poolKeyed_step hkeyed first) hnodup.2, lookup_step hkeyed,
      forall_mem_cons, and_assoc]
    apply and_congr_right
    intro _
    apply and_congr_right
    intro _
    apply forall₂_congr
    intro other hmem
    have hne : other.id ≠ first.id :=
      fun heq => hnodup.1 (mem_map.mpr ⟨other, hmem, heq⟩)
    rw [claims_step hne]

/-- The finished turn finds nothing once those before it have taken their rows. -/
def StarvedAfter (pass : FinalPass) (chains : HashMap Text (List Text))
    (before : List RequestTurn) (finalTurn : RequestTurn) : Prop :=
  ∀ id, Claims pass chains finalTurn id → pass.billableById.lookup id = none ∨
    ∃ other ∈ before, Claims pass chains other id

/-- The finished turns that get a row made for them. -/
def FallbackTurns (pass : FinalPass) (chains : HashMap Text (List Text))
    (turns fallback : List RequestTurn) : Prop :=
  fallback.Sublist turns ∧
    ∀ before finalTurn after, turns = before ++ finalTurn :: after →
      (finalTurn ∈ fallback ↔ StarvedAfter pass chains before finalTurn)

theorem rows_finalFold {turns : List RequestTurn} {pass : FinalPass}
    (hkeyed : PoolKeyed pass.billableById) (hnodup : (turns.map (·.id)).Nodup) :
    ∃ fallback, FallbackTurns pass chains turns fallback ∧
      ((sessionRows (turns.foldl (finalTurnStep inner chains) pass).sessions).map (·.account) ++
        (turns.foldl (finalTurnStep inner chains) pass).billableById.values.map (·.account)).Perm
        ((sessionRows pass.sessions).map (·.account) ++
          pass.billableById.values.map (·.account) ++ fallback.map (·.account)) := by
  induction turns generalizing pass with
  | nil =>
    refine ⟨[], ⟨Sublist.refl _, fun before finalTurn after h => ?_⟩, by simp⟩
    simp at h
  | cons first turns ih =>
    rw [map_cons, nodup_cons] at hnodup
    obtain ⟨made, hmade, hstep⟩ := @rows_step inner chains pass hkeyed first
    obtain ⟨rest, ⟨hsub, hmem⟩, hfold⟩ :=
      ih (@poolKeyed_step inner chains pass hkeyed first) hnodup.2
    refine ⟨made ++ rest, ⟨?_, ?_⟩, ?_⟩
    · rcases hmade with ⟨rfl, _⟩ | ⟨rfl, _⟩
      · exact hsub.cons_cons first
      · exact hsub.cons first
    · intro before finalTurn after hsplit
      cases before with
      | nil =>
        obtain ⟨rfl, rfl⟩ : first = finalTurn ∧ turns = after := by simpa using hsplit
        have hfresh : first ∉ rest :=
          fun h => hnodup.1 (mem_map_of_mem (hsub.subset h))
        have hstarved : StarvedAfter pass chains [] first ↔ Starved pass chains first := by
          simp [StarvedAfter, Starved]
        rw [hstarved]
        rcases hmade with ⟨rfl, h⟩ | ⟨rfl, h⟩
        · simp [h]
        · simp [h, hfresh]
      | cons head before =>
        obtain ⟨rfl, hturns⟩ : first = head ∧ turns = before ++ finalTurn :: after := by
          simpa using hsplit
        have hinTurns : finalTurn ∈ turns := by simp [hturns]
        have hne : finalTurn.id ≠ first.id :=
          fun heq => hnodup.1 (mem_map.mpr ⟨finalTurn, hinTurns, heq⟩)
        have hnotMade : finalTurn ∉ made := by
          rcases hmade with ⟨rfl, _⟩ | ⟨rfl, _⟩
          · exact fun h => hne (congrArg RequestTurn.id (mem_singleton.mp h))
          · simp
        have hbefore : ∀ other ∈ before, ∀ id,
            Claims (finalTurnStep inner chains pass first) chains other id ↔
              Claims pass chains other id := by
          intro other hother id
          apply claims_step
          exact fun heq => hnodup.1 (mem_map.mpr ⟨other, by simp [hturns, hother], heq⟩)
        rw [mem_append, or_iff_right hnotMade, hmem before finalTurn after hturns]
        apply forall_congr'
        intro id
        rw [claims_step hne]
        apply imp_congr_right
        intro _
        have hlook : (finalTurnStep inner chains pass first).billableById.lookup id = none ↔
            pass.billableById.lookup id = none ∨ Claims pass chains first id := by
          by_cases hclaim : Claims pass chains first id
          · simp only [hclaim, or_true, iff_true, Option.eq_none_iff_forall_ne_some]
            exact fun turn h => ((lookup_step hkeyed first).mp h).2 hclaim
          · simp only [hclaim, or_false, Option.eq_none_iff_forall_ne_some]
            exact forall_congr' fun turn => not_congr
              ((lookup_step hkeyed first).trans (and_iff_left hclaim))
        simp only [hlook, or_assoc, mem_cons, exists_eq_or_imp]
        apply or_congr_right
        apply or_congr_right
        exact exists_congr fun other => and_congr_right fun h => hbefore other h id
    · rw [foldl_cons]
      refine hfold.trans ?_
      rw [map_append, ← append_assoc]
      exact (hstep.append_right _)

end FinalPass

/-! ## Grouping -/

theorem mem_pushEntry (map : HashMap Text (List Text)) (key new other id : Text) :
    id ∈ ((pushEntry map key new).lookup other).getD [] ↔
      id ∈ (map.lookup other).getD [] ∨ (other = key ∧ id = new) := by
  by_cases h : other = key
  · subst h
    simp [pushEntry]
  · simp [pushEntry, lookup_insert_ne h, h]

section Groups
variable {crates : StoreCrates} {inner : StoreInner}

/-- The requests that are listed under a finished turn are those anchored to it. -/
theorem mem_usageRequestsByFinalTurn (finals : List UsageFinalAnchor)
    (matches_ : StoredRequest → Bool) (anchorId id : Text) :
    id ∈ ((usageRequestsByFinalTurn crates inner finals matches_).lookup anchorId).getD [] ↔
      ∃ request ∈ inner.orderedRequests, matches_ request = true ∧
        usageFinalAnchorForHandoff crates request finals = some anchorId ∧ request.id = id := by
  have hfold : ∀ (requests : List StoredRequest) (output : HashMap Text (List Text)),
      id ∈ ((requests.foldl (addAnchored crates finals matches_) output).lookup anchorId).getD [] ↔
        id ∈ (output.lookup anchorId).getD [] ∨ ∃ request ∈ requests, matches_ request = true ∧
          usageFinalAnchorForHandoff crates request finals = some anchorId ∧ request.id = id := by
    intro requests
    induction requests with
    | nil => simp
    | cons request requests ih =>
      intro output
      rw [foldl_cons, ih]
      simp only [mem_cons, exists_eq_or_imp, ← or_assoc]
      apply or_congr_left
      cases hm : matches_ request with
      | false => simp [addAnchored, hm]
      | true =>
        cases ha : usageFinalAnchorForHandoff crates request finals with
        | none => simp [addAnchored, hm, ha]
        | some anchor =>
          simp only [addAnchored, hm, ha, if_true, mem_pushEntry, true_and, Option.some_inj]
          apply or_congr_right
          constructor
          · rintro ⟨rfl, rfl⟩
            exact ⟨rfl, rfl⟩
          · rintro ⟨rfl, rfl⟩
            exact ⟨rfl, rfl⟩
  rw [usageRequestsByFinalTurn, hfold]
  simp

/-- A turn that was handed back or stopped by the guard. -/
def HandedBack (inner : StoreInner) (turn : RequestTurn) : Prop :=
  turn.lifecycle = ("client_tool_handoff" : Text) ∨
    requestHasGuardStoppedById inner turn.id = true

theorem mem_nonFinalGroups {pool : HashMap Text RequestTurn} {turn : RequestTurn}
    (hpool : turn ∈ pool.values) (hstored : turn.id ∈ inner.requests)
    (hback : HandedBack inner turn) :
    ∃ key, turn.id ∈ ((nonFinalGroups crates inner pool).lookup key).getD [] := by
  obtain ⟨request, hrequest⟩ := Option.isSome_iff_exists.mp (lookup_isSome.mpr hstored)
  have hstep : ∀ (turns : List RequestTurn) (groups : HashMap Text (List Text)),
      (turn ∈ turns ∨ ∃ key, turn.id ∈ (groups.lookup key).getD []) →
      ∃ key, turn.id ∈ ((turns.foldl (addNonFinal crates inner) groups).lookup key).getD [] := by
    intro turns
    induction turns with
    | nil => simp
    | cons first turns ih =>
      intro groups h
      apply ih
      rw [mem_cons, or_assoc, or_left_comm] at h
      rcases h with h | rfl | ⟨key, hkey⟩
      · exact .inl h
      · right
        refine ⟨usageNonFinalSessionKey crates request, ?_⟩
        have hselected : ¬ (turn.lifecycle ≠ ("client_tool_handoff" : Text) ∧
            requestHasGuardStopped request = false) := by
          rintro ⟨hlife, hguard⟩
          rcases hback with hback | hback
          · exact hlife hback
          · simp [requestHasGuardStoppedById, hrequest, hguard] at hback
        simp only [addNonFinal, hrequest, if_neg hselected, mem_pushEntry]
        simp
      · right
        refine ⟨key, ?_⟩
        unfold addNonFinal
        split
        · exact hkey
        · split
          · exact hkey
          · exact (mem_pushEntry _ _ _ _ _).mpr (.inl hkey)
  exact hstep pool.values ∅ (.inl hpool)

theorem mem_sortedNonFinalGroups {key : Text} {ids : List Text}
    (h : (nonFinalGroups crates inner pool).lookup key = some ids) :
    (key, ids) ∈ sortedNonFinalGroups crates inner pool := by
  rw [sortedNonFinalGroups, mem_insertionSort, mem_map]
  exact ⟨⟨key, ids⟩, mem_lookup_iff.mp h, rfl⟩

/-! ## Sessions without a finished turn -/

section
variable (acc : HashMap Text RequestTurn × List UsageSession) (group : Text × List Text)

theorem pool_groupStep :
    (nonFinalGroupStep inner acc group).1 =
      (acc.1.removeEach (group.2.insertionSort (rowLe inner))).2 := by
  cases htaken : (acc.1.removeEach (group.2.insertionSort (rowLe inner))).1 with
  | nil => simp [nonFinalGroupStep, htaken]
  | cons turn turns => simp [nonFinalGroupStep, htaken]

theorem rows_groupStep :
    ((sessionRows (nonFinalGroupStep inner acc group).2).map (·.account) ++
      (nonFinalGroupStep inner acc group).1.values.map (·.account)).Perm
      ((sessionRows acc.2).map (·.account) ++ acc.1.values.map (·.account)) := by
  have hperm := (removeEach_perm acc.1 (group.2.insertionSort (rowLe inner))).map
    RequestTurn.account
  have hrows : (sessionRows (nonFinalGroupStep inner acc group).2).map (·.account) =
      (sessionRows acc.2).map (·.account) ++
        (acc.1.removeEach (group.2.insertionSort (rowLe inner))).1.map (·.account) := by
    cases htaken : (acc.1.removeEach (group.2.insertionSort (rowLe inner))).1 with
    | nil => simp [nonFinalGroupStep, htaken]
    | cons turn turns =>
      simp [nonFinalGroupStep, htaken, usageNonFinalSessionFromRows, usageSessionFromRows,
        Function.comp_def]
  rw [hrows, pool_groupStep, append_assoc, ← map_append]
  exact hperm.append_left _

theorem lookup_groupStep :
    (nonFinalGroupStep inner acc group).1.lookup id = some turn ↔
      acc.1.lookup id = some turn ∧ id ∉ group.2 := by
  rw [pool_groupStep, lookup_removeEach, mem_insertionSort]

end

section
variable (groups : List (Text × List Text)) (acc : HashMap Text RequestTurn × List UsageSession)

theorem rows_groupFold :
    ((sessionRows (groups.foldl (nonFinalGroupStep inner) acc).2).map (·.account) ++
      (groups.foldl (nonFinalGroupStep inner) acc).1.values.map (·.account)).Perm
      ((sessionRows acc.2).map (·.account) ++ acc.1.values.map (·.account)) := by
  induction groups generalizing acc with
  | nil => exact Perm.refl _
  | cons group groups ih => exact (ih _).trans (rows_groupStep acc group)

theorem lookup_groupFold :
    (groups.foldl (nonFinalGroupStep inner) acc).1.lookup id = some turn ↔
      acc.1.lookup id = some turn ∧ ∀ group ∈ groups, id ∉ group.2 := by
  induction groups generalizing acc with
  | nil => simp
  | cons group groups ih =>
    rw [foldl_cons, ih, lookup_groupStep, forall_mem_cons, and_assoc]

end

/-- No round that was handed back is left once the groups are taken. -/
theorem not_handedBack_of_nonFinalPass (hkeyed : PoolKeyed pass.billableById)
    (hstored : ∀ id turn, pass.billableById.lookup id = some turn → id ∈ inner.requests)
    (h : (nonFinalPass crates inner pass).1.lookup id = some turn) : ¬ HandedBack inner turn := by
  obtain ⟨hlook, hgroups⟩ := (lookup_groupFold _ _).mp h
  intro hback
  have hid := hkeyed id turn hlook
  subst hid
  obtain ⟨key, hkey⟩ := @mem_nonFinalGroups crates inner _ turn
    (mem_values.mpr ⟨_, hlook⟩) (hstored _ _ hlook) hback
  cases hgroup : (nonFinalGroups crates inner pass.billableById).lookup key with
  | none => simp [hgroup] at hkey
  | some ids =>
    rw [hgroup, Option.getD_some] at hkey
    exact hgroups _ (mem_sortedNonFinalGroups hgroup) hkey

/-! ## What is left over -/

theorem pool_leftOverStep (acc : HashMap Text RequestTurn × List UsageSession)
    (finalTurnIds : List Text) (turn : RequestTurn) :
    (leftOverStep inner finalTurnIds acc turn).1 = acc.1.erase turn.id := by
  cases hlook : acc.1.lookup turn.id with
  | none =>
    have hnot : turn.id ∉ acc.1.entries.keys := lookup_eq_none.mp hlook
    simp only [leftOverStep, hlook]
    exact ext (kerase_of_notMem_keys hnot).symm
  | some left =>
    simp only [leftOverStep, hlook]
    split <;> rfl

theorem rows_leftOverStep {acc : HashMap Text RequestTurn × List UsageSession}
    (hback : ∀ id turn, acc.1.lookup id = some turn → ¬ HandedBack inner turn)
    (finalTurnIds : List Text) (turn : RequestTurn) :
    ((sessionRows (leftOverStep inner finalTurnIds acc turn).2).map (·.account) ++
      (leftOverStep inner finalTurnIds acc turn).1.values.map (·.account)).Perm
      ((sessionRows acc.2).map (·.account) ++ acc.1.values.map (·.account)) := by
  cases hlook : acc.1.lookup turn.id with
  | none => simp [leftOverStep, hlook]
  | some left =>
    have hkeep : ¬ ((left.lifecycle = ("client_tool_handoff" : Text) ∨
        requestHasGuardStoppedById inner left.id = true) ∧ left.id ∉ finalTurnIds) :=
      fun h => hback _ _ hlook h.1
    have hperm := (values_perm_erase hlook).map RequestTurn.account
    simp only [leftOverStep, hlook, if_neg hkeep, sessionRows_append, sessionRows_singleton,
      usageSessionFromRows, map_append, append_assoc, map_cons, map_nil,
      usageSessionRow_account, singleton_append]
    exact hperm.symm.append_left _

theorem rows_leftOverFold (turns : List RequestTurn)
    {acc : HashMap Text RequestTurn × List UsageSession}
    (hback : ∀ id turn, acc.1.lookup id = some turn → ¬ HandedBack inner turn)
    (hturns : ∀ id turn, acc.1.lookup id = some turn → id ∈ turns.map (·.id))
    (finalTurnIds : List Text) :
    ((sessionRows (turns.foldl (leftOverStep inner finalTurnIds) acc).2).map (·.account)).Perm
      ((sessionRows acc.2).map (·.account) ++ acc.1.values.map (·.account)) := by
  induction turns generalizing acc with
  | nil =>
    have hempty : acc.1.values = [] := by
      apply values_eq_nil
      intro key
      rw [Option.eq_none_iff_forall_ne_some]
      intro turn hlook
      simpa using hturns key turn hlook
    simp [hempty]
  | cons turn turns ih =>
    have herased : ∀ id left,
        (leftOverStep inner finalTurnIds acc turn).1.lookup id = some left →
          id ≠ turn.id ∧ acc.1.lookup id = some left := by
      intro id left hlook
      rw [pool_leftOverStep] at hlook
      have hne : id ≠ turn.id := by
        rintro rfl
        simp at hlook
      exact ⟨hne, by rwa [lookup_erase_ne hne] at hlook⟩
    refine (ih (fun id left hlook => hback id left (herased id left hlook).2) ?_).trans
      (rows_leftOverStep hback finalTurnIds turn)
    intro id left hlook
    obtain ⟨hne, hbefore⟩ := herased id left hlook
    have hmem := hturns id left hbefore
    rw [map_cons, mem_cons] at hmem
    exact hmem.resolve_left hne

/-! ## Requests in progress -/

theorem sessionRows_modifyFirst (p : UsageSession → Bool) {f : UsageSession → UsageSession}
    (hf : ∀ session, (f session).rows = session.rows) (sessions : List UsageSession) :
    sessionRows (modifyFirst p f sessions) = sessionRows sessions := by
  induction sessions with
  | nil => rfl
  | cons session sessions ih =>
    rw [modifyFirst]
    split
    · simp [sessionRows, hf]
    · simpa [sessionRows] using ih

theorem sessionRows_activeStep (now : DateTime) (acc : List UsageSession × List Text)
    (request : StoredRequest) :
    sessionRows (activeStep crates inner now acc request).1 = sessionRows acc.1 := by
  unfold activeStep
  split
  · rfl
  · cases usageActiveSessionAnchor crates request acc.1 inner with
    | some anchorId => exact sessionRows_modifyFirst _ (by intro session; rfl) _
    | none => simp [usageSessionFromActiveRequest]

/-- A request in progress brings no row. -/
theorem sessionRows_withActiveSessions (now : DateTime) (sessions : List UsageSession) :
    sessionRows (withActiveSessions crates inner now sessions) = sessionRows sessions := by
  have hfold : ∀ (requests : List StoredRequest) (acc : List UsageSession × List Text),
      sessionRows (requests.foldl (activeStep crates inner now) acc).1 = sessionRows acc.1 := by
    intro requests
    induction requests with
    | nil => exact fun _ => rfl
    | cons request requests ih => exact fun acc => (ih _).trans (sessionRows_activeStep now acc request)
  exact hfold _ _

/-! ## All sessions -/

/-- The two histories that the sessions are built from, as the store reads them. -/
structure Histories (crates : StoreCrates) (inner : StoreInner)
    (turnHistory billableHistory : List RequestTurn) : Prop where
  turns_nodup : (turnHistory.map (·.id)).Nodup
  billable_nodup : (billableHistory.map (·.id)).Nodup
  turns_stored : ∀ turn ∈ turnHistory, ∃ request,
    inner.requests.lookup turn.id = some request ∧ turn = turnFromRequest crates request ∧
      requestIsCompletedFinalTurn request = true
  billable_stored : ∀ turn ∈ billableHistory, ∃ request,
    inner.requests.lookup turn.id = some request ∧ turn = turnFromRequest crates request ∧
      requestIsCompletedBillableRequest request = true

section
variable {billableHistory : List RequestTurn} (h : (billableHistory.map (·.id)).Nodup)
include h

theorem turnPool_values :
    (turnPool billableHistory).values.Perm billableHistory := by
  simpa [turnPool] using values_fill RequestTurn.id id billableHistory h

theorem lookup_turnPool :
    (turnPool billableHistory).lookup id = some turn ↔ turn ∈ billableHistory ∧ turn.id = id := by
  constructor
  · intro hlook
    obtain ⟨stored, hmem, hid, rfl⟩ := exists_of_lookup_fill _ _ _ hlook
    exact ⟨hmem, hid⟩
  · rintro ⟨hmem, rfl⟩
    exact lookup_fill RequestTurn.id _ billableHistory ∅ h hmem

end

variable {turnHistory billableHistory : List RequestTurn}

theorem poolKeyed_turnPool (h : (billableHistory.map (·.id)).Nodup) :
    PoolKeyed (turnPool billableHistory) :=
  fun _ _ hlook => ((lookup_turnPool h).mp hlook).2

/-- Every billable turn has one row; the other rows were made for starved finished turns. -/
theorem rows_settledSessions (h : Histories crates inner turnHistory billableHistory) :
    ∃ fallback,
      FallbackTurns (initialPass crates inner turnHistory billableHistory)
        (usageChains inner turnHistory) turnHistory fallback ∧
      ((sessionRows (settledSessions crates inner turnHistory billableHistory)).map
        (·.account)).Perm (billableHistory.map (·.account) ++ fallback.map (·.account)) := by
  have hkeyed : PoolKeyed (initialPass crates inner turnHistory billableHistory).billableById :=
    poolKeyed_turnPool h.billable_nodup
  obtain ⟨fallback, hfallback, hfinal⟩ :=
    @rows_finalFold inner (usageChains inner turnHistory) turnHistory _ hkeyed h.turns_nodup
  refine ⟨fallback, hfallback, ?_⟩
  have hpool : ∀ id turn,
      (finalPass crates inner turnHistory billableHistory).billableById.lookup id = some turn →
        turn ∈ billableHistory ∧ turn.id = id := by
    intro id turn hlook
    have hstart := ((lookup_finalFold hkeyed h.turns_nodup).mp hlook).1
    exact (lookup_turnPool h.billable_nodup).mp hstart
  have hstored : ∀ id turn,
      (finalPass crates inner turnHistory billableHistory).billableById.lookup id = some turn →
        id ∈ inner.requests := by
    intro id turn hlook
    obtain ⟨hmem, rfl⟩ := hpool id turn hlook
    obtain ⟨request, hrequest, _⟩ := h.billable_stored turn hmem
    exact lookup_isSome.mp (by simp [hrequest])
  have hgroups := @rows_groupFold inner
    (sortedNonFinalGroups crates inner
      (finalPass crates inner turnHistory billableHistory).billableById)
    ((finalPass crates inner turnHistory billableHistory).billableById,
      (finalPass crates inner turnHistory billableHistory).sessions)
  have hleft := @rows_leftOverFold inner billableHistory
    (nonFinalPass crates inner (finalPass crates inner turnHistory billableHistory))
    (fun _ _ hlook => not_handedBack_of_nonFinalPass
      (fun id turn hl => (hpool id turn hl).2) hstored hlook)
    (fun id turn hlook => by
      obtain ⟨hmem, rfl⟩ := hpool id turn ((lookup_groupFold _ _).mp hlook).1
      exact mem_map_of_mem hmem)
    (turnHistory.map (·.id))
  refine (hleft.trans hgroups).trans (hfinal.trans ?_)
  have hvalues := (turnPool_values h.billable_nodup).map RequestTurn.account
  simpa [initialPass, sessionRows] using hvalues.append_right (fallback.map (·.account))

theorem rows_usageSessions (h : Histories crates inner turnHistory billableHistory)
    (now : DateTime) :
    ∃ fallback,
      FallbackTurns (initialPass crates inner turnHistory billableHistory)
        (usageChains inner turnHistory) turnHistory fallback ∧
      ((sessionRows (usageSessionsFromInner crates inner now turnHistory billableHistory)).map
        (·.account)).Perm (billableHistory.map (·.account) ++ fallback.map (·.account)) := by
  obtain ⟨fallback, hfallback, hrows⟩ := rows_settledSessions h
  refine ⟨fallback, hfallback, Perm.trans ?_ hrows⟩
  apply Perm.map
  rw [← @sessionRows_withActiveSessions crates inner now
    (settledSessions crates inner turnHistory billableHistory)]
  exact (perm_insertionSort
    (fun left right : UsageSession => left.completedAt ≤ right.completedAt) _).flatMap_right _

end Groups
end CodeSeeX.Store
