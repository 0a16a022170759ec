import CodeSeeX.Store.Passes

/-!
# How settled sessions are built

Every session that accounts for billable requests was built in one of three ways,
from rows of turns of the two histories. What holds of sessions built so holds of
all of them.
-/
namespace CodeSeeX.Store
open List

/-- A row made from one of these turns. -/
def RowOf (turns : List RequestTurn) (row : UsageSessionRow) : Prop :=
  ∃ turn ∈ turns, ∃ isFinal, row = usageSessionRow turn isFinal

inductive Settled (inner : StoreInner) (turnHistory billableHistory : List RequestTurn) :
    UsageSession → Prop
  | finalTurn {finalTurn : RequestTurn} {rows : List UsageSessionRow}
      (hturn : finalTurn ∈ turnHistory)
      (hrows : ∀ row ∈ rows, RowOf (turnHistory ++ billableHistory) row) :
      Settled inner turnHistory billableHistory
        (usageSessionFromRows inner finalTurn (inner.requests.lookup finalTurn.id) rows true)
  | nonFinal {anchor : UsageSessionRow} {rows : List UsageSessionRow}
      (hrows : ∀ row ∈ anchor :: rows, RowOf (turnHistory ++ billableHistory) row) :
      Settled inner turnHistory billableHistory
        (usageNonFinalSessionFromRows inner anchor (anchor :: rows))
  | leftOver {turn : RequestTurn} (hturn : turn ∈ billableHistory) :
      Settled inner turnHistory billableHistory
        (usageSessionFromRows inner turn (inner.requests.lookup turn.id)
          [usageSessionRow turn false] false)

section Histories
variable {inner : StoreInner} {turnHistory billableHistory : List RequestTurn}

/-- A pool of turns of the billable history. -/
def PoolOf (billableHistory : List RequestTurn) (pool : HashMap Text RequestTurn) : Prop :=
  ∀ id turn, pool.lookup id = some turn → turn ∈ billableHistory

section
variable {pool : HashMap Text RequestTurn} (h : PoolOf billableHistory pool)
include h

theorem PoolOf.removeEach (ids : List Text) : PoolOf billableHistory (pool.removeEach ids).2 := by
  intro id turn hlook
  exact h id turn ((HashMap.lookup_removeEach pool ids).mp hlook).1

theorem PoolOf.rows (ids : List Text) (isFinal : RequestTurn → Bool) :
    ∀ row ∈ (pool.removeEach ids).1.map (fun turn => usageSessionRow turn (isFinal turn)),
      RowOf (turnHistory ++ billableHistory) row := by
  intro row hrow
  obtain ⟨turn, hturn, rfl⟩ := mem_map.mp hrow
  obtain ⟨id, _, hlook⟩ := HashMap.mem_removeEach hturn
  exact ⟨turn, mem_append_right _ (h id turn hlook), isFinal turn, rfl⟩

theorem rowOf_takeAnchored
    {rows : List UsageSessionRow} (hrows : ∀ row ∈ rows, RowOf (turnHistory ++ billableHistory) row)
    (ids : List Text) :
    ∀ row ∈ (takeAnchored pool rows ids).1, RowOf (turnHistory ++ billableHistory) row := by
  intro row hrow
  rcases mem_append.mp hrow with hrow | hrow
  · exact hrows row hrow
  · exact h.rows _ (fun _ => false) row hrow

end

theorem rowOf_finalTurnRows {pass : FinalPass} (h : PoolOf billableHistory pass.billableById)
    (chain : List Text) (finalTurn : RequestTurn) :
    ∀ row ∈ (finalTurnRows pass chain finalTurn).1, RowOf (turnHistory ++ billableHistory) row := by
  have hchain := h.removeEach chain
  apply rowOf_takeAnchored (hchain.removeEach _)
  apply rowOf_takeAnchored hchain
  exact h.rows chain fun turn => turn.id = finalTurn.id

theorem settled_finalFold (chains : HashMap Text (List Text)) {turns : List RequestTurn}
    {pass : FinalPass} (hturns : ∀ turn ∈ turns, turn ∈ turnHistory)
    (hpool : PoolOf billableHistory pass.billableById)
    (hsessions : ∀ session ∈ pass.sessions, Settled inner turnHistory billableHistory session) :
    PoolOf billableHistory (turns.foldl (finalTurnStep inner chains) pass).billableById ∧
      ∀ session ∈ (turns.foldl (finalTurnStep inner chains) pass).sessions,
        Settled inner turnHistory billableHistory session := by
  induction turns generalizing pass with
  | nil => exact ⟨hpool, hsessions⟩
  | cons turn turns ih =>
    have hturn := hturns turn mem_cons_self
    apply ih fun other hmem => hturns other (mem_cons_of_mem _ hmem)
    · exact ((hpool.removeEach _).removeEach _).removeEach _
    · intro session hmem
      rcases mem_append.mp hmem with hmem | hmem
      · exact hsessions session hmem
      · rw [mem_singleton.mp hmem]
        apply Settled.finalTurn hturn
        intro row hrow
        rw [mem_insertionSort] at hrow
        split at hrow
        · rw [mem_singleton.mp hrow]
          exact ⟨turn, mem_append_left _ hturn, true, rfl⟩
        · exact rowOf_finalTurnRows hpool _ turn row hrow

theorem settled_groupFold (groups : List (Text × List Text))
    {acc : HashMap Text RequestTurn × List UsageSession} (hpool : PoolOf billableHistory acc.1)
    (hsessions : ∀ session ∈ acc.2, Settled inner turnHistory billableHistory session) :
    PoolOf billableHistory (groups.foldl (nonFinalGroupStep inner) acc).1 ∧
      ∀ session ∈ (groups.foldl (nonFinalGroupStep inner) acc).2,
        Settled inner turnHistory billableHistory session := by
  induction groups generalizing acc with
  | nil => exact ⟨hpool, hsessions⟩
  | cons group groups ih =>
    apply ih
    · rw [pool_groupStep]
      exact hpool.removeEach _
    · have hrows := @PoolOf.rows turnHistory billableHistory acc.1 hpool
        (group.2.insertionSort (rowLe inner)) fun _ => false
      intro session hmem
      simp only [nonFinalGroupStep] at hmem
      split at hmem
      · exact hsessions session hmem
      · rename_i anchor rows heq
        rw [heq] at hrows hmem
        rcases mem_append.mp hmem with hmem | hmem
        · exact hsessions session hmem
        · rw [mem_singleton.mp hmem]
          exact Settled.nonFinal hrows

theorem settled_leftOverFold (finalTurnIds : List Text) (turns : List RequestTurn)
    {acc : HashMap Text RequestTurn × List UsageSession} (hpool : PoolOf billableHistory acc.1)
    (hsessions : ∀ session ∈ acc.2, Settled inner turnHistory billableHistory session) :
    ∀ session ∈ (turns.foldl (leftOverStep inner finalTurnIds) acc).2,
      Settled inner turnHistory billableHistory session := by
  induction turns generalizing acc with
  | nil => exact hsessions
  | cons turn turns ih =>
    apply ih
    · rw [pool_leftOverStep]
      intro id other hother
      by_cases hid : id = turn.id
      · rw [hid, AList.lookup_erase] at hother
        cases hother
      · exact hpool id other (by rwa [AList.lookup_erase_ne hid] at hother)
    · intro session hmem
      cases hlook : acc.1.lookup turn.id with
      | none =>
        simp only [leftOverStep, hlook] at hmem
        exact hsessions session hmem
      | some left =>
        simp only [leftOverStep, hlook] at hmem
        split at hmem
        · exact hsessions session hmem
        · rcases mem_append.mp hmem with hmem | hmem
          · exact hsessions session hmem
          · rw [mem_singleton.mp hmem]
            exact Settled.leftOver (hpool turn.id left hlook)

/-- The three passes make no session in another way. -/
theorem settled_settledSessions (crates : StoreCrates) {session : UsageSession}
    (h : session ∈ settledSessions crates inner turnHistory billableHistory) :
    Settled inner turnHistory billableHistory session := by
  have hpool : PoolOf billableHistory (turnPool billableHistory) := by
    intro id turn hlook
    obtain ⟨stored, hstored, _, rfl⟩ := HashMap.exists_of_lookup_fill RequestTurn.id _ _ hlook
    exact hstored
  have hfinal := @settled_finalFold inner turnHistory billableHistory
    (usageChains inner turnHistory) turnHistory
    (initialPass crates inner turnHistory billableHistory) (fun _ hmem => hmem) hpool
    (by simp [initialPass])
  have hgroups := @settled_groupFold inner turnHistory billableHistory
    (sortedNonFinalGroups crates inner
      (finalPass crates inner turnHistory billableHistory).billableById)
    ((finalPass crates inner turnHistory billableHistory).billableById,
      (finalPass crates inner turnHistory billableHistory).sessions) hfinal.1 hfinal.2
  exact settled_leftOverFold (turnHistory.map RequestTurn.id) billableHistory hgroups.1 hgroups.2 session h

end Histories
end CodeSeeX.Store
