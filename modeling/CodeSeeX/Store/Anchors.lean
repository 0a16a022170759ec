import CodeSeeX.General.BoundedSearch
import CodeSeeX.Store.Operations

/-!
# Anchors of handed-back rounds and of requests in progress

A round that was handed back belongs to the finished turn with its user summary, and
a request in progress to the session with its user summary. Both are searched for in a
list, and both searches give up at an entry outside a window of twenty minutes, whatever
summary it has.
-/
namespace CodeSeeX.Store
open BoundedSearch Option List

/-! ## Finished turns -/

section Handoff
variable (crates : StoreCrates) (handoff : StoredRequest)

/-- A finished turn of the same user turn, created with the handed-back round or after it. -/
def SameUserTurn (final : UsageFinalAnchor) : Prop :=
  handoff.createdAt ≤ final.createdAt ∧ final.summaryKey = usageSummaryKey handoff

instance : DecidablePred (SameUserTurn handoff) := fun final =>
  inferInstanceAs (Decidable (handoff.createdAt ≤ final.createdAt ∧
    final.summaryKey = usageSummaryKey handoff))

/-- A finished turn after the window of the handed-back round. -/
def AfterWindow (final : UsageFinalAnchor) : Prop :=
  final.createdAt - handoff.createdAt > minutes 20

instance : DecidablePred (AfterWindow handoff) := fun final =>
  inferInstanceAs (Decidable (final.createdAt - handoff.createdAt > minutes 20))

/-- A round with a user summary belongs to the earliest finished turn with that summary, if there
is one, and to no turn with another summary. -/
structure HandoffAnchored (finals : List UsageFinalAnchor) : Prop where
  earliest : (∃ final ∈ finals, SameUserTurn handoff final) →
    ∃ final ∈ finals, SameUserTurn handoff final ∧
      usageFinalAnchorForHandoff crates handoff finals = some final.id ∧
      ∀ other ∈ finals, SameUserTurn handoff other → final.createdAt ≤ other.createdAt
  sameSummary : ∀ final ∈ finals,
    usageFinalAnchorForHandoff crates handoff finals = some final.id →
    final.summaryKey = usageSummaryKey handoff

variable {crates handoff}

/-- With a summary the loop is a search that gives up after the window. -/
theorem anchor_eq_search (hsummary : (usageSummaryKey handoff).isSome)
    (finals : List UsageFinalAnchor) :
    usageFinalAnchorForHandoff crates handoff finals =
      (search (SameUserTurn handoff) (AfterWindow handoff) finals).map (·.id) := by
  unfold usageFinalAnchorForHandoff
  induction finals with
  | nil => rfl
  | cons final finals ih =>
    rw [anchorLoop, search]
    by_cases hbefore : final.createdAt < handoff.createdAt
    · have hhit : ¬ SameUserTurn handoff final := fun h => absurd h.1 (not_le.mpr hbefore)
      have hstop : ¬ AfterWindow handoff final := by
        unfold AfterWindow minutes
        linarith
      rw [if_pos hbefore, if_neg hhit, if_neg hstop, ih]
    · by_cases hsame : usageSummaryKey handoff = final.summaryKey
      · rw [if_neg hbefore, if_pos ⟨hsummary, hsame⟩,
          if_pos (show SameUserTurn handoff final from ⟨not_lt.mp hbefore, hsame.symm⟩)]
        rfl
      · have hhit : ¬ SameUserTurn handoff final := fun h => hsame h.2.symm
        rw [if_neg hbefore, if_neg (fun h => hsame h.2), if_neg hhit]
        by_cases hstop : AfterWindow handoff final
        · rw [if_pos hstop, if_pos (show final.createdAt - handoff.createdAt > minutes 20 from hstop)]
          rfl
        · rw [if_neg hstop,
            if_neg (show ¬ final.createdAt - handoff.createdAt > minutes 20 from hstop),
            if_pos (.inl hsummary), ih]

/-- The order of the finished turns: by creation, then by id. -/
def anchorLe (left right : UsageFinalAnchor) : Prop :=
  left.createdAt < right.createdAt ∨ (left.createdAt = right.createdAt ∧ left.id ≤ right.id)

instance : DecidableRel anchorLe := fun left right =>
  inferInstanceAs (Decidable (left.createdAt < right.createdAt ∨
    (left.createdAt = right.createdAt ∧ left.id ≤ right.id)))

theorem usageFinalAnchors_sorted (inner : StoreInner) (turnHistory : List RequestTurn) :
    (usageFinalAnchors crates inner turnHistory).Pairwise anchorLe := by
  have htotal : Std.Total anchorLe := ⟨fun left right => by
    rcases lt_trichotomy left.createdAt right.createdAt with h | h | h
    · exact .inl (.inl h)
    · rcases le_total left.id right.id with hid | hid
      · exact .inl (.inr ⟨h, hid⟩)
      · exact .inr (.inr ⟨h.symm, hid⟩)
    · exact .inr (.inl h)⟩
  have htrans : IsTrans UsageFinalAnchor anchorLe := ⟨fun first second third h h' => by
    rcases h with h | ⟨h, hid⟩
    · rcases h' with h' | ⟨h', -⟩
      · exact .inl (lt_trans h h')
      · exact .inl (h' ▸ h)
    · rcases h' with h' | ⟨h', hid'⟩
      · exact .inl (h ▸ h')
      · exact .inr ⟨h.trans h', le_trans hid hid'⟩⟩
  exact pairwise_insertionSort anchorLe _

/-- A finished turn is known by its id. -/
theorem usageFinalAnchors_ext {inner : StoreInner} {turnHistory : List RequestTurn}
    {left right : UsageFinalAnchor} (hleft : left ∈ usageFinalAnchors crates inner turnHistory)
    (hright : right ∈ usageFinalAnchors crates inner turnHistory) (hid : left.id = right.id) :
    left = right := by
  have hread : ∀ final ∈ usageFinalAnchors crates inner turnHistory,
      ∃ request, inner.requests.lookup final.id = some request ∧
        final = usageFinalAnchor crates request final.id := by
    intro final hfinal
    rw [usageFinalAnchors, mem_insertionSort, mem_filterMap] at hfinal
    obtain ⟨turn, -, hturn⟩ := hfinal
    obtain ⟨request, hrequest, rfl⟩ := map_eq_some_iff.mp hturn
    exact ⟨request, hrequest, rfl⟩
  obtain ⟨request, hrequest, hl⟩ := hread left hleft
  obtain ⟨other, hother, hr⟩ := hread right hright
  rw [← hid, hrequest, some_inj] at hother
  rw [hl, hr, ← hid, hother]

/-- The anchor of a round with a summary is right exactly when no turn after the window, with
whatever summary, stands before the first turn with its own. -/
theorem handoff_anchored_iff (inner : StoreInner) (turnHistory : List RequestTurn)
    (hsummary : (usageSummaryKey handoff).isSome) :
    HandoffAnchored crates handoff (usageFinalAnchors crates inner turnHistory) ↔
      Unstopped (SameUserTurn handoff) (AfterWindow handoff)
        (usageFinalAnchors crates inner turnHistory) := by
  have hanchor := @anchor_eq_search crates handoff hsummary
    (usageFinalAnchors crates inner turnHistory)
  by_cases hany : ∃ final ∈ usageFinalAnchors crates inner turnHistory, SameUserTurn handoff final
  · rw [← search_found_iff hany]
    constructor
    · intro h
      obtain ⟨final, -, -, hfound, -⟩ := h.earliest hany
      rw [hanchor] at hfound
      obtain ⟨found, hsearch, -⟩ := map_eq_some_iff.mp hfound
      exact ⟨found, hsearch⟩
    · rintro ⟨final, hsearch⟩
      obtain ⟨hmem, hsame⟩ := mem_of_search hsearch
      rw [hsearch, map_some] at hanchor
      refine ⟨fun _ => ⟨final, hmem, hsame, hanchor, fun other hother hhit => ?_⟩,
        fun other hother hid => ?_⟩
      · rcases search_least (usageFinalAnchors_sorted inner turnHistory) hsearch hother hhit with
          rfl | hle
        · exact le_refl _
        · rcases hle with hlt | ⟨heq, -⟩
          · exact hlt.le
          · exact heq.le
      · rw [hanchor, some_inj] at hid
        rw [← usageFinalAnchors_ext hmem hother hid]
        exact hsame.2
  · refine iff_of_true ⟨fun h => absurd h hany, fun final hfinal hid => ?_⟩ ?_
    · rw [hanchor] at hid
      obtain ⟨found, hsearch, -⟩ := map_eq_some_iff.mp hid
      exact absurd ⟨found, mem_of_search hsearch⟩ hany
    · intro before final after hsplit hhit
      exact absurd ⟨final, by rw [hsplit]; simp, hhit⟩ hany

end Handoff

def userInput (summary : Text) : Value :=
  .object [("messages", .array [.object [("content", .string summary), ("role", .string "user")]])]

/-- A completed request of a user turn. -/
def turnRequest (id summary : Text) (createdAt : DateTime) : StoredRequest where
  id := id
  previousResponseId := none
  status := .completed
  model := none
  input := userInput summary
  response := .null
  turnMessages := []
  toolFacts := []
  diagnostic := none
  createdAt := createdAt
  updatedAt := createdAt

def storeOf (requests : List StoredRequest) : StoreInner :=
  { StoreInner.default with
    requests := HashMap.fill StoredRequest.id id ∅ requests
    requestOrder := requests.map (·.id) }

def handedBack : StoredRequest := turnRequest "resp_a" "Fix the tests" 0

/-- The anchors of a short turn at the given time and of the turn that ends the round. -/
def anchorsBehind (createdAt : DateTime) : List UsageFinalAnchor :=
  let turns := [turnRequest "resp_b" "Write the changelog" createdAt,
    turnRequest "resp_c" "Fix the tests" (minutes 30)]
  usageFinalAnchors epochCrates (storeOf turns) (turns.map (turnFromRequest epochCrates))

theorem shortTurn_anchored : HandoffAnchored epochCrates handedBack (anchorsBehind (minutes 10)) :=
  (handoff_anchored_iff _ _ (by decide +kernel)).mpr
    ((search_found_iff (by decide +kernel)).mp (isSome_iff_exists.mp (by decide +kernel)))

/-- A turn of another conversation, twenty-five minutes later, hides the turn of the round. -/
theorem otherTurn_hides : (usageSummaryKey handedBack).isSome ∧
    ¬ HandoffAnchored epochCrates handedBack (anchorsBehind (minutes 25)) := by
  refine ⟨by decide +kernel, fun h => ?_⟩
  obtain ⟨final, -, -, hanchor, -⟩ := h.earliest (by decide +kernel)
  have hnone : usageFinalAnchorForHandoff epochCrates handedBack (anchorsBehind (minutes 25)) =
      none := by decide +kernel
  rw [hnone] at hanchor
  cases hanchor

/-! ## Sessions of requests in progress -/

section Active
variable (crates : StoreCrates) (inner : StoreInner) (request : StoredRequest)

/-- A session that the request can join: of the same user turn, running or without a finished
turn, and started in the twenty minutes before. -/
def Joinable (session : UsageSession) : Prop :=
  (inner.requests.lookup session.id).any fun anchor =>
    anchor.createdAt ≤ request.createdAt ∧ request.createdAt - anchor.createdAt ≤ minutes 20 ∧
      (session.status = ("running" : Text) ∨ !session.conversationTurn) ∧
      usageSummaryKey anchor = usageSummaryKey request

instance : DecidablePred (Joinable inner request) := fun session =>
  inferInstanceAs (Decidable ((inner.requests.lookup session.id).any _ = true))

/-- A session that started before that window. -/
def BeforeWindow (session : UsageSession) : Prop :=
  (inner.requests.lookup session.id).any fun anchor =>
    anchor.createdAt ≤ request.createdAt ∧ request.createdAt - anchor.createdAt > minutes 20

instance : DecidablePred (BeforeWindow inner request) := fun session =>
  inferInstanceAs (Decidable ((inner.requests.lookup session.id).any _ = true))

/-- The request is merged into a session that it can join, if there is one. -/
def JoinsSession (sessions : List UsageSession) : Prop :=
  (∃ session ∈ sessions, Joinable inner request session) →
    ∃ session ∈ sessions, Joinable inner request session ∧
      usageActiveSessionAnchor crates request sessions inner = some session.id

variable {crates inner request}

/-- A weaker match found on the way is a running session in the window. -/
def WeakMatch (inner : StoreInner) (request : StoredRequest) (id : Text) : Prop :=
  ∃ session : UsageSession, session.id = id ∧ session.status = ("running" : Text) ∧
    ¬ Joinable inner request session ∧
    ∃ anchor, inner.requests.lookup id = some anchor ∧ anchor.createdAt ≤ request.createdAt ∧
      request.createdAt - anchor.createdAt ≤ minutes 20

/-- With a summary the loop gives what the search finds, else a weaker match or none. -/
theorem activeLoop_search (hsummary : (usageSummaryKey request).isSome)
    {fallback : Option Text} (hfallback : ∀ id ∈ fallback, WeakMatch inner request id)
    (sessions : List UsageSession) :
    match search (Joinable inner request) (BeforeWindow inner request) sessions with
    | some session => activeAnchorLoop crates inner request fallback sessions = some session.id
    | none => ∀ id ∈ activeAnchorLoop crates inner request fallback sessions,
        WeakMatch inner request id := by
  induction sessions generalizing fallback with
  | nil => exact hfallback
  | cons session sessions ih =>
    rw [search, activeAnchorLoop]
    cases hlook : inner.requests.lookup session.id with
    | none =>
      have hhit : ¬ Joinable inner request session := by simp [Joinable, hlook]
      have hstop : ¬ BeforeWindow inner request session := by simp [BeforeWindow, hlook]
      rw [if_neg hhit, if_neg hstop]
      exact ih hfallback
    | some anchor =>
      have hjoin : Joinable inner request session ↔
          anchor.createdAt ≤ request.createdAt ∧
            request.createdAt - anchor.createdAt ≤ minutes 20 ∧
            (session.status = ("running" : Text) ∨ !session.conversationTurn) ∧
            usageSummaryKey anchor = usageSummaryKey request := by
        simp [Joinable, hlook]
      have hold : BeforeWindow inner request session ↔
          anchor.createdAt ≤ request.createdAt ∧
            request.createdAt - anchor.createdAt > minutes 20 := by
        simp [BeforeWindow, hlook]
      simp only
      by_cases hlate : anchor.createdAt > request.createdAt
      · rw [if_neg (fun h => absurd (hjoin.mp h).1 (not_le.mpr hlate)),
          if_neg (fun h => absurd (hold.mp h).1 (not_le.mpr hlate)), if_pos hlate]
        exact ih hfallback
      rw [if_neg hlate]
      by_cases hstale : request.createdAt - anchor.createdAt > minutes 20
      · rw [if_neg (fun h => absurd (hjoin.mp h).2.1 (not_le.mpr hstale)),
          if_pos (hold.mpr ⟨not_lt.mp hlate, hstale⟩), if_pos hstale]
        exact hfallback
      rw [if_neg hstale, if_neg (fun h => hstale (hold.mp h).2)]
      by_cases hmergeable : session.status = ("running" : Text) ∨ !session.conversationTurn
      · rw [if_neg (not_not.mpr hmergeable)]
        by_cases hsame : usageSummaryKey request = usageSummaryKey anchor
        · rw [if_pos (hjoin.mpr ⟨not_lt.mp hlate, not_lt.mp hstale, hmergeable, hsame.symm⟩)]
          exact if_pos ⟨hsummary, hsame⟩
        · have hhit : ¬ Joinable inner request session := fun h => hsame (hjoin.mp h).2.2.2.symm
          rw [if_neg hhit, if_neg (fun h => hsame h.2)]
          split_ifs with hweak
          · refine ih fun id hid => ?_
            obtain rfl := some_inj.mp hid
            exact ⟨session, rfl, hweak.1, hhit, anchor, hlook, not_lt.mp hlate, not_lt.mp hstale⟩
          · exact ih hfallback
      · rw [if_pos hmergeable, if_neg (fun h => hmergeable (hjoin.mp h).2.2.1)]
        exact ih hfallback

/-- A weaker match is not the session of the same user turn, even under its id. -/
theorem WeakMatch.not_joinable {session : UsageSession} (h : WeakMatch inner request session.id) :
    ¬ Joinable inner request session := by
  obtain ⟨other, hid, hrunning, hnot, anchor, hlook, hcreated, hwindow⟩ := h
  intro hjoin
  apply hnot
  unfold Joinable at hjoin ⊢
  rw [hlook, any_some, decide_eq_true_eq] at hjoin
  rw [hid, hlook, any_some, decide_eq_true_eq]
  exact ⟨hcreated, hwindow, .inl hrunning, hjoin.2.2.2⟩

/-- For any sessions in any order, a request with a summary joins a session of its user turn
exactly when no session from before its window stands behind the last of these. -/
theorem joins_session_iff (sessions : List UsageSession)
    (hsummary : (usageSummaryKey request).isSome) :
    JoinsSession crates inner request sessions ↔
      Unstopped (Joinable inner request) (BeforeWindow inner request) sessions.reverse := by
  have hsearch := @activeLoop_search crates inner request hsummary none nofun sessions.reverse
  by_cases hany : ∃ session ∈ sessions, Joinable inner request session
  · have hreverse : ∃ session ∈ sessions.reverse, Joinable inner request session := by
      obtain ⟨session, hmem, hjoin⟩ := hany
      exact ⟨session, mem_reverse.mpr hmem, hjoin⟩
    rw [← search_found_iff hreverse]
    constructor
    · intro h
      obtain ⟨session, -, hjoin, hanchor⟩ := h hany
      cases hfound : search (Joinable inner request) (BeforeWindow inner request)
          sessions.reverse with
      | some found => exact ⟨found, rfl⟩
      | none =>
        rw [hfound] at hsearch
        exact absurd hjoin (hsearch session.id hanchor).not_joinable
    · rintro ⟨session, hfound⟩ -
      obtain ⟨hmem, hjoin⟩ := mem_of_search hfound
      rw [hfound] at hsearch
      exact ⟨session, mem_reverse.mp hmem, hjoin, hsearch⟩
  · refine iff_of_true (fun h => absurd h hany) ?_
    intro before session after hsplit hjoin
    refine absurd ⟨session, ?_, hjoin⟩ hany
    rw [← mem_reverse, hsplit]
    simp

end Active

/-- A turn that has been running since the given time, and a round of another turn, begun in minute
25 and handed back a minute later. -/
def runningTurn (createdAt : DateTime) : List (DateTime × Operation) :=
  [(createdAt, .checkpointRequest "resp_b" none none (userInput "Write the changelog")),
    (minutes 25, .checkpointRequest "resp_a" none none (userInput "Fix the tests")),
    (minutes 26, .finishRequest "resp_a" .completed
      (some (.object [("usage", .object [("input_tokens", natValue 3)])]))
      (some (.object [("codeseex_lifecycle", .string "client_tool_handoff")])))]

def runningStore (createdAt : DateTime) : StoreInner :=
  run epochCrates id StoreInner.default (runningTurn createdAt)

/-- The sessions of the store when the next request is to join one. -/
def runningSessions (createdAt : DateTime) : List UsageSession :=
  let inner := runningStore createdAt
  withActiveSessions epochCrates inner (minutes 30) (settledSessions epochCrates inner
    (completedConversationTurns epochCrates inner) (completedBillableRequests epochCrates inner))

/-- The next round of the turn that was handed back. -/
def nextRequest : StoredRequest :=
  { turnRequest "resp_c" "Fix the tests" (minutes 30) with status := .inProgress }

theorem recentSession_joins : JoinsSession epochCrates (runningStore (minutes 20)) nextRequest
    (runningSessions (minutes 20)) :=
  (joins_session_iff _ (by decide +kernel)).mpr
    ((search_found_iff (by decide +kernel)).mp (isSome_iff_exists.mp (by decide +kernel)))

/-- A turn that has been running for half an hour hides the session of the request. -/
theorem oldSession_hides : (usageSummaryKey nextRequest).isSome ∧
    ¬ JoinsSession epochCrates (runningStore 0) nextRequest (runningSessions 0) := by
  refine ⟨by decide +kernel, fun h => ?_⟩
  obtain ⟨session, -, -, hanchor⟩ := h (by decide +kernel)
  have hnone : usageActiveSessionAnchor epochCrates nextRequest (runningSessions 0)
      (runningStore 0) = none := by decide +kernel
  rw [hnone] at hanchor
  cases hanchor

end CodeSeeX.Store
