import CodeSeeX.General.Paging
import CodeSeeX.Store.Conservation
import CodeSeeX.Store.SettledSessions

/-!
# Following the session cursor

The sessions are listed by completion time alone, the cursor compares completion
time and id. The pages therefore list every session once, for every limit,
exactly when neighbours that share a completion time are listed by id.
-/
namespace CodeSeeX.Store
open List Option Text

variable {sessions : List UsageSession} {session : UsageSession} {inner : StoreInner}
  {items : List UsageSessionSummary}

section Crates
variable {crates : StoreCrates} {redactSecretText : Text → Text}

/-! ## Completion times -/

def SessionsTimed (crates : StoreCrates) (sessions : List UsageSession) : Prop :=
  ∀ session ∈ sessions, IsTimestamp crates session.completedAt

theorem SessionsTimed.append (h : SessionsTimed crates sessions)
    (hsession : IsTimestamp crates session.completedAt) :
    SessionsTimed crates (sessions ++ [session]) := by
  intro other hmem
  rcases mem_append.mp hmem with hmem | hmem
  · exact h other hmem
  · rw [mem_singleton.mp hmem]
    exact hsession

theorem timed_of_settled {turnHistory billableHistory : List RequestTurn}
    (hturns : ∀ turn ∈ turnHistory ++ billableHistory, IsTimestamp crates turn.completedAt)
    (h : Settled inner turnHistory billableHistory session) :
    IsTimestamp crates session.completedAt := by
  have hrow : ∀ row, RowOf (turnHistory ++ billableHistory) row →
      IsTimestamp crates row.completedAt := by
    rintro row ⟨turn, hturn, isFinal, rfl⟩
    exact hturns turn hturn
  cases h with
  | finalTurn hturn _ => exact hturns _ (mem_append_left _ hturn)
  | @nonFinal anchor rows hrows =>
    -- the last row gives the completion time
    show IsTimestamp crates
      ((((anchor :: rows).getLast?).map (·.completedAt)).getD anchor.completedAt)
    exact hrow _ (hrows _ (getLast_mem _))
  | leftOver hturn => exact hturns _ (mem_append_right _ hturn)

theorem maxText_mem {texts : List Text} {text : Text} (h : maxText texts = some text) :
    text ∈ texts := by
  have hfold : ∀ (texts : List Text) (best : Text),
      texts.foldl (fun best text => if best ≤ text then text else best) best ∈ best :: texts := by
    intro texts
    induction texts with
    | nil => simp
    | cons next texts ih =>
      intro best
      rw [foldl_cons]
      rcases mem_cons.mp (ih (if best ≤ next then next else best)) with heq | hmem
      · rw [heq]
        split <;> simp
      · simp [hmem]
  cases texts with
  | nil => simp [maxText] at h
  | cons first texts =>
    obtain rfl := some_inj.mp h
    exact hfold texts first

theorem timed_activeSession (hevents : EventsTimed crates inner) (now : DateTime)
    (request : StoredRequest) :
    IsTimestamp crates (usageSessionFromActiveRequest crates inner now request).completedAt := by
  show IsTimestamp crates ((latestRequestEventTs inner request.id).getD
    (turnFromRequest crates request).completedAt)
  cases hlatest : latestRequestEventTs inner request.id with
  | none => exact ⟨request.updatedAt, rfl⟩
  | some ts =>
    obtain ⟨event, hevent, rfl⟩ := mem_map.mp (maxText_mem hlatest)
    exact hevents event (mem_of_mem_filter hevent)

theorem mem_modifyFirst {α : Type} {p : α → Bool} {f : α → α} {l : List α} {x : α}
    (h : x ∈ modifyFirst p f l) : x ∈ l ∨ ∃ y ∈ l, x = f y := by
  induction l with
  | nil => exact .inl h
  | cons y l ih =>
    simp only [modifyFirst] at h
    split at h
    · rcases mem_cons.mp h with rfl | hmem
      · exact .inr ⟨y, by simp, rfl⟩
      · exact .inl (by simp [hmem])
    · rcases mem_cons.mp h with rfl | hmem
      · exact .inl (by simp)
      · rcases ih hmem with hmem | ⟨z, hz, rfl⟩
        · exact .inl (by simp [hmem])
        · exact .inr ⟨z, by simp [hz], rfl⟩

theorem timed_withActiveSessions (hevents : EventsTimed crates inner) (now : DateTime)
    (hsessions : SessionsTimed crates sessions) :
    SessionsTimed crates (withActiveSessions crates inner now sessions) := by
  have hfold : ∀ (requests : List StoredRequest) (acc : List UsageSession × List Text),
      SessionsTimed crates acc.1 →
      SessionsTimed crates (requests.foldl (activeStep crates inner now) acc).1 := by
    intro requests
    induction requests with
    | nil => exact fun _ hacc => hacc
    | cons request requests ih =>
      intro acc hacc
      have hactive := timed_activeSession hevents now request
      apply ih
      simp only [activeStep]
      split
      · exact hacc
      · split
        · intro session hmem
          rcases mem_modifyFirst hmem with hmem | ⟨existing, _, rfl⟩
          · exact hacc session hmem
          · exact hactive
        · exact hacc.append hactive
  exact hfold _ _ hsessions

/-- The sessions of a state were completed at times of the clock. -/
theorem timed_stateSessions (hevents : EventsTimed crates inner) (now : DateTime) :
    SessionsTimed crates (stateSessions crates inner now) := by
  have hturns : ∀ turn ∈ completedConversationTurns crates inner ++
      completedBillableRequests crates inner, IsTimestamp crates turn.completedAt := by
    intro turn hturn
    rcases mem_append.mp hturn with hturn | hturn
    · obtain ⟨request, _, rfl⟩ := mem_map.mp ((newest_sublist _ _).subset hturn)
      exact ⟨request.updatedAt, rfl⟩
    · obtain ⟨request, _, rfl⟩ := mem_map.mp hturn
      exact ⟨request.updatedAt, rfl⟩
  have hsettled : SessionsTimed crates (settledSessions crates inner
      (completedConversationTurns crates inner) (completedBillableRequests crates inner)) :=
    fun session hmem => timed_of_settled hturns (settled_settledSessions crates hmem)
  intro session hmem
  exact timed_withActiveSessions hevents now hsettled session
    ((mem_insertionSort _).mp hmem)

/-! ## Pages -/

/-- The pages from a cursor on, each asked for at the next time of the clock, hold `out`. -/
inductive FollowsPages (crates : StoreCrates) (limit : ℕ) :
    (ℕ → DateTime) → StoreInner → Option Text → List UsageSessionSummary → Prop
  | last {clock : ℕ → DateTime} {inner : StoreInner} {cursor : Option Text}
      (h : (usagePage crates inner (clock 0) limit cursor none).1.hasMore = false) :
      FollowsPages crates limit clock inner cursor
        (usagePage crates inner (clock 0) limit cursor none).1.usageSessions
  | more {clock : ℕ → DateTime} {inner : StoreInner} {cursor : Option Text}
      {rest : List UsageSessionSummary}
      (h : (usagePage crates inner (clock 0) limit cursor none).1.hasMore = true)
      (hrest : FollowsPages crates limit (fun n => clock (n + 1))
        (usagePage crates inner (clock 0) limit cursor none).2
        (usagePage crates inner (clock 0) limit cursor none).1.nextCursor rest) :
      FollowsPages crates limit clock inner cursor
        ((usagePage crates inner (clock 0) limit cursor none).1.usageSessions ++ rest)

/-- The session is listed behind the cursor that names the other one. -/
def Follows (session cursor : UsageSessionSummary) : Prop :=
  usageSessionSummaryCursor session < trim (usageSessionSummaryCursor cursor)

instance : DecidableRel Follows := fun session cursor =>
  inferInstanceAs (Decidable (usageSessionSummaryCursor session <
    trim (usageSessionSummaryCursor cursor)))

/-- The sessions of a summary as the pages list them, newest first. -/
def listedSessions (crates : StoreCrates) (pricing : Pricing.PricingTable)
    (summary : RuntimeSummary) : List UsageSessionSummary :=
  summary.usageSessions.reverse.map (usageSessionSummary crates · pricing)

theorem trim_cursor_ne_nil (session : UsageSessionSummary) :
    trim (usageSessionSummaryCursor session) ≠ [] := by
  intro h
  have hblank : isBlank (usageSessionSummaryCursor session) = true := by
    rw [isBlank, h]
    rfl
  have hbar := isBlank_iff.mp hblank '|' (by simp [usageSessionSummaryCursor, sessionCursor])
  exact absurd hbar (by decide)

theorem listed_behind_cursor (pricing : Pricing.PricingTable) (summary : RuntimeSummary)
    (cursor : Option UsageSessionSummary) :
    (summary.usageSessions.reverse.filter
        (usageSessionIsBeforeCursor · (cursor.map usageSessionSummaryCursor))).map
        (usageSessionSummary crates · pricing) =
      Paging.remaining Follows (listedSessions crates pricing summary) cursor := by
  cases cursor with
  | none => simp [usageSessionIsBeforeCursor, Paging.remaining, listedSessions]
  | some cursor =>
    rw [Paging.remaining, listedSessions, List.filter_map]
    congr 1
    apply filter_congr
    intro session _
    simp only [usageSessionIsBeforeCursor, map_some, filter_some,
      trim_cursor_ne_nil, ne_eq, not_false_eq_true, decide_true, if_true, Function.comp, Follows]
    rfl

section Page
variable {inner : StoreInner} {now : DateTime} {limit : ℕ} {cursor : Option UsageSessionSummary}

/-- What the page behind a cursor can still list. -/
def leftToList (crates : StoreCrates) (inner : StoreInner) (now : DateTime)
    (cursor : Option UsageSessionSummary) : List UsageSessionSummary :=
  Paging.remaining Follows
    (listedSessions crates inner.pricing (cachedUsageSummary crates inner now).1) cursor

theorem page_hasMore :
    (usagePage crates inner now limit (cursor.map usageSessionSummaryCursor) none).1.hasMore =
      decide (clampLimit limit < (leftToList crates inner now cursor).length) := by
  simp only [usagePage, reduceCtorEq, if_false, usagePageFromSummary, pricing_cachedUsageSummary,
    listed_behind_cursor, leftToList, length_take]
  apply decide_eq_decide.mpr
  omega

theorem page_sessions :
    (usagePage crates inner now limit (cursor.map usageSessionSummaryCursor) none).1.usageSessions =
      (leftToList crates inner now cursor).take (clampLimit limit) := by
  simp only [usagePage, reduceCtorEq, if_false, usagePageFromSummary, pricing_cachedUsageSummary,
    listed_behind_cursor, leftToList, length_take, take_take, decide_eq_true_eq]
  split
  · congr 1
    omega
  · rw [take_of_length_le (by omega), take_of_length_le (by omega)]

theorem page_nextCursor
    (h : clampLimit limit < (leftToList crates inner now cursor).length) :
    (usagePage crates inner now limit (cursor.map usageSessionSummaryCursor) none).1.nextCursor =
      ((leftToList crates inner now cursor).take (clampLimit limit)).getLast?.map
        usageSessionSummaryCursor := by
  have hmore := @page_hasMore crates inner now limit cursor
  rw [decide_eq_true h] at hmore
  rw [← page_sessions]
  simp only [usagePage, reduceCtorEq, if_false, usagePageFromSummary] at hmore ⊢
  rw [if_pos hmore]

/-- The summary that one page was cut from is served to the next. -/
theorem cachedUsageSummary_again (later : DateTime) :
    (cachedUsageSummary crates (cachedUsageSummary crates inner now).2 later).1 =
      (cachedUsageSummary crates inner now).1 := by
  cases hcache : inner.usageCache.filter fun cache => cache.revision = inner.usageRevision with
  | some cache => simp [cachedUsageSummary, hcache]
  | none => simp [cachedUsageSummary, hcache, filter_some]

theorem listedSessions_again (later : DateTime) (text : Option Text) :
    listedSessions crates (usagePage crates inner now limit text none).2.pricing
        (cachedUsageSummary crates (usagePage crates inner now limit text none).2 later).1 =
      listedSessions crates inner.pricing (cachedUsageSummary crates inner now).1 := by
  simp [usagePage, pricing_cachedUsageSummary, cachedUsageSummary_again]

end Page

theorem page_ne_nil (limit : ℕ) (h : clampLimit limit < items.length) :
    items.take (clampLimit limit) ≠ [] := by
  apply ne_nil_of_length_pos
  rw [length_take, clampLimit] at *
  omega

/-- The pages of the store are those of its list of sessions. -/
theorem followsPages_iff {limit : ℕ} {clock : ℕ → DateTime} {inner : StoreInner}
    {cursor : Option UsageSessionSummary} {out : List UsageSessionSummary} :
    FollowsPages crates limit clock inner (cursor.map usageSessionSummaryCursor) out ↔
      Paging.Lists Follows (clampLimit limit)
        (listedSessions crates inner.pricing (cachedUsageSummary crates inner (clock 0)).1)
        cursor out := by
  constructor
  · intro h
    generalize hcursor : cursor.map usageSessionSummaryCursor = text at h
    induction h generalizing cursor with
    | @last clock inner text h =>
      subst hcursor
      rw [page_hasMore, decide_eq_false_iff_not, Nat.not_lt] at h
      rw [page_sessions, take_of_length_le h]
      exact Paging.Lists.last h
    | @more clock inner text rest h hrest ih =>
      subst hcursor
      rw [page_hasMore, decide_eq_true_iff] at h
      have hlast := getLast?_eq_some_getLast (page_ne_nil limit h)
      have hnext := ih (by rw [page_nextCursor h, hlast, map_some])
      rw [listedSessions_again] at hnext
      rw [page_sessions]
      exact Paging.Lists.more h hlast hnext
  · intro h
    generalize hitems : listedSessions crates inner.pricing
      (cachedUsageSummary crates inner (clock 0)).1 = items at h
    induction h generalizing clock inner with
    | @last cursor h =>
      subst hitems
      have hmore := @page_hasMore crates inner (clock 0) limit cursor
      rw [leftToList, decide_eq_false (Nat.not_lt.mpr h)] at hmore
      have hpage := FollowsPages.last hmore
      rwa [page_sessions, leftToList, take_of_length_le h] at hpage
    | @more cursor last rest h hlast hrest ih =>
      subst hitems
      have hmore := @page_hasMore crates inner (clock 0) limit cursor
      rw [leftToList, decide_eq_true h] at hmore
      have hnext := @ih (fun n => clock (n + 1))
        (usagePage crates inner (clock 0) limit (cursor.map usageSessionSummaryCursor) none).2
        (listedSessions_again _ _)
      have hcursor := @page_nextCursor crates inner (clock 0) limit cursor h
      rw [leftToList, hlast] at hcursor
      rw [← hcursor] at hnext
      have hpages := FollowsPages.more hmore hnext
      rwa [page_sessions] at hpages

/-! ## The order of the cursor -/

theorem isWhitespace_of_isTimestampChar {c : Char} (h : isTimestampChar c = true) :
    isWhitespace c = false := by
  simp only [isTimestampChar, Bool.or_eq_true, beq_iff_eq] at h
  rcases h with ((((hdigit | rfl) | rfl) | rfl) | rfl) | rfl
  · have hrange : 48 ≤ c.toNat ∧ c.toNat ≤ 57 := by
      simpa [Char.isDigit, UInt32.le_iff_toNat_le] using hdigit
    simp only [isWhitespace, decide_eq_false_iff_not]
    omega
  all_goals rfl

theorem trim_sessionCursor {completedAt : Text} (h : IsTimestamp crates completedAt) (id : Text) :
    trim (sessionCursor completedAt id) = completedAt ++ '|' :: trimEnd id := by
  obtain ⟨time, rfl⟩ := h
  have hchars := all_eq_true.mp (crates.rfc3339_chars time)
  have hbar : isWhitespace '|' = false := by decide
  rw [sessionCursor, append_assoc, singleton_append, trim]
  rw [← trimEnd_append_cons _ _ hbar]
  congr 1
  -- the text of a time starts with a character that is not trimmed
  cases htext : crates.toRfc3339 time with
  | nil => exact absurd htext (crates.rfc3339_starts time)
  | cons c rest =>
    have hc := isWhitespace_of_isTimestampChar (hchars c (by rw [htext]; exact mem_cons_self))
    simp [trimStart, hc]

theorem follows_iff {session cursor : UsageSessionSummary}
    (hsession : IsTimestamp crates session.completedAt)
    (hcursor : IsTimestamp crates cursor.completedAt) :
    Follows session cursor ↔ session.completedAt < cursor.completedAt ∨
      (session.completedAt = cursor.completedAt ∧ session.id < trimEnd cursor.id) := by
  rw [Follows, usageSessionSummaryCursor, usageSessionSummaryCursor, trim_sessionCursor hcursor,
    sessionCursor, append_assoc, singleton_append]
  by_cases heq : session.completedAt = cursor.completedAt
  · rw [heq, append_lt_append_left_iff, cons_lt_cons_iff]
    simp
  · obtain ⟨s, hs⟩ := hsession
    obtain ⟨c, hc⟩ := hcursor
    rw [hs, hc] at heq ⊢
    rw [append_lt_append_iff (fun h => heq (crates.rfc3339_complete s c h))
      (fun h => heq (crates.rfc3339_complete c s h).symm)]
    simp [heq]

theorem trimEnd_not_lt (text : Text) : ¬ text < trimEnd text :=
  not_lt_of_prefix ( rdropWhile_prefix isWhitespace text)

theorem follows_strictOn (h : ∀ session ∈ items, IsTimestamp crates session.completedAt) :
    Paging.StrictOn Follows items where
  irrefl := by
    intro x hx
    rw [follows_iff (h x hx) (h x hx)]
    rintro (hlt | ⟨_, hlt⟩)
    · exact lt_irrefl _ hlt
    · exact trimEnd_not_lt _ hlt
  trans := by
    intro x hx y hy z hz hxy hyz
    rw [follows_iff (h x hx) (h y hy)] at hxy
    rw [follows_iff (h y hy) (h z hz)] at hyz
    rw [follows_iff (h x hx) (h z hz)]
    rcases hxy with hxy | ⟨hxy, hxid⟩ <;> rcases hyz with hyz | ⟨hyz, hyid⟩
    · exact .inl (lt_trans hxy hyz)
    · exact .inl (hyz ▸ hxy)
    · exact .inl (hxy ▸ hyz)
    · have hle : trimEnd y.id ≤ y.id := not_lt.mp (trimEnd_not_lt y.id)
      exact .inr ⟨hxy.trans hyz, lt_trans (lt_of_lt_of_le hxid hle) hyid⟩

/-- Neighbours that were completed at the same time are listed by id. -/
def TiesAscend (sessions : List UsageSession) : Prop :=
  sessions.IsChain fun left right =>
    left.completedAt = right.completedAt → left.id < trimEnd right.id

instance (sessions : List UsageSession) : Decidable (TiesAscend sessions) :=
  inferInstanceAs (Decidable (sessions.IsChain fun left right =>
    left.completedAt = right.completedAt → left.id < trimEnd right.id))

/-- In a list sorted by completion time only ties are left to the ids. -/
theorem listed_chain_iff {pricing : Pricing.PricingTable} {summary : RuntimeSummary}
    (htimed : SessionsTimed crates summary.usageSessions)
    (hsorted : summary.usageSessions.IsChain fun left right =>
      left.completedAt ≤ right.completedAt) :
    ((listedSessions crates pricing summary).IsChain fun x y => Follows y x) ↔
      TiesAscend summary.usageSessions := by
  rw [listedSessions, isChain_map, isChain_reverse, TiesAscend]
  generalize summary.usageSessions = sessions at htimed hsorted
  induction sessions with
  | nil => simp
  | cons left sessions ih =>
    rw [isChain_cons] at hsorted
    rw [isChain_cons, isChain_cons,
      ih (fun session hmem => htimed session (mem_cons_of_mem _ hmem)) hsorted.2]
    apply and_congr_left
    intro _
    apply forall_congr'
    intro right
    apply forall_congr'
    intro hhead
    have hright := htimed right (mem_cons_of_mem _ (mem_of_mem_head? hhead))
    have hle := hsorted.1 right hhead
    have hiff := @follows_iff crates (usageSessionSummary crates left pricing)
      (usageSessionSummary crates right pricing) (htimed left mem_cons_self) hright
    rw [hiff]
    constructor
    · rintro (hlt | ⟨_, hid⟩) heq
      · exact absurd heq (ne_of_lt hlt)
      · exact hid
    · intro hties
      rcases lt_or_eq_of_le hle with hlt | heq
      · exact .inl hlt
      · exact .inr ⟨heq, hties heq⟩

/-! ## The sessions that are served -/

/-- The sessions that the store serves at a time. -/
def servedSessions (crates : StoreCrates) (inner : StoreInner) (now : DateTime) :
    List UsageSession :=
  (cachedUsageSummary crates inner now).1.usageSessions

theorem servedSessions_computed (h : WellFormed crates inner) (now : DateTime) :
    ∃ source time, EventsTimed crates source ∧
      servedSessions crates inner now = stateSessions crates source time := by
  unfold servedSessions cachedUsageSummary
  split
  · rename_i cache hcache
    obtain ⟨source, time, hevents, hsummary⟩ :=
      h.cache_computed cache (filter_eq_some_iff.mp hcache).1
    exact ⟨source, time, hevents, by rw [hsummary]; rfl⟩
  · exact ⟨inner, now, h.events_timed, rfl⟩

theorem stateSessions_sorted (inner : StoreInner) (now : DateTime) :
    (stateSessions crates inner now).IsChain fun left right =>
      left.completedAt ≤ right.completedAt := by
  apply List.Pairwise.isChain
  have htotal : Std.Total fun left right : UsageSession => left.completedAt ≤ right.completedAt :=
    ⟨fun left right => le_total left.completedAt right.completedAt⟩
  have htrans : IsTrans UsageSession fun left right => left.completedAt ≤ right.completedAt :=
    ⟨fun _ _ _ hxy hyz => le_trans hxy hyz⟩
  exact pairwise_insertionSort _ _

theorem timed_served (h : WellFormed crates inner) (now : DateTime) :
    SessionsTimed crates (servedSessions crates inner now) := by
  obtain ⟨source, time, hevents, hserved⟩ := servedSessions_computed h now
  rw [hserved]
  exact timed_stateSessions hevents time

theorem listed_timed (h : WellFormed crates inner) (now : DateTime) :
    ∀ session ∈ listedSessions crates inner.pricing (cachedUsageSummary crates inner now).1,
      IsTimestamp crates session.completedAt := by
  intro session hmem
  obtain ⟨stored, hstored, rfl⟩ := mem_map.mp hmem
  exact timed_served h now stored (mem_reverse.mp hstored)

theorem clampLimit_pos (limit : ℕ) : 0 < clampLimit limit := by
  rw [clampLimit]
  omega

/-- With one limit, exactly the sessions behind the last one of a full page have to follow its
cursor. -/
theorem sessionPages_limit_iff (h : WellFormed crates inner) (clock : ℕ → DateTime) (limit : ℕ)
    (hnodup : (listedSessions crates inner.pricing
      (cachedUsageSummary crates inner (clock 0)).1).Nodup) :
    FollowsPages crates limit clock inner none
        (listedSessions crates inner.pricing (cachedUsageSummary crates inner (clock 0)).1) ↔
      Paging.Separates Follows (clampLimit limit)
        (listedSessions crates inner.pricing (cachedUsageSummary crates inner (clock 0)).1) :=
  (@followsPages_iff crates limit clock inner none _).trans (Paging.lists_iff_separates
    (clampLimit_pos limit) (follows_strictOn (listed_timed h (clock 0))) hnodup)

theorem sessionPages_iff (h : WellFormed crates inner) (clock : ℕ → DateTime) :
    (∀ limit, 1 ≤ limit → FollowsPages crates limit clock inner none
        (listedSessions crates inner.pricing (cachedUsageSummary crates inner (clock 0)).1)) ↔
      TiesAscend (servedSessions crates inner (clock 0)) := by
  obtain ⟨source, time, _, hserved⟩ := servedSessions_computed h (clock 0)
  have hsorted := hserved ▸ stateSessions_sorted source time
  rw [servedSessions, ← listed_chain_iff (timed_served h (clock 0)) hsorted]
  constructor
  · intro hpages
    have hlists := (@followsPages_iff crates 1 clock inner none _).mp (hpages 1 (Nat.le_refl 1))
    exact (Paging.chain_of_lists_one hlists).1
  · intro hchain limit _
    exact (@followsPages_iff crates limit clock inner none _).mpr
      (Paging.lists_of_chain (follows_strictOn (listed_timed h (clock 0))) (clampLimit_pos limit)
        hchain)

/-- Following the cursor lists every session once, newest first, for every limit, exactly when
neighbours that share their completion time are listed by id. -/
theorem session_pages_complete_iff {inner : StoreInner}
    (h : Reachable crates redactSecretText inner) (clock : ℕ → DateTime) :
    (∀ limit, 1 ≤ limit → FollowsPages crates limit clock inner none
        (listedSessions crates inner.pricing (cachedUsageSummary crates inner (clock 0)).1)) ↔
      TiesAscend (servedSessions crates inner (clock 0)) :=
  sessionPages_iff h.wellFormed clock

end Crates

/-! ## Two turns finished at the same time -/

/-- Two sessions on two pages. -/
theorem twoSessions_paged :
    FollowsPages epochCrates 1 (fun _ => 0)
      (run epochCrates id StoreInner.default twoSessions) none
      (listedSessions epochCrates (run epochCrates id StoreInner.default twoSessions).pricing
        (cachedUsageSummary epochCrates (run epochCrates id StoreInner.default twoSessions) 0).1) :=
  (session_pages_complete_iff ⟨twoSessions, rfl⟩ fun _ => 0).mpr (by decide +kernel) 1 (by decide)

/-- Two turns that finish at the same time, the one with the greater id first. -/
def tiedTurns : List (DateTime × Operation) :=
  (finishedTurn "resp_b" none ++ finishedTurn "resp_a" none).map fun op => (0, op)

theorem tiedTurns_not_paged : ¬ ∀ limit, 1 ≤ limit →
    FollowsPages epochCrates limit (fun _ => 0)
      (run epochCrates id StoreInner.default tiedTurns) none
      (listedSessions epochCrates (run epochCrates id StoreInner.default tiedTurns).pricing
        (cachedUsageSummary epochCrates (run epochCrates id StoreInner.default tiedTurns) 0).1) := by
  intro h
  have hreachable : Reachable epochCrates id (run epochCrates id StoreInner.default tiedTurns) :=
    ⟨tiedTurns, rfl⟩
  have hties := (sessionPages_iff hreachable.wellFormed fun _ => 0).mp h
  exact absurd hties (by decide +kernel)

end CodeSeeX.Store
