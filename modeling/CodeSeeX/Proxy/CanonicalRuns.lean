import CodeSeeX.Proxy.CanonicalSessions

/-!
# Runs of canonical sessions

Over a run of calls the table holds, for each key, the fingerprints of its last
tracked call, until that has expired or was evicted. The fresh session itself is
evicted only if the table is full of sessions touched at the very same time.
-/
namespace CodeSeeX.Canonical
open List Option HashMap AList

open Native (Instant)

variable {fingerprints : List Fingerprint} {key : Text} {session : CanonicalSession} {now : Instant}
  {sessions : HashMap Text CanonicalSession}

/-! ## Alignment -/

/-- How a message list continues the one before. -/
inductive Alignment
  | same
  | extends
  | compacted
  | diverges
  deriving DecidableEq

/-- The exact relation between two lists of fingerprints. -/
def alignment (previous incoming : List Fingerprint) : Alignment :=
  if incoming = previous then .same
  else if previous <+: incoming then .extends
  else if incoming <+: previous then .compacted
  else .diverges

inductive Report
  | untracked
  | rebuilt
  | aligned (relation : Alignment)
  deriving DecidableEq

/-- What a diagnostic says; the two counts tell a repeated list from an extended one. -/
def report (diagnostic : Value) : Report :=
  let name := diagnostic.getStr "alignment"
  if name = some "rebuilt_no_active_session" then .rebuilt
  else if name = some "appended_authoritative_replay" then
    if (diagnostic.get "previous_messages").bind Value.asU64 =
        (diagnostic.get "incoming_messages").bind Value.asU64
    then .aligned .same else .aligned .extends
  else if name = some "authoritative_checkpoint_compacted" then .aligned .compacted
  else if name = some "authoritative_checkpoint_rebuilt" then .aligned .diverges
  else .untracked

/-- The report that a session under the key of the call calls for. -/
def foundReport (found : Option CanonicalSession) (fingerprints : List Fingerprint) : Report :=
  match found with
  | none => .rebuilt
  | some session => .aligned (alignment session.messageFingerprints fingerprints)

theorem hasFingerprintPrefix_iff {messages start : List Fingerprint} :
    hasFingerprintPrefix messages start = true ↔ start <+: messages := by
  rw [hasFingerprintPrefix, decide_eq_true_eq]
  constructor
  · intro h
    rw [← h.2]
    exact take_prefix _ _
  · intro h
    exact ⟨h.length_le, (prefix_iff_eq_take.mp h).symm⟩

theorem count_asU64 {n : ℕ} (h : n < 2 ^ 64) : (count n).asU64 = some n := by
  rw [count, Value.asU64, UInt64.toNat_ofNat_of_lt' h]

variable {crates : Crates}

/-- The report on a tracked call is exact. -/
theorem report_tracked (found : Option CanonicalSession) (hash : Text)
    (hfound : ∀ session, found = some session →
      session.messageFingerprints.length ≤ maxTrackedMessageFingerprints)
    (hlength : fingerprints.length ≤ maxTrackedMessageFingerprints) :
    report (.object (Value.insertField "session_hash" (.string hash)
      (trackedDiagnostic crates found fingerprints))) = foundReport found fingerprints := by
  have hfield : ∀ key : Text, key ≠ "session_hash" →
      (Value.object (Value.insertField "session_hash" (.string hash)
        (trackedDiagnostic crates found fingerprints))).get key =
          (trackedDiagnostic crates found fingerprints).lookup key :=
    fun key hne => Value.lookup_insertField_ne hne _ _
  rw [report, Value.getStr, hfield _ (by decide), hfield _ (by decide), hfield _ (by decide)]
  cases found with
  | none => rfl
  | some session =>
    have hname : (trackedDiagnostic crates (some session) fingerprints).lookup
        ("alignment" : Text) =
        some (.string (alignmentName session.messageFingerprints fingerprints)) := rfl
    have hprevious : ((trackedDiagnostic crates (some session) fingerprints).lookup
        ("previous_messages" : Text)).bind Value.asU64 = some session.messageFingerprints.length :=
      count_asU64 (lt_of_le_of_lt (hfound session rfl) (by decide))
    have hincoming : ((trackedDiagnostic crates (some session) fingerprints).lookup
        ("incoming_messages" : Text)).bind Value.asU64 = some fingerprints.length :=
      count_asU64 (lt_of_le_of_lt hlength (by decide))
    rw [hname, hprevious, hincoming, bind_some, Value.asStr]
    simp only [alignmentName, hasFingerprintPrefix_iff, foundReport, alignment]
    by_cases hextends : session.messageFingerprints <+: fingerprints
    · by_cases hsame : fingerprints = session.messageFingerprints
      · simp [hsame]
      · have hne : session.messageFingerprints.length ≠ fingerprints.length :=
          fun heq => hsame (hextends.eq_of_length heq).symm
        simp [hextends, hsame, hne]
    · have hsame : fingerprints ≠ session.messageFingerprints := by
        intro heq
        exact hextends (heq ▸ prefix_refl _)
      by_cases hcompacted : fingerprints <+: session.messageFingerprints
      · simp [hextends, hsame, hcompacted]
      · simp [hextends, hsame, hcompacted]

/-! ## Trimming -/

section Trim
variable {sessions : HashMap Text CanonicalSession}

theorem lookup_of_oldest {oldest : Text × CanonicalSession}
    (h : (crates.iterate sessions).argmin (·.2.touchedAt) = some oldest) :
    sessions.lookup oldest.1 = some oldest.2 := by
  have hmem := (crates.iterate_perm sessions).subset (argmin_mem h)
  obtain ⟨entry, hentry, heq⟩ := mem_map.mp hmem
  rw [← heq]
  exact mem_lookup_iff.mpr hentry

theorem len_trimToCapacity : (trimToCapacity crates sessions).len ≤ maxActiveSessions := by
  fun_induction trimToCapacity crates sessions with
  | case1 sessions hle => exact hle
  | case2 sessions hlarge hnone =>
    have hempty := argmin_eq_none.mp hnone
    have hlength := (crates.iterate_perm sessions).length_eq
    rw [hempty, length_map] at hlength
    rw [len, ← hlength] at hlarge
    exact absurd (Nat.zero_le _) hlarge
  | case3 sessions hlarge oldest holdest ih => exact ih

theorem lookup_trimToCapacity (h : (trimToCapacity crates sessions).lookup key = some session) :
    sessions.lookup key = some session := by
  fun_induction trimToCapacity crates sessions with
  | case1 => exact h
  | case2 => exact h
  | case3 sessions hlarge oldest holdest ih =>
    have hlook := ih h
    by_cases hkey : key = oldest.1
    · rw [hkey, lookup_erase] at hlook
      cases hlook
    · rwa [lookup_erase_ne hkey] at hlook

/-- One session too many: the first of those touched longest ago goes. -/
theorem trimToCapacity_full (h : sessions.len = maxActiveSessions + 1) :
    ∃ oldest, (crates.iterate sessions).argmin (·.2.touchedAt) = some oldest ∧
      trimToCapacity crates sessions = sessions.erase oldest.1 := by
  cases holdest : (crates.iterate sessions).argmin (·.2.touchedAt) with
  | none =>
    have hempty := argmin_eq_none.mp holdest
    have hlength := (crates.iterate_perm sessions).length_eq
    rw [hempty, length_map] at hlength
    rw [len, ← hlength] at h
    cases h
  | some oldest =>
    refine ⟨oldest, rfl, ?_⟩
    have hkey : oldest.1 ∈ sessions := lookup_isSome.mp (by
      rw [lookup_of_oldest holdest]
      rfl)
    have hlength := len_erase hkey
    rw [trimToCapacity, if_neg (by omega)]
    split
    · rename_i hnone
      rw [holdest] at hnone
      cases hnone
    · rename_i other hother
      rw [holdest, some_inj] at hother
      subst hother
      rw [trimToCapacity, if_pos (by omega)]

/-- Of sessions that were all touched at once the first in iteration order is the oldest. -/
theorem argmin_of_equal {entries : List (Text × CanonicalSession)}
    (h : ∀ entry ∈ entries, entry.2.touchedAt = now) :
    entries.argmin (·.2.touchedAt) = entries.head? := by
  cases entries with
  | nil => rfl
  | cons first rest =>
    rw [argmin_cons]
    cases hrest : rest.argmin (·.2.touchedAt) with
    | none => rfl
    | some other =>
      have hother := h other (mem_cons_of_mem _ (argmin_mem hrest))
      have hfirst := h first mem_cons_self
      simp [hother, hfirst]

end Trim

/-! ## The fresh session -/

/-- There is room for the fresh session, or a session was touched earlier, or of the sessions all
touched right now another one comes first. -/
def HasRoom (crates : Crates) (live : HashMap Text CanonicalSession) (key : Text)
    (fresh : CanonicalSession) : Prop :=
  key ∈ live ∨ live.len < maxActiveSessions ∨
    (∃ other session, live.lookup other = some session ∧ session.touchedAt < fresh.touchedAt) ∨
    (crates.iterate (live.insert key fresh)).head?.map Prod.fst ≠ some key

section Fresh
variable {live : HashMap Text CanonicalSession} {key : Text} {fresh : CanonicalSession}

theorem lookup_of_mem_iterate {entry : Text × CanonicalSession} :
    entry ∈ crates.iterate sessions ↔ sessions.lookup entry.1 = some entry.2 := by
  rw [(crates.iterate_perm sessions).mem_iff, List.mem_map]
  constructor
  · intro h
    obtain ⟨stored, hstored, heq⟩ := h
    rw [← heq]
    exact mem_lookup_iff.mpr hstored
  · intro h
    exact ⟨⟨entry.1, entry.2⟩, mem_lookup_iff.mp h, rfl⟩

/-- Where no session was touched earlier, all were touched at once. -/
theorem touchedAt_eq_of_none_earlier
    (htime : ∀ other session, live.lookup other = some session →
      session.touchedAt ≤ fresh.touchedAt)
    (hnone : ¬ ∃ other session, live.lookup other = some session ∧
      session.touchedAt < fresh.touchedAt) :
    ∀ entry ∈ crates.iterate (live.insert key fresh), entry.2.touchedAt = fresh.touchedAt := by
  intro entry hentry
  have hlook := lookup_of_mem_iterate.mp hentry
  by_cases hkey : entry.1 = key
  · rw [hkey, lookup_insert, some_inj] at hlook
    rw [hlook]
  · rw [lookup_insert_ne hkey] at hlook
    have hle := htime entry.1 entry.2 hlook
    have hnot : ¬ entry.2.touchedAt < fresh.touchedAt :=
      fun hearlier => hnone ⟨entry.1, entry.2, hlook, hearlier⟩
    exact le_antisymm hle (not_lt.mp hnot)

/-- The fresh session survives the trimming exactly when the table has room for it. -/
theorem mem_trimToCapacity_insert (hlen : live.len ≤ maxActiveSessions)
    (htime : ∀ other session, live.lookup other = some session →
      session.touchedAt ≤ fresh.touchedAt) :
    key ∈ trimToCapacity crates (live.insert key fresh) ↔ HasRoom crates live key fresh := by
  have hmem : key ∈ live.insert key fresh := (mem_insert live).mpr (.inl rfl)
  have hroom : len (live.insert key fresh) ≤ maxActiveSessions →
      key ∈ trimToCapacity crates (live.insert key fresh) := by
    intro hle
    rw [trimToCapacity, if_pos hle]
    exact hmem
  by_cases hstored : key ∈ live
  · refine iff_of_true (hroom ?_) (.inl hstored)
    rw [len_insert_stored _ hstored]
    exact hlen
  by_cases hfull : live.len < maxActiveSessions
  · refine iff_of_true (hroom ?_) (.inr (.inl hfull))
    rw [len_insert_new _ hstored]
    exact hfull
  have hone : len (live.insert key fresh) = maxActiveSessions + 1 := by
    rw [len_insert_new _ hstored]
    omega
  obtain ⟨oldest, holdest, htrim⟩ := @trimToCapacity_full crates _ hone
  have hkept : key ∈ trimToCapacity crates (live.insert key fresh) ↔ key ≠ oldest.1 := by
    rw [htrim, mem_erase]
    exact and_iff_left hmem
  rw [hkept]
  by_cases hearlier : ∃ other session, live.lookup other = some session ∧
      session.touchedAt < fresh.touchedAt
  · -- the oldest session was touched earlier than the fresh one
    refine iff_of_true ?_ (.inr (.inr (.inl hearlier)))
    obtain ⟨other, session, hlook, hlt⟩ := hearlier
    have hne : other ≠ key := by
      intro hkey
      rw [hkey] at hlook
      exact hstored (lookup_isSome.mp (by rw [hlook]; rfl))
    have hentry : (other, session) ∈ crates.iterate (live.insert key fresh) :=
      lookup_of_mem_iterate.mpr ((lookup_insert_ne hne).trans hlook)
    have hle := le_of_mem_argmin hentry holdest
    intro hkey
    have hfresh := lookup_of_oldest holdest
    rw [← hkey, lookup_insert, some_inj] at hfresh
    rw [← hfresh] at hle
    exact absurd hlt (not_lt.mpr hle)
  · -- all sessions were touched at once, so the oldest is the first one
    have hequal := @touchedAt_eq_of_none_earlier crates live key fresh htime hearlier
    rw [argmin_of_equal hequal] at holdest
    constructor
    · intro hne
      refine .inr (.inr (.inr ?_))
      rw [holdest]
      intro heq
      exact hne (some_inj.mp heq).symm
    · intro hcase heq
      rcases hcase with hcase | hcase | hcase | hcase
      · exact hstored hcase
      · exact hfull hcase
      · exact hearlier hcase
      · apply hcase
        rw [holdest, heq]
        rfl

end Fresh

/-! ## Runs -/

structure Call where
  time : Instant
  request : Value
  incoming : List ChatMessage

variable {call : Call} {calls : List Call}

section Runs
variable (crates : Crates)

/-- The key and the fingerprints of a call that is tracked. -/
def tracked (call : Call) : Option (Text × List Fingerprint) :=
  match sessionKey crates call.request with
  | none => none
  | some key =>
      if call.incoming.length > maxTrackedMessageFingerprints then none
      else some (key, call.incoming.map (messageFingerprint crates))

/-- The sessions that have not expired when a call comes in. -/
def liveSessions (sessions : HashMap Text CanonicalSession) (now : Instant) :
    HashMap Text CanonicalSession :=
  sessions.retain fun _ session => isLive now session

/-- The table, with the keys that were evicted since their last tracked call. -/
structure CanonicalRun where
  sessions : HashMap Text CanonicalSession
  evicted : List Text

def CanonicalRun.step (state : CanonicalRun) (call : Call) : CanonicalRun where
  sessions := (reconcile crates state.sessions call.time call.request call.incoming).2
  evicted :=
    match tracked crates call with
    | none => state.evicted
    | some (key, fingerprints) =>
        let table := (liveSessions state.sessions call.time).insert key
          (freshSession crates call.time fingerprints)
        state.evicted.filter (· ≠ key) ++
          table.keys.filter (· ∉ trimToCapacity crates table)

def run (calls : List Call) : CanonicalRun :=
  calls.foldl (CanonicalRun.step crates) { sessions := ∅, evicted := [] }

/-- Time and fingerprints of the last tracked call under a key. -/
def lastReconcile (calls : List Call) (key : Text) : Option (Instant × List Fingerprint) :=
  (calls.filterMap fun call => (tracked crates call).bind fun entry =>
    if entry.1 = key then some (call.time, entry.2) else none).getLast?

/-- What a tracked call is to report: the relation to the last tracked call under the key, unless
that has expired or was evicted. -/
def expectedReport (before : List Call) (now : Instant) (key : Text)
    (fingerprints : List Fingerprint) : Report :=
  match lastReconcile crates before key with
  | none => .rebuilt
  | some (time, previous) =>
      if now - time ≤ sessionTtl ∧ key ∉ (run crates before).evicted then
        .aligned (alignment previous fingerprints)
      else .rebuilt

variable {crates}

theorem run_concat (calls : List Call) (call : Call) :
    run crates (calls ++ [call]) = (run crates calls).step crates call := by
  rw [run, foldl_append]
  rfl

theorem lastReconcile_concat (calls : List Call) (call : Call) (key : Text) :
    lastReconcile crates (calls ++ [call]) key =
      match tracked crates call with
      | none => lastReconcile crates calls key
      | some (k, fingerprints) =>
          if k = key then some (call.time, fingerprints) else lastReconcile crates calls key := by
  rw [lastReconcile, filterMap_append]
  cases htracked : tracked crates call with
  | none => simp [htracked, lastReconcile]
  | some entry =>
    obtain ⟨k, fingerprints⟩ := entry
    by_cases hkey : k = key
    · simp [htracked, hkey]
    · simp [htracked, hkey, lastReconcile]

/-- A call that is not tracked changes nothing and says so. -/
theorem reconcile_untracked (h : tracked crates call = none) :
    (reconcile crates sessions call.time call.request call.incoming).2 = sessions ∧
      report (reconcile crates sessions call.time call.request call.incoming).1 = .untracked := by
  cases hkey : sessionKey crates call.request with
  | none =>
    simp only [reconcile, hkey]
    exact ⟨trivial, rfl⟩
  | some key =>
    by_cases hlong : call.incoming.length > maxTrackedMessageFingerprints
    · simp only [reconcile, hkey, if_pos hlong]
      exact ⟨trivial, rfl⟩
    · simp only [tracked, hkey, if_neg hlong] at h
      cases h

theorem reconcile_tracked {sessions : HashMap Text CanonicalSession} {call : Call} {key : Text}
    {fingerprints : List Fingerprint} (h : tracked crates call = some (key, fingerprints)) :
    fingerprints.length ≤ maxTrackedMessageFingerprints ∧
      reconcile crates sessions call.time call.request call.incoming =
        (.object (Value.insertField "session_hash" (.string (shortHash crates key))
          (trackedDiagnostic crates ((liveSessions sessions call.time).lookup key) fingerprints)),
        trimToCapacity crates ((liveSessions sessions call.time).insert key
          (freshSession crates call.time fingerprints))) := by
  cases hkey : sessionKey crates call.request with
  | none =>
    simp only [tracked, hkey] at h
    cases h
  | some other =>
    by_cases hlong : call.incoming.length > maxTrackedMessageFingerprints
    · simp only [tracked, hkey, if_pos hlong] at h
      cases h
    · simp only [tracked, hkey, if_neg hlong] at h
      obtain ⟨hother, hfingerprints⟩ := Prod.mk.inj (some_inj.mp h)
      subst hother hfingerprints
      refine ⟨by rw [length_map]; omega, ?_⟩
      simp only [reconcile, hkey, if_neg hlong]
      rfl

/-- The invariant of a run: the table holds what was last reconciled, unless it has expired or was
evicted. -/
structure Tracks (crates : Crates) (calls : List Call) : Prop where
  stored : ∀ key session, (run crates calls).sessions.lookup key = some session →
    lastReconcile crates calls key = some (session.touchedAt, session.messageFingerprints) ∧
      key ∉ (run crates calls).evicted
  kept : ∀ key time fingerprints,
    lastReconcile crates calls key = some (time, fingerprints) →
    key ∉ (run crates calls).evicted →
    ∀ now, (∀ call ∈ calls, call.time ≤ now) → now - time ≤ sessionTtl →
    key ∈ (run crates calls).sessions
  short : ∀ key time fingerprints, lastReconcile crates calls key = some (time, fingerprints) →
    fingerprints.length ≤ maxTrackedMessageFingerprints
  bounded : (run crates calls).sessions.len ≤ maxActiveSessions

theorem lastReconcile_time {time : Instant}
    (h : lastReconcile crates calls key = some (time, fingerprints)) :
    ∃ call ∈ calls, call.time = time := by
  have hmem := mem_of_getLast? h
  obtain ⟨call, hcall, hentry⟩ := mem_filterMap.mp hmem
  refine ⟨call, hcall, ?_⟩
  obtain ⟨entry, _, hsome⟩ := bind_eq_some_iff.mp hentry
  split at hsome
  · exact (Prod.mk.inj (some_inj.mp hsome)).1
  · cases hsome

/-- The table that a tracked call leaves before it is trimmed. -/
def touchedTable (crates : Crates) (calls : List Call) (call : Call) (key : Text)
    (fingerprints : List Fingerprint) : HashMap Text CanonicalSession :=
  (liveSessions (run crates calls).sessions call.time).insert key
    (freshSession crates call.time fingerprints)

theorem run_untracked (h : tracked crates call = none) :
    run crates (calls ++ [call]) = run crates calls := by
  rw [run_concat, CanonicalRun.step, (reconcile_untracked h).1, h]

theorem run_tracked {calls : List Call} {call : Call} {key : Text}
    {fingerprints : List Fingerprint} (h : tracked crates call = some (key, fingerprints)) :
    (run crates (calls ++ [call])).sessions =
        trimToCapacity crates (touchedTable crates calls call key fingerprints) ∧
      (run crates (calls ++ [call])).evicted =
        (run crates calls).evicted.filter (· ≠ key) ++
          (touchedTable crates calls call key fingerprints).keys.filter
            (· ∉ trimToCapacity crates (touchedTable crates calls call key fingerprints)) := by
  rw [run_concat, CanonicalRun.step, (reconcile_tracked h).2, h]
  exact ⟨rfl, rfl⟩

theorem mem_liveSessions :
    (liveSessions sessions now).lookup key = some session ↔
      sessions.lookup key = some session ∧ now - session.touchedAt ≤ sessionTtl := by
  rw [liveSessions, lookup_retain, filter_eq_some_iff, isLive, decide_eq_true_eq]

theorem Tracks.nil : Tracks crates [] := by
  constructor
  · intro key session h
    cases h
  · intro key time fingerprints h
    cases h
  · intro key time fingerprints h
    cases h
  · exact Nat.zero_le _

theorem Tracks.concat (h : Tracks crates calls)
    (htime : ∀ earlier ∈ calls, earlier.time ≤ call.time) : Tracks crates (calls ++ [call]) := by
  cases htracked : tracked crates call with
  | none =>
    have hlast : ∀ key, lastReconcile crates (calls ++ [call]) key = lastReconcile crates calls key := by
      intro key
      rw [lastReconcile_concat, htracked]
    constructor
    · simp only [run_untracked htracked, hlast]
      exact h.stored
    · simp only [run_untracked htracked, hlast]
      intro key time fingerprints hsome hkept now hnow
      exact h.kept key time fingerprints hsome hkept now fun earlier hmem =>
        hnow earlier (mem_append_left _ hmem)
    · simp only [hlast]
      exact h.short
    · rw [run_untracked htracked]
      exact h.bounded
  | some entry =>
    obtain ⟨key, fingerprints⟩ := entry
    obtain ⟨hsessions, hevicted⟩ := @run_tracked crates calls call key fingerprints htracked
    have hlast : ∀ other, lastReconcile crates (calls ++ [call]) other =
        if key = other then some (call.time, fingerprints) else lastReconcile crates calls other := by
      intro other
      rw [lastReconcile_concat, htracked]
    have hlookup : ∀ other session, other ≠ key →
        (touchedTable crates calls call key fingerprints).lookup other = some session →
        (run crates calls).sessions.lookup other = some session := by
      intro other session hne hlook
      rw [touchedTable, lookup_insert_ne hne] at hlook
      exact (mem_liveSessions.mp hlook).1
    constructor
    · intro other session hlook
      rw [hsessions] at hlook
      have htable := lookup_trimToCapacity hlook
      have hmem : other ∈ trimToCapacity crates (touchedTable crates calls call key fingerprints) :=
        lookup_isSome.mp (by rw [hlook]; rfl)
      rw [hlast, hevicted, mem_append, not_or]
      by_cases hkey : other = key
      · subst hkey
        rw [touchedTable, lookup_insert, some_inj] at htable
        rw [if_pos rfl, ← htable]
        refine ⟨rfl, by simp, ?_⟩
        simp [hmem]
      · rw [if_neg (Ne.symm hkey)]
        obtain ⟨hstored, hnot⟩ := h.stored other session (hlookup other session hkey htable)
        refine ⟨hstored, fun hold => hnot (mem_of_mem_filter hold), ?_⟩
        simp [hmem]
    · intro other time previous hsome hkept now hnow hlive
      rw [hevicted, mem_append, not_or] at hkept
      rw [hsessions]
      -- what is in the table but not evicted by this call stays
      have hstays : other ∈ touchedTable crates calls call key fingerprints →
          other ∈ trimToCapacity crates (touchedTable crates calls call key fingerprints) := by
        intro hmem
        by_contra hgone
        exact hkept.2 (mem_filter.mpr ⟨mem_keys.mp hmem, by simpa using hgone⟩)
      apply hstays
      rw [hlast] at hsome
      by_cases hkey : key = other
      · rw [touchedTable, mem_insert]
        exact .inl hkey.symm
      · rw [if_neg hkey] at hsome
        have hcall : call.time ≤ now := hnow call (by simp)
        have hstill : call.time - time ≤ sessionTtl := by
          have hmono : call.time - time ≤ now - time := Nat.sub_le_sub_right hcall time
          exact hmono.trans hlive
        have hold : other ∉ (run crates calls).evicted := by
          intro hmem
          exact hkept.1 (mem_filter.mpr ⟨hmem, by simpa using Ne.symm hkey⟩)
        have hmem := h.kept other time previous hsome hold call.time htime hstill
        obtain ⟨session, hlook⟩ := isSome_iff_exists.mp (lookup_isSome.mpr hmem)
        have htouched := (h.stored other session hlook).1
        rw [hsome, some_inj, Prod.mk.injEq] at htouched
        rw [htouched.1] at hstill
        rw [touchedTable, mem_insert]
        exact .inr (lookup_isSome.mp (by
          rw [mem_liveSessions.mpr ⟨hlook, hstill⟩]
          rfl))
    · intro other time previous hsome
      rw [hlast] at hsome
      split at hsome
      · obtain ⟨_, hprevious⟩ := Prod.mk.inj (some_inj.mp hsome)
        rw [← hprevious]
        exact (@reconcile_tracked crates ∅ call key fingerprints htracked).1
      · exact h.short other time previous hsome
    · rw [hsessions]
      exact len_trimToCapacity

theorem tracks_run (h : calls.Pairwise fun earlier later =>
    earlier.time ≤ later.time) : Tracks crates calls := by
  induction calls using reverseRecOn with
  | nil => exact Tracks.nil
  | append_singleton calls call ih =>
    obtain ⟨hcalls, _, hlast⟩ := pairwise_append.mp h
    exact (ih hcalls).concat fun earlier hmem => hlast earlier hmem call (by simp)

/-! ## The answers -/

/-- The session found under a key is that of its last tracked call. -/
theorem lookup_liveSessions (h : Tracks crates calls)
    (htime : ∀ earlier ∈ calls, earlier.time ≤ now) (key : Text) (fingerprints : List Fingerprint) :
    foundReport ((liveSessions (run crates calls).sessions now).lookup key) fingerprints =
      expectedReport crates calls now key fingerprints := by
  rw [expectedReport]
  cases hlook : (liveSessions (run crates calls).sessions now).lookup key with
  | some session =>
    obtain ⟨hstored, hlive⟩ := mem_liveSessions.mp hlook
    obtain ⟨hlast, hkept⟩ := h.stored key session hstored
    rw [hlast]
    simp only [foundReport, if_pos (And.intro hlive hkept)]
  | none =>
    cases hlast : lastReconcile crates calls key with
    | none => rfl
    | some entry =>
      obtain ⟨time, previous⟩ := entry
      simp only [foundReport]
      rw [if_neg]
      intro hboth
      have hmem := h.kept key time previous hlast hboth.2 now htime hboth.1
      obtain ⟨session, hstored⟩ := isSome_iff_exists.mp (lookup_isSome.mpr hmem)
      have htouched := (h.stored key session hstored).1
      rw [hlast, some_inj, Prod.mk.injEq] at htouched
      have hlive := hboth.1
      rw [htouched.1] at hlive
      rw [mem_liveSessions.mpr ⟨hstored, hlive⟩] at hlook
      cases hlook

/-- After a call the table is bounded, holds the fingerprints under the key of the call, and the
report is exact. -/
structure Reconciled (crates : Crates) (before : List Call) (call : Call) : Prop where
  bounded : (run crates (before ++ [call])).sessions.len ≤ maxActiveSessions
  stored : ∀ key fingerprints, tracked crates call = some (key, fingerprints) →
    ∃ session, (run crates (before ++ [call])).sessions.lookup key = some session ∧
      session.messageFingerprints = fingerprints
  reported : report (reconcile crates (run crates before).sessions call.time call.request
      call.incoming).1 =
    match tracked crates call with
    | none => .untracked
    | some (key, fingerprints) => expectedReport crates before call.time key fingerprints

theorem reconciled_iff {before : List Call} (h : Tracks crates before)
    (htime : ∀ earlier ∈ before, earlier.time ≤ call.time) :
    Reconciled crates before call ↔
      ∀ key fingerprints, tracked crates call = some (key, fingerprints) →
        HasRoom crates (liveSessions (run crates before).sessions call.time) key
          (freshSession crates call.time fingerprints) := by
  have hroom : ∀ key fingerprints,
      key ∈ trimToCapacity crates (touchedTable crates before call key fingerprints) ↔
        HasRoom crates (liveSessions (run crates before).sessions call.time) key
          (freshSession crates call.time fingerprints) := by
    intro key fingerprints
    apply mem_trimToCapacity_insert ((len_retain_le _ _).trans h.bounded)
    intro other session hlook
    have hlast := (h.stored other session (mem_liveSessions.mp hlook).1).1
    obtain ⟨earlier, hmem, hearlier⟩ := lastReconcile_time hlast
    rw [← hearlier]
    exact htime earlier hmem
  constructor
  · intro hreconciled key fingerprints htracked
    obtain ⟨session, hlook, _⟩ := hreconciled.stored key fingerprints htracked
    rw [(run_tracked htracked).1] at hlook
    exact (hroom key fingerprints).mp (lookup_isSome.mp (by rw [hlook]; rfl))
  · intro hfresh
    constructor
    · exact (h.concat htime).bounded
    · intro key fingerprints htracked
      have hmem := (hroom key fingerprints).mpr (hfresh key fingerprints htracked)
      obtain ⟨session, hlook⟩ := isSome_iff_exists.mp (lookup_isSome.mpr hmem)
      refine ⟨session, by rw [(run_tracked htracked).1, hlook], ?_⟩
      have htable := lookup_trimToCapacity hlook
      rw [touchedTable, lookup_insert, some_inj] at htable
      rw [← htable]
      rfl
    · cases htracked : tracked crates call with
      | none => exact (reconcile_untracked htracked).2
      | some entry =>
        obtain ⟨key, fingerprints⟩ := entry
        obtain ⟨hshort, hreconcile⟩ :=
          @reconcile_tracked crates (run crates before).sessions call key fingerprints htracked
        rw [hreconcile, report_tracked _ _ _ hshort]
        · exact lookup_liveSessions h htime key fingerprints
        · intro session hlook
          have hlast := (h.stored key session (mem_liveSessions.mp hlook).1).1
          exact h.short key _ _ hlast

/-- In a run with non-decreasing times every call is reconciled exactly when, at each tracked
call, the table has room for the fresh session. -/
theorem reconcile_run_iff {calls : List Call}
    (h : calls.Pairwise fun earlier later => earlier.time ≤ later.time) :
    (∀ before call, before ++ [call] <+: calls → Reconciled crates before call) ↔
      ∀ before call key fingerprints, before ++ [call] <+: calls →
        tracked crates call = some (key, fingerprints) →
        HasRoom crates (liveSessions (run crates before).sessions call.time) key
          (freshSession crates call.time fingerprints) := by
  have hfront : ∀ before call, before ++ [call] <+: calls → Tracks crates before ∧
      ∀ earlier ∈ before, earlier.time ≤ call.time := by
    intro before call hbegins
    obtain ⟨hbefore, _, hlast⟩ := pairwise_append.mp (h.sublist hbegins.sublist)
    exact ⟨tracks_run hbefore, fun earlier hmem => hlast earlier hmem call (by simp)⟩
  constructor
  · intro hall before call key fingerprints hbegins
    obtain ⟨htracks, htime⟩ := hfront before call hbegins
    exact (reconciled_iff htracks htime).mp (hall before call hbegins) key fingerprints
  · intro hroom before call hbegins
    obtain ⟨htracks, htime⟩ := hfront before call hbegins
    exact (reconciled_iff htracks htime).mpr fun key fingerprints =>
      hroom before call key fingerprints hbegins

end Runs

/-! ## A full table at one instant -/

/-- A checksum in place of SHA-256, and a table that lists what came last first. -/
def checksumCrates : Crates where
  sha256 := fun bytes => Vector.replicate 32 (bytes.foldl (fun sum byte => sum * 10 + byte) 0)
  toVec := fun message => Text.bytes message.content
  iterate := fun sessions => sessions.entries.map fun entry => (entry.1, entry.2)
  iterate_perm := fun _ => List.Perm.refl _

/-- A call of the given session, all at the same time. -/
def callOf (contents : List Text) (n : ℕ) : Call where
  time := 0
  request := .object [("prompt_cache_key", .string (Text.ofNat (n + 10)))]
  incoming := contents.map (ChatMessage.text "user")

/-- Three calls of one session: the second extends the first, and the third diverges. -/
def continuedCalls : List Call := [callOf ["a"] 0, callOf ["a", "b"] 0, callOf ["c"] 0]

theorem continuedCalls_reconciled :
    (continuedCalls.Pairwise fun earlier later => earlier.time ≤ later.time) ∧
      ∀ before call, before ++ [call] <+: continuedCalls →
        Reconciled checksumCrates before call := by
  have htime : ∀ call ∈ continuedCalls, call.time = 0 := by decide
  have hroom : ∀ n < 3, (liveSessions (run checksumCrates (continuedCalls.take n)).sessions
      0).len < maxActiveSessions := by decide +kernel
  refine ⟨by decide, (reconcile_run_iff (by decide)).mpr fun before call _ _ hbegins _ =>
    .inr (.inl ?_)⟩
  have hlength := hbegins.length_le
  rw [length_append] at hlength
  rw [htime call (hbegins.subset (by simp)),
    prefix_iff_eq_take.mp ((prefix_append before [call]).trans hbegins)]
  exact hroom _ hlength

/-- One session more than the table holds. -/
def crowdedCalls : List Call := (range 65).map (callOf [])

theorem crowdedCalls_lose_fresh :
    (crowdedCalls.Pairwise fun earlier later => earlier.time ≤ later.time) ∧
      ¬ ∀ before call, before ++ [call] <+: crowdedCalls →
        Reconciled checksumCrates before call := by
  constructor
  · rw [crowdedCalls, pairwise_map]
    exact pairwise_of_forall fun _ _ => Nat.le_refl 0
  · intro h
    have hlast := h ((range 64).map (callOf [])) (callOf [] 64) (prefix_refl crowdedCalls)
    obtain ⟨session, hlook, _⟩ := hlast.stored _ [] rfl
    have hlost : (run checksumCrates crowdedCalls).sessions.lookup
        (fullHash checksumCrates ("cache:74" : Text)) = none := by decide +kernel
    have hsame := hlost.symm.trans hlook
    cases hsame

end CodeSeeX.Canonical
