import CodeSeeX.Store.EventViews
import CodeSeeX.Store.SessionPaging

/-!
# Pages of the event list

A page of events is served from the runtime buffer, or from the log files where the buffer does not
reach back to the cursor. A first page has no cursor, so the buffer serves it whatever the log
files hold, and as long as the buffer has more the files are not asked.
-/
namespace CodeSeeX.Store
open List Option Text

variable {cursor : Option EventRecord} {items : List EventRecord} {last : EventRecord}

/-! ## One page -/

structure EventViewPage where
  events : List EventViewRecord
  hasMore : Bool
  nextCursor : Option Text

def eventViewLimit (limit : ℕ) : ℕ := max 1 (min limit 500)

/-- `events.sort_by(|a, b| a.ts.cmp(&b.ts).then(a.id.cmp(&b.id)))` -/
def sortEventViews (events : List EventViewRecord) : List EventViewRecord :=
  events.insertionSort fun left right =>
    left.ts < right.ts ∨ (left.ts = right.ts ∧ left.id ≤ right.id)

/-- A page of sorted events: the oldest ones behind an `after` cursor, else the newest ones. -/
def cutEventPage (query : EventViewQuery) (events : List EventViewRecord) : EventViewPage :=
  let limit := eventViewLimit query.limit
  let hasMore := decide (limit < events.length)
  let kept :=
    if !hasMore then events
    else if (trimmedFilter query.after).isSome then events.take limit
    else newest limit events
  ⟨kept, hasMore, kept.head?.bind EventViewRecord.cursor⟩

/-! ## The runtime buffer -/

def runtimeEventsCoverQuery (events : List EventRecord) (query : EventViewQuery) : Bool :=
  match events.head? with
  | none => false
  | some first =>
      (trimmedFilter query.after).all (fun cursor => eventCursorOrder first cursor ≠ .gt) &&
        (trimmedFilter (query.cursor.or query.before)).all fun cursor =>
          eventCursorOrder first cursor = .lt

def runtimeEventViews (events : List EventRecord) (query : EventViewQuery) :
    Option EventViewPage :=
  if events = [] then none
  else if !runtimeEventsCoverQuery events query then none
  else some <| cutEventPage query <| sortEventViews <|
    (events.filter fun event => eventMatchesEventViewQuery event query).map eventViewRecord

/-! ## The log files -/

structure LogFile where
  name : Text
  content : List UInt8

/-- `path.extension() == Some("jsonl")` -/
def isJsonl (name : Text) : Bool :=
  (rsplitOnce '.' name).any fun (stem, extension) => stem ≠ [] ∧ extension = "jsonl"

/-- The log files in the order of their names; a directory that is missing has none. -/
def sortedLogFiles (logs : List LogFile) : List LogFile :=
  (logs.filter fun file => isJsonl file.name).insertionSort fun left right => left.name ≤ right.name

section Logs
variable (chunkBytes : ℕ+) (parse : List UInt8 → Option EventRecord)

def visitEventView (query : EventViewQuery) (line : List UInt8) : Option EventViewRecord :=
  (parse line).bind fun event =>
    if eventMatchesEventViewQuery event query then some (eventViewRecord event) else none

def collectRecentEventViewsFromFile (file : LogFile) (target : ℕ) (query : EventViewQuery)
    (events : List EventViewRecord) : List EventViewRecord :=
  collectTail chunkBytes target (visitEventView parse query) file.content events

/-- The loop over the files, from the newest back. -/
def collectRecentEventViews (limit : ℕ) (query : EventViewQuery) :
    List LogFile → List EventViewRecord → List EventViewRecord
  | [], events => events
  | file :: files, events =>
      let events := collectRecentEventViewsFromFile chunkBytes parse file (limit + 1) query events
      if limit < events.length then events else collectRecentEventViews limit query files events

/-- The loop over the lines of a file; a line that is no text fails the request. -/
def visitLinesForward (target : ℕ) (query : EventViewQuery) :
    List (List UInt8) → List EventViewRecord → Option (List EventViewRecord)
  | [], events => some events
  | line :: lines, events =>
      (ByteArray.utf8Decode? ⟨line.toArray⟩).bind fun text =>
        if isBlank text.toList then visitLinesForward target query lines events
        else match visitEventView parse query line with
          | none => visitLinesForward target query lines events
          | some event =>
              if target < (events ++ [event]).length then some (events ++ [event])
              else visitLinesForward target query lines (events ++ [event])

/-- The loop over the files, from the oldest on. -/
def collectAfterEventViews (limit : ℕ) (query : EventViewQuery) :
    List LogFile → List EventViewRecord → Option (List EventViewRecord)
  | [], events => some events
  | file :: files, events =>
      (visitLinesForward parse (limit + 1) query (readLines file.content) events).bind fun events =>
        if limit < events.length then some events
        else collectAfterEventViews limit query files events

/-- `read_log_event_views_sync`, none where a line is no text. -/
def readLogEventViews (logs : List LogFile) (query : EventViewQuery) : Option EventViewPage :=
  let limit := eventViewLimit query.limit
  let events :=
    if (trimmedFilter query.after).isSome then
      collectAfterEventViews parse limit query (sortedLogFiles logs) []
    else
      some (collectRecentEventViews chunkBytes parse limit query (sortedLogFiles logs).reverse [])
  events.map fun events => cutEventPage query (sortEventViews events)

/-- One request for a page, with the events of the buffer and the log files. -/
def recentEventViews (buffer : List EventRecord) (logs : List LogFile) (query : EventViewQuery) :
    Option EventViewPage :=
  (runtimeEventViews buffer query).or (readLogEventViews chunkBytes parse logs query)

end Logs

/-- The pages from a query on, each behind the cursor of the one before it, list `out` from the
newest event back. -/
inductive FollowsEventPages (serve : EventViewQuery → Option EventViewPage) :
    EventViewQuery → List EventViewRecord → Prop
  | last {query : EventViewQuery} {page : EventViewPage} (hpage : serve query = some page)
      (hmore : page.hasMore = false) : FollowsEventPages serve query page.events.reverse
  | more {query : EventViewQuery} {page : EventViewPage} {rest : List EventViewRecord}
      (hpage : serve query = some page) (hmore : page.hasMore = true)
      (hrest : FollowsEventPages serve { query with cursor := page.nextCursor } rest) :
      FollowsEventPages serve query (page.events.reverse ++ rest)

theorem FollowsEventPages.unique {serve : EventViewQuery → Option EventViewPage}
    {query : EventViewQuery} {out other : List EventViewRecord}
    (h : FollowsEventPages serve query out) (hother : FollowsEventPages serve query other) :
    out = other := by
  induction h generalizing other with
  | last hpage hmore =>
    cases hother with
    | last hpage' _ =>
      obtain rfl := some_inj.mp (hpage.symm.trans hpage')
      rfl
    | more hpage' hmore' _ =>
      obtain rfl := some_inj.mp (hpage.symm.trans hpage')
      rw [hmore] at hmore'
      cases hmore'
  | more hpage hmore _ ih =>
    cases hother with
    | last hpage' hmore' =>
      obtain rfl := some_inj.mp (hpage.symm.trans hpage')
      rw [hmore] at hmore'
      cases hmore'
    | more hpage' _ hrest' =>
      obtain rfl := some_inj.mp (hpage.symm.trans hpage')
      rw [ih hrest']

/-! ## Cursors -/

section Cursors
variable {crates : StoreCrates} {event cursor : EventRecord} {query : EventViewQuery}

/-- The order of the history. -/
def EventBefore (event later : EventRecord) : Prop :=
  event.ts < later.ts ∨ (event.ts = later.ts ∧ event.id < later.id)

instance : DecidableRel EventBefore := fun event later =>
  inferInstanceAs (Decidable (event.ts < later.ts ∨ (event.ts = later.ts ∧ event.id < later.id)))

/-- The event has a time of the clock and a 64-bit number. -/
structure Stamped (crates : StoreCrates) (event : EventRecord) : Prop where
  timed : IsTimestamp crates event.ts
  lower : -2 ^ 63 ≤ event.id
  upper : event.id < 2 ^ 63

theorem parseI64_signedText {n : ℤ} (hlower : -2 ^ 63 ≤ n) (hupper : n < 2 ^ 63) :
    parseI64 (signedText n) = some n := by
  cases n with
  | negSucc n =>
    have hle : n + 1 ≤ 2 ^ 63 := by omega
    rw [signedText, parseI64, parseDigits_ofNat, bind_some, if_pos hle]
    rfl
  | ofNat n =>
    have hlt : n < 2 ^ 63 := by
      rw [Int.ofNat_eq_natCast] at hupper
      omega
    exact parseI64_of_parseDigits (parseDigits_ofNat n) hlt

theorem signedText_chars {n : ℤ} {c : Char} (h : c ∈ signedText n) :
    c.isDigit = true ∨ c = '-' := by
  cases n with
  | ofNat n => exact .inl (digit_of_mem_ofNat h)
  | negSucc n =>
    rcases mem_cons.mp h with rfl | hdigit
    · exact .inr rfl
    · exact .inl (digit_of_mem_ofNat hdigit)

theorem bar_notMem_signedText (n : ℤ) : '|' ∉ signedText n := by
  intro h
  rcases signedText_chars h with hdigit | hdash
  · cases hdigit
  · cases hdash

theorem rsplitOnce_bar {front back : Text} (h : '|' ∉ back) :
    rsplitOnce '|' (front ++ '|' :: back) = some (front, back) := by
  have hback : ∀ c ∈ back, decide (c ≠ '|') = true := by
    intro c hc
    rw [decide_eq_true_eq]
    intro heq
    exact h (heq ▸ hc)
  have hdrop : (front ++ '|' :: back).rdropWhile (fun c => decide (c ≠ '|')) = front ++ ['|'] := by
    induction back using reverseRecOn with
    | nil => exact rdropWhile_concat_neg _ _ _ (by simp)
    | append_singleton back c ih =>
      have hc := hback c (by simp)
      rw [← cons_append, ← append_assoc,
        rdropWhile_concat_pos (fun c => decide (c ≠ '|')) _ _ hc]
      exact ih (fun hmem => h (mem_append_left _ hmem))
        (fun d hd => hback d (mem_append_left _ hd))
  have htake : (front ++ '|' :: back).rtakeWhile (fun c => decide (c ≠ '|')) = back := by
    have happ := @rdropWhile_append_rtakeWhile _ (fun c => decide (c ≠ '|'))
      (front ++ '|' :: back)
    rw [hdrop, append_assoc, append_cancel_left_eq, singleton_append,
      cons.injEq] at happ
    exact happ.2
  have hmem : '|' ∈ front ++ '|' :: back := mem_append_right _ mem_cons_self
  rw [rsplitOnce, if_pos hmem, hdrop, htake, dropLast_concat]

/-- The cursor of an event is trimmed to itself and split into its time and its number. -/
theorem trim_eventCursor (h : IsTimestamp crates cursor.ts) :
    trim (eventCursor cursor) = eventCursor cursor := by
  have hend : trimEnd (signedText cursor.id) = signedText cursor.id := by
    rw [trimEnd, rdropWhile_eq_self_iff]
    intro hne hspace
    rcases signedText_chars (getLast_mem hne) with hdigit | hdash
    · have hstamp : isTimestampChar ((signedText cursor.id).getLast hne) = true := by
        simp [isTimestampChar, hdigit]
      rw [isWhitespace_of_isTimestampChar hstamp] at hspace
      cases hspace
    · rw [hdash] at hspace
      cases hspace
  have htrim := trim_sessionCursor h (signedText cursor.id)
  rw [hend] at htrim
  have hcursor : sessionCursor cursor.ts (signedText cursor.id) = eventCursor cursor := by
    rw [sessionCursor, append_assoc, singleton_append, eventCursor]
  rwa [hcursor] at htrim

theorem trimmedFilter_eventCursor (h : IsTimestamp crates cursor.ts) :
    trimmedFilter (some (eventCursor cursor)) = some (eventCursor cursor) := by
  have hne : eventCursor cursor ≠ [] := by
    exact append_ne_nil_of_right_ne_nil _ (cons_ne_nil _ _)
  rw [trimmedFilter, map_some, trim_eventCursor h, filter_some, if_pos]
  exact decide_eq_true hne

theorem eventBeforeQueryCursor_eq (h : Stamped crates cursor)
    (hquery : query.cursor = some (eventCursor cursor)) :
    eventBeforeQueryCursor event query = decide (EventBefore event cursor) := by
  rw [eventBeforeQueryCursor, hquery, some_or, trimmedFilter_eventCursor h.timed]
  dsimp only
  rw [eventCursor, rsplitOnce_bar (bar_notMem_signedText _)]
  dsimp only
  rw [parseI64_signedText h.lower h.upper, map_some, getD_some]
  by_cases hlt : event.ts < cursor.ts
  · rw [if_pos hlt]
    exact (decide_eq_true (.inl hlt)).symm
  · rw [if_neg hlt]
    by_cases hgt : cursor.ts < event.ts
    · rw [if_pos hgt]
      refine (decide_eq_false ?_).symm
      rintro (hbefore | ⟨heq, -⟩)
      · exact hlt hbefore
      · exact hgt.ne heq.symm
    · rw [if_neg hgt]
      have heq : event.ts = cursor.ts := le_antisymm (not_lt.mp hgt) (not_lt.mp hlt)
      apply decide_eq_decide.mpr
      constructor
      · exact fun hid => .inr ⟨heq, hid⟩
      · rintro (hbefore | ⟨-, hid⟩)
        · exact absurd hbefore hlt
        · exact hid

theorem eventCursorOrder_lt_iff (h : Stamped crates cursor) :
    eventCursorOrder event (eventCursor cursor) = .lt ↔ EventBefore event cursor := by
  rw [eventCursorOrder, trim_eventCursor h.timed, eventCursor,
    rsplitOnce_bar (bar_notMem_signedText _)]
  dsimp only
  rw [parseI64_signedText h.lower h.upper, map_some, getD_some, EventBefore]
  by_cases heq : event.ts = cursor.ts
  · rw [if_neg (not_not.mpr heq), cmp_eq_lt_iff]
    constructor
    · exact fun hid => .inr ⟨heq, hid⟩
    · rintro (hlt | ⟨-, hid⟩)
      · exact absurd heq hlt.ne
      · exact hid
  · have hcmp : cmp event.ts cursor.ts = .lt ↔ event.ts < cursor.ts := by
      rw [cmp, cmpUsing]
      split_ifs with hlt hgt
      · simp [hlt]
      · simp [hlt]
      · simp [hlt]
    rw [if_pos heq, hcmp]
    constructor
    · exact .inl
    · rintro (hlt | ⟨hsame, -⟩)
      · exact hlt
      · exact absurd hsame heq

end Cursors

/-! ## Sorting and cutting -/

section Cut
variable {limit n : ℕ} {query : EventViewQuery} {events found todo : List EventRecord}

theorem orderedInsert_last {α : Type} {r : α → α → Prop} [DecidableRel r] {a : α} {l : List α}
    (h : ∀ b ∈ l, ¬ r a b) : l.orderedInsert r a = l ++ [a] := by
  induction l with
  | nil => rfl
  | cons b l ih =>
    obtain ⟨hb, hl⟩ := forall_mem_cons.mp h
    rw [orderedInsert_of_not_le r l hb, ih hl, cons_append]

theorem sort_oldestFirst (h : events.Pairwise EventBefore) :
    sortEventViews (events.map eventViewRecord) = events.map eventViewRecord := by
  apply List.Pairwise.insertionSort_eq
  rw [pairwise_map]
  refine h.imp fun hbefore => ?_
  rcases hbefore with hlt | ⟨heq, hid⟩
  · exact .inl hlt
  · exact .inr ⟨heq, hid.le⟩

theorem sort_newestFirst (h : found.Pairwise fun later event => EventBefore event later) :
    sortEventViews (found.map eventViewRecord) = found.reverse.map eventViewRecord := by
  induction found with
  | nil => rfl
  | cons later found ih =>
    obtain ⟨hlater, hfound⟩ := pairwise_cons.mp h
    have hrest := ih hfound
    rw [sortEventViews] at hrest ⊢
    rw [map_cons, insertionSort_cons, hrest, reverse_cons, map_append]
    refine orderedInsert_last fun view hview => ?_
    obtain ⟨event, hevent, rfl⟩ := mem_map.mp hview
    rintro (hlt | ⟨heq, hle⟩)
    · rcases hlater event (mem_reverse.mp hevent) with hbefore | ⟨hsame, -⟩
      · exact lt_asymm hlt hbefore
      · exact hlt.ne hsame.symm
    · rcases hlater event (mem_reverse.mp hevent) with hbefore | ⟨-, hid⟩
      · exact hbefore.ne heq.symm
      · exact absurd hid (not_lt.mpr hle)

/-- The page that the events left to list begin with, newest first. -/
def pageOf (limit : ℕ) (todo : List EventRecord) : EventViewPage where
  events := (todo.take limit).reverse.map eventViewRecord
  hasMore := decide (limit < todo.length)
  nextCursor := (todo.take limit).getLast?.map eventCursor

/-- It does not matter how many events over the limit were found. -/
theorem cutEventPage_eq (hafter : trimmedFilter query.after = none)
    (hn : eventViewLimit query.limit < n ∨ todo.length ≤ n) :
    cutEventPage query ((todo.take n).reverse.map eventViewRecord) =
      pageOf (eventViewLimit query.limit) todo := by
  generalize hlimit : eventViewLimit query.limit = limit at hn
  have hmore : decide (limit < ((todo.take n).reverse.map eventViewRecord).length) =
      decide (limit < todo.length) := by
    apply decide_eq_decide.mpr
    rw [length_map, length_reverse, length_take]
    omega
  have hkept : (if (!decide (limit < todo.length)) = true then
        (todo.take n).reverse.map eventViewRecord
      else newest limit ((todo.take n).reverse.map eventViewRecord)) =
        (todo.take limit).reverse.map eventViewRecord := by
    by_cases hover : limit < todo.length
    · have hle : limit ≤ n := by omega
      rw [if_neg (by simp [hover]), newest, ← map_reverse, reverse_reverse,
        ← map_take, take_take, Nat.min_eq_left hle, map_reverse]
    · rw [if_pos (by simp [hover]), take_of_length_le (by omega),
        take_of_length_le (by omega)]
  have hcursor : ((todo.take limit).reverse.map eventViewRecord).head?.bind
      EventViewRecord.cursor = (todo.take limit).getLast?.map eventCursor := by
    rw [head?_map, head?_reverse]
    cases (todo.take limit).getLast? <;> rfl
  unfold cutEventPage
  dsimp only
  rw [hlimit, hafter, isSome_none, hmore]
  simp only [Bool.false_eq_true, if_false]
  rw [hkept, hcursor, pageOf]

end Cut

/-! ## What the log files hold -/

section Collected
variable {chunkBytes : ℕ+} {parse : List UInt8 → Option EventRecord} {limit : ℕ}
  {query : EventViewQuery} {logs : List LogFile} {history : List EventRecord}

def LogFile.events (parse : List UInt8 → Option EventRecord) (file : LogFile) : List EventRecord :=
  lineEvents parse (readRawLines file.content)

/-- The events that a query selects, newest first. -/
def selected (query : EventViewQuery) (events : List EventRecord) : List EventRecord :=
  (events.filter fun event => eventMatchesEventViewQuery event query).reverse

theorem selected_append (query : EventViewQuery) (events later : List EventRecord) :
    selected query (events ++ later) = selected query later ++ selected query events := by
  rw [selected, filter_append, reverse_append]
  rfl

theorem lineEvents_visitEventView (lines : List (List UInt8)) :
    (lineEvents (visitEventView parse query) lines).reverse =
      (selected query (lineEvents parse lines)).map eventViewRecord := by
  have hline : (fun line => if line = [] then none else visitEventView parse query line) =
      fun line => (if line = [] then none else parse line).bind fun event =>
        if eventMatchesEventViewQuery event query then some (eventViewRecord event) else none := by
    funext line
    split_ifs <;> rfl
  rw [lineEvents, hline, lineEvents, selected, map_reverse]
  congr 1
  induction lines with
  | nil => rfl
  | cons line lines ih =>
    rw [filterMap_cons, filterMap_cons, ih]
    cases (if line = [] then none else parse line) with
    | none => rfl
    | some event =>
      by_cases hmatch : eventMatchesEventViewQuery event query = true
      · simp [hmatch]
      · simp [hmatch]

/-- The files are read until more than the limit are found: what is found are the newest events of
those that there are. -/
theorem collectRecentEventViews_eq (files : List LogFile) {events : List EventViewRecord}
    (h : events.length ≤ limit) :
    ∃ n, collectRecentEventViews chunkBytes parse limit query files events =
        (events ++ (selected query ((files.reverse.map (LogFile.events parse)).flatten)).map
          eventViewRecord).take n ∧
      (limit < n ∨ (events ++ (selected query
        ((files.reverse.map (LogFile.events parse)).flatten)).map eventViewRecord).length ≤ n) := by
  induction files generalizing events with
  | nil =>
    refine ⟨events.length, ?_, .inr ?_⟩
    · rw [collectRecentEventViews, take_left' rfl]
    · simp [selected]
  | cons file files ih =>
    have hfile : (selected query (((file :: files).reverse.map
        (LogFile.events parse)).flatten)).map eventViewRecord =
          (selected query (file.events parse)).map eventViewRecord ++
            (selected query ((files.reverse.map (LogFile.events parse)).flatten)).map
              eventViewRecord := by
      rw [reverse_cons, map_append, flatten_append, selected_append, map_append]
      simp
    rw [hfile, collectRecentEventViews, collectRecentEventViewsFromFile, collectTail_eq,
      lineEvents_visitEventView]
    rw [show lineEvents parse (readRawLines file.content) = file.events parse from rfl]
    generalize (selected query (file.events parse)).map eventViewRecord = found
    generalize (selected query ((files.reverse.map (LogFile.events parse)).flatten)).map
      eventViewRecord = rest at ih ⊢
    split_ifs with hover
    · refine ⟨(events ++ found.take (limit + 1 + 1 - events.length)).length, ?_, .inl hover⟩
      have hprefix : events ++ found.take (limit + 1 + 1 - events.length) <+:
          events ++ (found ++ rest) := by
        rw [prefix_append_right_inj]
        exact ( take_prefix _ _).trans (prefix_append _ _)
      exact prefix_iff_eq_take.mp hprefix
    · have hall : found.take (limit + 1 + 1 - events.length) = found := by
        apply take_of_length_le
        rw [length_append, length_take] at hover
        omega
      rw [hall] at hover ⊢
      rw [← append_assoc]
      exact ih (not_lt.mp hover)

/-- A page of the log files is cut from what the files hold. -/
theorem readLogEventViews_eq (hafter : trimmedFilter query.after = none)
    (hlogs : ((sortedLogFiles logs).map (LogFile.events parse)).flatten = history)
    (hordered : history.Pairwise EventBefore) :
    readLogEventViews chunkBytes parse logs query =
      some (pageOf (eventViewLimit query.limit) (selected query history)) := by
  obtain ⟨n, hcollected, hn⟩ := @collectRecentEventViews_eq chunkBytes parse
    (eventViewLimit query.limit) query (sortedLogFiles logs).reverse [] (Nat.zero_le _)
  rw [reverse_reverse, hlogs, nil_append, ← map_take] at hcollected
  rw [reverse_reverse, hlogs, nil_append, length_map] at hn
  have hnewest : ((selected query history).take n).Pairwise fun later event =>
      EventBefore event later := by
    apply List.Pairwise.sublist (take_sublist _ _)
    rw [selected, pairwise_reverse]
    exact hordered.sublist filter_sublist
  unfold readLogEventViews
  dsimp only
  rw [hafter, isSome_none, if_neg Bool.false_ne_true, hcollected, map_some,
    sort_newestFirst hnewest, cutEventPage_eq hafter hn]

/-- A page of the buffer is cut from what the buffer holds. -/
theorem runtimeEventViews_eq {buffer : List EventRecord} (hafter : trimmedFilter query.after = none)
    (hordered : buffer.Pairwise EventBefore) (hne : buffer ≠ [])
    (hcovers : runtimeEventsCoverQuery buffer query = true) :
    runtimeEventViews buffer query =
      some (pageOf (eventViewLimit query.limit) (selected query buffer)) := by
  have hsorted := sort_oldestFirst (hordered.sublist (filter_sublist
    (p := fun event => eventMatchesEventViewQuery event query)))
  have hreverse : (buffer.filter fun event => eventMatchesEventViewQuery event query) =
      ((selected query buffer).take (selected query buffer).length).reverse := by
    rw [take_length, selected, reverse_reverse]
  rw [runtimeEventViews, if_neg hne, hcovers, Bool.not_true, if_neg Bool.false_ne_true, hsorted,
    hreverse, cutEventPage_eq hafter (.inr le_rfl)]

end Collected

/-! ## Following the cursor -/

section Following
variable {crates : StoreCrates} {chunkBytes : ℕ+} {parse : List UInt8 → Option EventRecord}
  {query : EventViewQuery} {logs : List LogFile} {history buffer : List EventRecord}

/-- A query that starts at the newest event. -/
structure FromStart (query : EventViewQuery) : Prop where
  cursor : query.cursor = none
  before : query.before = none
  after : query.after = none

/-- The query for the page behind an event. -/
def queryAt (query : EventViewQuery) (cursor : Option EventRecord) : EventViewQuery :=
  { query with cursor := cursor.map eventCursor }

theorem queryAt_none (h : FromStart query) : queryAt query none = query := by
  obtain ⟨limit, cursor, before, after, audience, category, level, requestId, q⟩ := query
  obtain ⟨rfl, -, -⟩ := h
  rfl

/-- What the query behind an event selects is what is left of the selected events. -/
theorem selected_queryAt (h : FromStart query) (hcursor : ∀ event ∈ cursor, Stamped crates event)
    (events : List EventRecord) :
    selected (queryAt query cursor) events =
      Paging.remaining EventBefore (selected query events) cursor := by
  have hfilters : ∀ event, eventMatchesEventViewQuery event (queryAt query cursor) =
      (eventBeforeQueryCursor event (queryAt query cursor) &&
        eventMatchesEventViewQuery event query) := by
    intro event
    have hbefore : eventBeforeQueryCursor event query = true := by
      rw [eventBeforeQueryCursor, h.cursor, h.before]
      rfl
    rw [eventMatchesEventViewQuery, eventMatchesEventViewQuery, hbefore, Bool.true_and]
    simp only [Bool.and_assoc]
    rfl
  cases cursor with
  | none => rw [queryAt_none h, Paging.remaining]
  | some cursor =>
    rw [Paging.remaining, selected, selected, filter_reverse, List.filter_filter]
    refine congrArg reverse (filter_congr fun event _ => ?_)
    rw [hfilters, eventBeforeQueryCursor_eq (hcursor cursor rfl) rfl]

/-- Where every page is cut from the same events, following the cursor lists them all. -/
theorem follows_of_lists {serve : EventViewQuery → Option EventViewPage}
    {items : List EventRecord} {Reached : Option EventRecord → Prop}
    (hserve : ∀ cursor, Reached cursor → serve (queryAt query cursor) =
      some (pageOf (eventViewLimit query.limit) (Paging.remaining EventBefore items cursor)))
    (hnext : ∀ cursor last, Reached cursor →
      eventViewLimit query.limit < (Paging.remaining EventBefore items cursor).length →
      ((Paging.remaining EventBefore items cursor).take
        (eventViewLimit query.limit)).getLast? = some last → Reached (some last))
    {cursor : Option EventRecord} {out : List EventRecord}
    (h : Paging.Lists EventBefore (eventViewLimit query.limit) items cursor out)
    (hcursor : Reached cursor) :
    FollowsEventPages serve (queryAt query cursor) (out.map eventViewRecord) := by
  have hevents : ∀ todo : List EventRecord,
      (pageOf (eventViewLimit query.limit) todo).events.reverse =
        (todo.take (eventViewLimit query.limit)).map eventViewRecord := by
    intro todo
    rw [pageOf, ← map_reverse, reverse_reverse]
  induction h with
  | @last cursor hle =>
    have hpage := FollowsEventPages.last (hserve cursor hcursor)
      (decide_eq_false (not_lt.mpr hle))
    rwa [hevents, take_of_length_le hle] at hpage
  | @more cursor last rest hlt hlast hrest ih =>
    have hreached := hnext cursor last hcursor hlt hlast
    have hnextCursor : (pageOf (eventViewLimit query.limit)
        (Paging.remaining EventBefore items cursor)).nextCursor = some (eventCursor last) := by
      rw [pageOf, hlast, map_some]
    have hlater : FollowsEventPages serve
        { queryAt query cursor with cursor := (pageOf (eventViewLimit query.limit)
          (Paging.remaining EventBefore items cursor)).nextCursor } (rest.map eventViewRecord) := by
      rw [hnextCursor]
      exact ih hreached
    have hpage := FollowsEventPages.more (hserve cursor hcursor) (decide_eq_true hlt) hlater
    rwa [hevents, ← map_append] at hpage

theorem strictOn_eventBefore (items : List EventRecord) : Paging.StrictOn EventBefore items where
  irrefl := by
    rintro event - (hlt | ⟨-, hid⟩)
    · exact lt_irrefl _ hlt
    · exact lt_irrefl _ hid
  trans := by
    rintro x - y - z - (hxy | ⟨hxy, hxid⟩) (hyz | ⟨hyz, hyid⟩)
    · exact .inl (lt_trans hxy hyz)
    · exact .inl (hyz ▸ hxy)
    · exact .inl (hxy ▸ hyz)
    · exact .inr ⟨hxy.trans hyz, lt_trans hxid hyid⟩

theorem lists_selected (hordered : history.Pairwise EventBefore) (query : EventViewQuery) :
    Paging.Lists EventBefore (eventViewLimit query.limit) (selected query history) none
      (selected query history) := by
  have hlimit : 0 < eventViewLimit query.limit := by
    rw [eventViewLimit]
    omega
  refine Paging.lists_of_pairwise hlimit (strictOn_eventBefore _) ?_
  rw [selected, pairwise_reverse]
  exact hordered.sublist filter_sublist

theorem mem_of_last {limit : ℕ}
    (h : ((Paging.remaining EventBefore items cursor).take limit).getLast? = some last) :
    last ∈ items := by
  have hmem := mem_of_mem_take (mem_of_getLast? h)
  cases cursor with
  | none => exact hmem
  | some cursor => exact mem_of_mem_filter hmem

theorem mem_selected {events : List EventRecord} {event : EventRecord}
    (h : event ∈ selected query events) : event ∈ events :=
  mem_of_mem_filter (mem_reverse.mp h)

/-- Without a buffer the pages list what the log files hold. -/
theorem follows_logs (h : FromStart query) (hstamped : ∀ event ∈ history, Stamped crates event)
    (hordered : history.Pairwise EventBefore)
    (hlogs : ((sortedLogFiles logs).map (LogFile.events parse)).flatten = history) :
    FollowsEventPages (recentEventViews chunkBytes parse [] logs) query
      ((selected query history).map eventViewRecord) := by
  have hfollows := @follows_of_lists query (recentEventViews chunkBytes parse [] logs)
    (selected query history) (fun cursor => ∀ event ∈ cursor, event ∈ history)
    (fun cursor hcursor => ?_) (fun cursor last _ _ hlast => ?_) none _
    (lists_selected hordered query) (by simp)
  · rwa [queryAt_none h] at hfollows
  · rw [recentEventViews, runtimeEventViews, if_pos rfl, none_or,
      readLogEventViews_eq (by rw [queryAt, h.after]; rfl) hlogs hordered,
      selected_queryAt h fun event hevent => hstamped event (hcursor event hevent)]
    rfl
  · intro event hevent
    rw [mem_some_iff] at hevent
    exact hevent ▸ mem_selected (mem_of_last hlast)

/-- The buffer covers a cursor that its oldest event is before. -/
theorem covers_queryAt (h : FromStart query) {first : EventRecord} {rest : List EventRecord}
    (hstamped : ∀ event ∈ cursor, Stamped crates event)
    (hfirst : ∀ event ∈ cursor, EventBefore first event) :
    runtimeEventsCoverQuery (first :: rest) (queryAt query cursor) = true := by
  have hafter : trimmedFilter (queryAt query cursor).after = none := by
    rw [queryAt, h.after]
    rfl
  have hbefore : (queryAt query cursor).before = none := h.before
  rw [runtimeEventsCoverQuery, head?_cons]
  dsimp only
  rw [hafter, all_none, Bool.true_and, hbefore, or_none, queryAt]
  cases cursor with
  | none => rfl
  | some cursor =>
    have hcursor := hstamped cursor rfl
    rw [map_some, trimmedFilter_eventCursor hcursor.timed, all_some,
      decide_eq_true_eq, eventCursorOrder_lt_iff hcursor]
    exact hfirst cursor rfl

/-- Where a page leaves events behind it, some event is before its last one. -/
theorem exists_before_last {limit : ℕ}
    (hitems : items.Pairwise fun later event => EventBefore event later)
    (hlt : limit < (Paging.remaining EventBefore items cursor).length)
    (hlast : ((Paging.remaining EventBefore items cursor).take limit).getLast? = some last) :
    ∃ event ∈ items, EventBefore event last := by
  have hsublist : (Paging.remaining EventBefore items cursor).Sublist items := by
    cases cursor with
    | none => exact Sublist.refl _
    | some cursor => exact filter_sublist
  have hpairwise := hitems.sublist hsublist
  rw [← take_append_drop limit (Paging.remaining EventBefore items cursor),
    pairwise_append] at hpairwise
  have hdrop : (Paging.remaining EventBefore items cursor).drop limit ≠ [] := by
    apply ne_nil_of_length_pos
    rw [length_drop]
    omega
  have hnext := head_mem hdrop
  exact ⟨_, hsublist.subset (mem_of_mem_drop hnext),
    hpairwise.2.2 last (mem_of_getLast? hlast) _ hnext⟩

/-- With events in the buffer the pages list what the buffer holds. -/
theorem follows_buffer (h : FromStart query) (hstamped : ∀ event ∈ buffer, Stamped crates event)
    (hordered : buffer.Pairwise EventBefore) (hne : buffer ≠ []) :
    FollowsEventPages (recentEventViews chunkBytes parse buffer logs) query
      ((selected query buffer).map eventViewRecord) := by
  obtain ⟨first, rest, rfl⟩ := exists_cons_of_ne_nil hne
  have hselected : (selected query (first :: rest)).Pairwise
      fun later event => EventBefore event later := by
    rw [selected, pairwise_reverse]
    exact hordered.sublist filter_sublist
  have hfollows := @follows_of_lists query (recentEventViews chunkBytes parse (first :: rest) logs)
    (selected query (first :: rest))
    (fun cursor => ∀ event ∈ cursor, event ∈ first :: rest ∧ EventBefore first event)
    (fun cursor hcursor => ?_) (fun cursor last _ hlt hlast => ?_) none _
    (lists_selected hordered query) (by simp)
  · rwa [queryAt_none h] at hfollows
  · have hcursorStamped : ∀ event ∈ cursor, Stamped crates event :=
      fun event hevent => hstamped event (hcursor event hevent).1
    have hafter : trimmedFilter (queryAt query cursor).after = none := by
      rw [queryAt, h.after]
      rfl
    rw [recentEventViews, runtimeEventViews_eq hafter hordered hne
      (covers_queryAt h hcursorStamped fun event hevent => (hcursor event hevent).2),
      some_or, selected_queryAt h hcursorStamped]
    rfl
  · intro event hevent
    rw [mem_some_iff] at hevent
    subst hevent
    refine ⟨mem_selected (mem_of_last hlast), ?_⟩
    obtain ⟨older, holder, hbefore⟩ := exists_before_last hselected hlt hlast
    -- The oldest event of the buffer is that one or before it.
    rcases mem_cons.mp (mem_selected holder) with rfl | hrest
    · exact hbefore
    · have hfirst := (pairwise_cons.mp hordered).1 older hrest
      exact (strictOn_eventBefore [first, older, last]).trans first (by simp) older (by simp) last
        (by simp) hfirst hbefore

/-- Following the cursor lists every selected event exactly when the buffer is empty or holds every
event that the filters select. -/
theorem event_pages_complete_iff (h : FromStart query) (size : ℕ)
    (hstamped : ∀ event ∈ history, Stamped crates event) (hordered : history.Pairwise EventBefore)
    (hlogs : ((sortedLogFiles logs).map (LogFile.events parse)).flatten = history) :
    FollowsEventPages (recentEventViews chunkBytes parse (newest size history) logs) query
        ((selected query history).map eventViewRecord) ↔
      size = 0 ∨ ∀ event ∈ history.take (history.length - size),
        eventMatchesEventViewQuery event query = false := by
  by_cases hbuffer : newest size history = []
  · have hlength := newest_length size history
    rw [hbuffer, length_nil] at hlength
    rw [hbuffer]
    refine iff_of_true (follows_logs h hstamped hordered hlogs) ?_
    rcases Nat.eq_zero_or_pos size with hsize | hsize
    · exact .inl hsize
    · have hhistory : history = [] := eq_nil_of_length_eq_zero (by omega)
      rw [hhistory, take_nil]
      exact .inr (forall_mem_nil _)
  · have hsublist := newest_sublist size history
    have hfollows := @follows_buffer crates chunkBytes parse query logs _ h
      (fun event hevent => hstamped event (hsublist.subset hevent)) (hordered.sublist hsublist)
      hbuffer
    have hsplit : selected query history = selected query (newest size history) ++
        selected query (history.take (history.length - size)) := by
      rw [newest_eq_drop, ← selected_append, take_append_drop]
    have hsize : size ≠ 0 := by
      rintro rfl
      exact hbuffer rfl
    have hnone : selected query (history.take (history.length - size)) = [] ↔
        ∀ event ∈ history.take (history.length - size),
          eventMatchesEventViewQuery event query = false := by
      rw [selected, reverse_eq_nil_iff, filter_eq_nil_iff]
      simp only [Bool.not_eq_true]
    rw [or_iff_right hsize, ← hnone, hsplit, map_append]
    constructor
    · intro hall
      have hsame := hall.unique hfollows
      rw [append_right_eq_self, map_eq_nil_iff] at hsame
      exact hsame
    · intro hempty
      rwa [hempty, map_nil, append_nil]

end Following

/-! ## A buffer that is shorter than the log -/

/-- The line of a log file with an event at the epoch. -/
def loggedLine (number : Char) : List UInt8 :=
  bytes (("\x7b\"id\":" : Text) ++ number :: (",\"level\":\"info\"," : Text) ++
    ("\"type\":\"note\",\"message\":\"m\",\"ts\":\"" : Text) ++ epochText ++ ("\"\x7d" : Text))

def loggedEvent (id : ℤ) : EventRecord :=
  { id, level := "info", eventType := "note", audience := none, message := "m", detail := none
    ts := epochText }

/-- A reader that knows two lines. -/
def loggedParse (line : List UInt8) : Option EventRecord :=
  if line = loggedLine '1' then some (loggedEvent 1)
  else if line = loggedLine '2' then some (loggedEvent 2)
  else none

def loggedFiles : List LogFile :=
  [⟨"2026-01-02.jsonl", loggedLine '2' ++ [newline]⟩,
    ⟨"2026-01-01.jsonl", loggedLine '1' ++ [newline]⟩, ⟨"notes.txt", loggedLine '1'⟩]

def firstQuery : EventViewQuery :=
  { limit := 60, cursor := none, before := none, after := none, audience := none, category := none
    level := none, requestId := none, q := none }

theorem logged_stamped (id : ℤ) (hlower : -2 ^ 63 ≤ id) (hupper : id < 2 ^ 63) :
    Stamped epochCrates (loggedEvent id) where
  timed := ⟨0, rfl⟩
  lower := hlower
  upper := hupper

theorem loggedFiles_events :
    ((sortedLogFiles loggedFiles).map (LogFile.events loggedParse)).flatten =
      [loggedEvent 1, loggedEvent 2] := by
  have hfiles : sortedLogFiles loggedFiles =
      [⟨"2026-01-01.jsonl", loggedLine '1' ++ [newline]⟩,
        ⟨"2026-01-02.jsonl", loggedLine '2' ++ [newline]⟩] := rfl
  have hfirst : LogFile.events loggedParse ⟨"2026-01-01.jsonl", loggedLine '1' ++ [newline]⟩ =
      [loggedEvent 1] := by
    have hlines : readRawLines (loggedLine '1' ++ [newline]) = [loggedLine '1'] := by
      decide +kernel
    rw [LogFile.events, hlines]
    rfl
  have hsecond : LogFile.events loggedParse ⟨"2026-01-02.jsonl", loggedLine '2' ++ [newline]⟩ =
      [loggedEvent 2] := by
    have hlines : readRawLines (loggedLine '2' ++ [newline]) = [loggedLine '2'] := by
      decide +kernel
    rw [LogFile.events, hlines]
    rfl
  rw [hfiles, map_cons, map_singleton, hfirst, hsecond]
  rfl

/-- A buffer of two events holds both events of the log, on pages of one event. -/
theorem both_buffered :
    let query := { firstQuery with limit := 1 }
    FollowsEventPages
      (recentEventViews logTailChunkBytes loggedParse
        (newest 2 [loggedEvent 1, loggedEvent 2]) loggedFiles) query
      ((selected query [loggedEvent 1, loggedEvent 2]).map eventViewRecord) := by
  have hstamped : ∀ event ∈ [loggedEvent 1, loggedEvent 2], Stamped epochCrates event := by
    intro event hevent
    rcases mem_pair.mp hevent with rfl | rfl
    · exact logged_stamped 1 (by norm_num) (by norm_num)
    · exact logged_stamped 2 (by norm_num) (by norm_num)
  exact (event_pages_complete_iff ⟨rfl, rfl, rfl⟩ 2 hstamped (by decide) loggedFiles_events).mpr
    (.inr (forall_mem_nil _))

/-- A buffer of one event serves one page, which says that there is no more. -/
theorem older_event_hidden : ¬
    FollowsEventPages
      (recentEventViews logTailChunkBytes loggedParse
        (newest 1 [loggedEvent 1, loggedEvent 2]) loggedFiles) firstQuery
      ((selected firstQuery [loggedEvent 1, loggedEvent 2]).map eventViewRecord) := by
  intro hall
  have hfollows := @follows_buffer epochCrates logTailChunkBytes loggedParse firstQuery
    loggedFiles [loggedEvent 2] ⟨rfl, rfl, rfl⟩
    (forall_mem_singleton.mpr (logged_stamped 2 (by norm_num) (by norm_num)))
    (pairwise_singleton _ _) (cons_ne_nil _ _)
  have hlength := congrArg length (hall.unique hfollows)
  revert hlength
  decide +kernel

end CodeSeeX.Store
