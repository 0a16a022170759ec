import CodeSeeX.General.BackwardLines
import CodeSeeX.Store.State

/-!
# The tail of an event log

The most recent events of a log file are collected from its end, chunk by chunk.
Lines that no event can be read from and events that the query leaves out are
skipped; a carriage return before the newline is white space to the JSON reader.
-/
namespace CodeSeeX.Store

open BackwardLines List

variable (content : List UInt8) {parse : List UInt8 → Option EventRecord}

def logTailChunkBytes : ℕ+ := ⟨64 * 1024, by norm_num⟩

def newline : UInt8 := 10
def carriageReturn : UInt8 := 13

/-! ### Audiences -/

def isSafeDiagnosticEventType (eventType : Text) : Bool :=
  eventType ∈ ([("apply_patch_input_micro_repair_diagnostic" : Text),
    "client_tool_handoff_diagnostic", "context_compile_diagnostic",
    "client_tool_handoff_guard_diagnostic", "cost_risk_diagnostic", "catalog_remote_refresh",
    "deepseek_tool_protocol_adapted", "deepseek_tool_protocol_blocked",
    "deepseek_tool_protocol_parse_failed", "native_pending_round_evicted",
    "native_pending_round_not_replayed", "native_pending_round_replayed",
    "native_pending_tool_group", "native_responses_compatibility_diagnostic",
    "native_responses_transport_diagnostic", "native_tool_namespace_reconciled",
    "native_tool_schema_repaired", "request_completed", "request_shape_diagnostic",
    "request_started", "retry_cache_diagnostic", "runtime_config_changed",
    "service_request_diagnostic", "tool_call", "tool_exposure_diagnostic", "tool_result",
    "upstream_usage_chunk_diagnostic", "upstream_call_usage_breakdown",
    "web_search_source_probe", "web_search_source_probe_lagged",
    "codex_runtime_catalog_verified", "codex_runtime_catalog_warning",
    "codex_runtime_catalog_error", "codex_runtime_catalog_unavailable"] : List Text)

def isDiagnosticEventType (eventType : Text) : Bool :=
  eventType ∈ ([("chat_stream_started" : Text), "context_diagnostic",
    "context_response_diagnostic", "log_maintenance_completed", "manager_action",
    "manager_config_saved", "mixed_tool_turn_split", "models_requested", "process_stderr",
    "process_stdout", "request_shape_diagnostic", "previous_response_resolution_warning",
    "runtime_context_storage", "runtime_context_storage_warning", "tool_lifecycle",
    "tool_loop_iteration"] : List Text)

inductive Audience where
  | safeDiagnostic
  | diagnostic
  | user
deriving DecidableEq

def eventAudienceForType (eventType : Text) : Audience :=
  let eventType := eventType.trim
  if isSafeDiagnosticEventType eventType then .safeDiagnostic
  else if isDiagnosticEventType eventType then .diagnostic
  else .user

def eventAudience (event : EventRecord) : Audience :=
  match event.audience with
  | some label =>
      if label = ("diagnostic" : Text) then .diagnostic
      else if label = ("safe_diagnostic" : Text) then .safeDiagnostic
      else if label = ("user" : Text) then .user
      else eventAudienceForType event.eventType
  | none => eventAudienceForType event.eventType

def eventIsUserVisible (event : EventRecord) : Bool :=
  decide (event.level ≠ "debug") && decide (eventAudience event = .user)

/-! ### Collecting backwards -/

section Tail

variable {β : Type}

/-- The loop over complete lines: it stops at the first event over the target. -/
def visitLines (target : ℕ) (visit : List UInt8 → Option β) :
    List (List UInt8) → List β → List β
  | [], events => events
  | line :: lines, events =>
      if line = [] then visitLines target visit lines events
      else match visit line with
        | none => visitLines target visit lines events
        | some event =>
            if target < (events ++ [event]).length then events ++ [event]
            else visitLines target visit lines (events ++ [event])

/-- The loop over the chunks: `offset` bytes are unread, `carry` is the unfinished line behind
them. -/
def tailLoop (chunkBytes : ℕ+) (target : ℕ) (visit : List UInt8 → Option β)
    (content : List UInt8) (offset : ℕ) (carry : List UInt8) (events : List β) : List β :=
  if offset = 0 ∨ target < events.length then events
  else
    let start := offset - min (chunkBytes : ℕ) offset
    let parts := ((content.take offset).drop start ++ carry).splitOn newline
    if 0 < start then
      tailLoop chunkBytes target visit content start (parts.headD [])
        (visitLines target visit parts.tail.reverse events)
    else visitLines target visit parts.reverse events
termination_by offset
decreasing_by
  have hpos := chunkBytes.pos
  omega

def collectTail (chunkBytes : ℕ+) (target : ℕ) (visit : List UInt8 → Option β)
    (content : List UInt8) (events : List β) : List β :=
  tailLoop chunkBytes target visit content content.length [] events

end Tail

/-- What the loop body does with a line: the event it adds, if any. -/
def visitEventLine (parse : List UInt8 → Option EventRecord) (before : Option Text)
    (visibleOnly : Bool) (line : List UInt8) : Option EventRecord :=
  (parse line).bind fun event =>
    if visibleOnly ∧ ¬ eventIsUserVisible event then none
    else if before.any fun before => decide (before ≤ event.ts) then none
    else some event

/-- `content` is none when there is no such file. -/
def collectRecentEventsFromFile (chunkBytes : ℕ+) (parse : List UInt8 → Option EventRecord)
    (content : Option (List UInt8)) (target : ℕ) (before : Option Text) (visibleOnly : Bool)
    (events : List EventRecord) : List EventRecord :=
  match content with
  | none => events
  | some content =>
      collectTail chunkBytes target (visitEventLine parse before visibleOnly) content events

/-! ### What the loops collect -/

section Collected

variable {β : Type} {chunkBytes : ℕ+} {target : ℕ} {visit : List UInt8 → Option β}

/-- The events of the lines, the empty ones skipped. -/
def lineEvents (visit : List UInt8 → Option β) (lines : List (List UInt8)) : List β :=
  lines.filterMap fun line => if line = [] then none else visit line

theorem lineEvents_append (lines later : List (List UInt8)) :
    lineEvents visit (lines ++ later) = lineEvents visit lines ++ lineEvents visit later :=
  filterMap_append

theorem visitLines_eq (lines : List (List UInt8)) {events : List β}
    (h : events.length ≤ target) :
    visitLines target visit lines events =
      events ++ (lineEvents visit lines).take (target + 1 - events.length) := by
  induction lines generalizing events with
  | nil => simp [visitLines, lineEvents]
  | cons line lines ih =>
    rw [visitLines]
    split_ifs with hempty
    · rw [ih h]
      simp [lineEvents, hempty]
    · cases hvisit : visit line with
      | none =>
        rw [ih h]
        simp [lineEvents, hempty, hvisit]
      | some event =>
        have hevents : lineEvents visit (line :: lines) = event :: lineEvents visit lines := by
          simp [lineEvents, hempty, hvisit]
        have hroom : target + 1 - events.length = (target - events.length) + 1 := by omega
        dsimp only
        rw [hevents, hroom, take_succ_cons]
        split_ifs with hover
        · rw [length_append, length_singleton] at hover
          have hfull : target - events.length = 0 := by omega
          rw [hfull, take_zero]
        · rw [length_append, length_singleton] at hover
          have hleft : target + 1 - (events ++ [event]).length = target - events.length := by
            rw [length_append, length_singleton]
            omega
          rw [ih (by rw [length_append, length_singleton]; omega), hleft,
            append_assoc, singleton_append]

/-- The chunks make no difference: the loop visits the lines met backwards, up to the target. -/
theorem tailLoop_eq (offset : ℕ) (carry : List UInt8) (events : List β) :
    tailLoop chunkBytes target visit content offset carry events =
      events ++ (lineEvents visit (backward newline chunkBytes content offset carry)).take
        (target + 1 - events.length) := by
  induction hn : offset using Nat.strong_induction_on generalizing offset carry events with
  | _ n ih =>
    subst hn
    rw [tailLoop, backward]
    have hpos := chunkBytes.pos
    by_cases hzero : offset = 0
    · simp [hzero, lineEvents]
    by_cases hfull : target < events.length
    · have hroom : target + 1 - events.length = 0 := by omega
      rw [if_pos (Or.inr hfull), hroom, take_zero, append_nil]
    rw [if_neg (not_or.mpr ⟨hzero, hfull⟩), if_neg hzero]
    dsimp only
    generalize hstart : offset - min (chunkBytes : ℕ) offset = start
    generalize ((content.take offset).drop start ++ carry).splitOn newline = parts
    split_ifs with hmore
    · rw [ih start (by omega) start _ _ rfl, visitLines_eq _ (not_lt.mp hfull)]
      have hroom : target + 1 - (events ++ (lineEvents visit parts.tail.reverse).take
          (target + 1 - events.length)).length =
            target + 1 - events.length - (lineEvents visit parts.tail.reverse).length := by
        rw [length_append, length_take]
        omega
      rw [hroom, lineEvents_append, take_append, append_assoc]
    · rw [visitLines_eq _ (not_lt.mp hfull)]

/-- `BufRead::lines` on bytes: a line loses its newline and one carriage return before it. -/
def trimReturn (line : List UInt8) : List UInt8 :=
  if line.getLast? = some carriageReturn then line.dropLast else line

def readLines (content : List UInt8) : List (List UInt8) := forward newline trimReturn content

/-- The lines of a reader that leaves carriage returns to its caller. -/
def readRawLines (content : List UInt8) : List (List UInt8) :=
  forward newline (fun line => line) content

/-- Whatever a line is used for, the events collected are those of the lines of the file, from
the last one back. -/
theorem collectTail_eq (events : List β) :
    collectTail chunkBytes target visit content events =
      events ++ (lineEvents visit (readRawLines content)).reverse.take
        (target + 1 - events.length) := by
  rw [collectTail, tailLoop_eq]
  congr 2
  by_cases hempty : content = []
  · subst hempty
    simp [backward, readRawLines, forward, lineEvents]
  · rw [backward_eq newline chunkBytes content (length_pos_iff.mpr hempty),
      take_length, append_nil, lineEvents, filterMap_reverse,
      filterMap_splitOn newline (fun line => line) _ (if_pos rfl) (fun _ => rfl)]
    rfl

end Collected

theorem parse_trimReturn (hreturn : ∀ line, parse (line ++ [carriageReturn]) = parse line)
    (line : List UInt8) :
    parse (trimReturn line) = parse line := by
  unfold trimReturn
  split_ifs with hlast
  · obtain ⟨front, rfl⟩ := getLast?_eq_some_iff.mp hlast
    rw [dropLast_concat, hreturn]
  · rfl

/-- To a reader for which a carriage return at the end is white space, the raw lines are the
lines. -/
theorem lineEvents_readRawLines (hempty : parse [] = none)
    (hreturn : ∀ line, parse (line ++ [carriageReturn]) = parse line) (before : Option Text)
    (visibleOnly : Bool) (content : List UInt8) :
    lineEvents (visitEventLine parse before visibleOnly) (readRawLines content) =
      (readLines content).filterMap (visitEventLine parse before visibleOnly) := by
  have hvisit : (fun line => if line = [] then none
      else visitEventLine parse before visibleOnly line) =
        visitEventLine parse before visibleOnly := by
    funext line
    split_ifs with hline
    · rw [hline, visitEventLine, hempty]
      rfl
    · rfl
  have hnone : visitEventLine parse before visibleOnly [] = none := by
    rw [visitEventLine, hempty]
    rfl
  have htrim : ∀ line, visitEventLine parse before visibleOnly (trimReturn line) =
      visitEventLine parse before visibleOnly line := by
    intro line
    rw [visitEventLine, visitEventLine, parse_trimReturn hreturn]
  rw [lineEvents, hvisit, readLines, ← filterMap_splitOn newline trimReturn _ hnone htrim,
    readRawLines, ← filterMap_splitOn newline (fun line => line) _ hnone fun _ => rfl]

/-- The lines a body that keeps every line is given are those of a reader that goes forward, in
reverse order; the events collected are those that the lines of the file carry. -/
theorem tail_reads_lines_backwards (chunkBytes : ℕ+) (content : List UInt8)
    (parse : List UInt8 → Option EventRecord) (hempty : parse [] = none)
    (hreturn : ∀ line, parse (line ++ [carriageReturn]) = parse line) (target : ℕ)
    (before : Option Text) (visibleOnly : Bool) (events : List EventRecord)
    (hunbounded : events.length + (readLines content).length ≤ target) :
    collectTail chunkBytes (readRawLines content).length some content [] =
        ((readRawLines content).filter (· ≠ [])).reverse ∧
      collectRecentEventsFromFile chunkBytes parse (some content) target before visibleOnly
          events =
        events ++ ((readLines content).filterMap
          (visitEventLine parse before visibleOnly)).reverse := by
  constructor
  · have hlines : lineEvents some (readRawLines content) =
        (readRawLines content).filter (· ≠ []) := by
      rw [lineEvents, ← filterMap_eq_filter]
      apply filterMap_congr
      intro line _
      by_cases hline : line = []
      · simp [hline, Option.guard]
      · simp [hline, Option.guard]
    have hlength := length_filter_le (fun line => decide (line ≠ [])) (readRawLines content)
    rw [collectTail_eq, hlines, nil_append, take_of_length_le]
    rw [length_reverse, length_nil]
    omega
  · have hlength := length_filterMap_le (visitEventLine parse before visibleOnly)
      (readLines content)
    rw [collectRecentEventsFromFile, collectTail_eq,
      lineEvents_readRawLines hempty hreturn, take_of_length_le]
    rw [length_reverse]
    omega

/-- A reader that knows one line. -/
def sampleLine : List UInt8 :=
  Text.bytes (("\x7b\"id\":1,\"level\":\"info\",\"type\":\"note\"," : Text) ++
    "\"message\":\"m\",\"ts\":\"2026-01-01T00:00:00Z\"\x7d")

def sampleEvent : EventRecord :=
  { id := 1, level := "info", eventType := "note", audience := none, message := "m"
    detail := none, ts := "2026-01-01T00:00:00Z" }

def sampleParse (line : List UInt8) : Option EventRecord :=
  if line.rdropWhile (· = carriageReturn) = sampleLine then some sampleEvent else none

theorem sampleLog_tail :
    collectRecentEventsFromFile 7 sampleParse
        (some (sampleLine ++ [carriageReturn, newline, newline] ++ sampleLine)) 3 none true [] =
      ((readLines (sampleLine ++ [carriageReturn, newline, newline] ++ sampleLine)).filterMap
        (visitEventLine sampleParse none true)).reverse := by
  have hreturn : ∀ line, sampleParse (line ++ [carriageReturn]) = sampleParse line := by
    intro line
    rw [sampleParse, rdropWhile_concat_pos _ _ _ (by decide)]
    rfl
  exact (tail_reads_lines_backwards 7
    (sampleLine ++ [carriageReturn, newline, newline] ++ sampleLine) sampleParse (by decide)
    hreturn 3 none true [] (by decide +kernel)).2

end CodeSeeX.Store
