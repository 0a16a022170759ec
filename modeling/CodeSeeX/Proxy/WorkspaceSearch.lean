import CodeSeeX.Proxy.FilePaging
import CodeSeeX.Proxy.PathGlobs
import CodeSeeX.Proxy.Sse

/-!
# Searching the workspace, low-priority directories last

`workspace_search` walks a directory tree and puts hidden and large directories into a queue
that it searches afterwards. A directory is put into the queue before the exclude patterns are
looked at, and a directory that is taken out of the queue is not tested again.
-/
namespace CodeSeeX.Search
open List Bool
open Globs (pathPassesGlobs slashed)

def maxSearchFiles : ℕ := 800
def maxSearchFileBytes : ℕ := 1048576
def maxSearchBytes : ℕ := 32 * 1024 * 1024
def maxSearchSnippetChars : ℕ := 1000
def maxToolResultJsonChars : ℕ := 9000
def searchLargeDirEntryThreshold : ℕ := 120

/-- What the search finds in a directory, in name order. `accessible` says that the metadata can be
read and that the canonical path lies inside the boundary; a directory that cannot be read has no
entries, and a file that cannot be read as text has no content. -/
inductive Entry where
  /-- A symbolic link, something else, or an entry whose type cannot be read. -/
  | skipped (name : Text)
  | file (name : Text) (accessible : Bool) (len : ℕ) (content : Option Text)
  | dir (name : Text) (accessible : Bool) (entries : List Entry)

def Entry.name : Entry → Text
  | .skipped name => name
  | .file name _ _ _ => name
  | .dir name _ _ => name

/-- The arguments of a search. The matcher and the redaction of snippets are what they are. -/
structure SearchRequest where
  isMatch : Text → Bool
  redactSensitiveText : Text → Text × ℕ
  contextLines : ℕ
  maxResults : ℕ
  includes : List Text
  excludes : List Text

structure SearchState where
  results : List Value
  visitedFiles : ℕ
  scannedBytes : ℕ
  skippedLargeFiles : ℕ
  unreadableFiles : ℕ
  outputBudgetReached : Bool
  scanByteLimitReached : Bool
  redactedSensitiveValues : ℕ
  deferredDirs : List (Entry × Text)

def SearchState.initial : SearchState where
  results := []
  visitedFiles := 0
  scannedBytes := 0
  skippedLargeFiles := 0
  unreadableFiles := 0
  outputBudgetReached := false
  scanByteLimitReached := false
  redactedSensitiveValues := 0
  deferredDirs := []

def SearchState.stopped (request : SearchRequest) (state : SearchState) : Bool :=
  decide (request.maxResults ≤ state.results.length) || decide (maxSearchFiles ≤ state.visitedFiles) ||
    state.outputBudgetReached || state.scanByteLimitReached

/-! ## Deferral -/

def patternReferencesPathSegment (pattern relative name : Text) : Bool :=
  let pattern := slashed pattern.trim
  if pattern = [] then false
  else pattern = name || pattern.startsWith (name ++ ['/']) ||
    pattern.contains ('/' :: name ++ ['/']) || relative = pattern ||
    relative.startsWith (pattern ++ ['/'])

def shouldDeferSearchDir (entries : List Entry) (relative name : Text) (includes : List Text) : Bool :=
  if includes.any fun pattern => patternReferencesPathSegment pattern relative name then false
  else name.startsWith ['.'] || decide (searchLargeDirEntryThreshold < entries.length)

/-- Whether an entry is put into the queue. -/
def isDeferred (request : SearchRequest) (relative : Text) : Entry → Bool
  | .dir name _ entries => shouldDeferSearchDir entries relative name request.includes
  | _ => false

def isExcluded (request : SearchRequest) (relative : Text) (entry : Entry) : Bool :=
  !pathPassesGlobs relative entry.name [] request.excludes

def entryRelative (relative : Text) (entry : Entry) : Text :=
  if relative = "." then entry.name else relative ++ ['/'] ++ entry.name

/-! ## One file -/

def serializedJsonChars (value : Value) : ℕ := value.print.length

def workspaceSearchResultFits (state : SearchState) (result : Value) : Bool :=
  (state.results.map serializedJsonChars).sum + serializedJsonChars result + 1600 ≤
    maxToolResultJsonChars

def truncateChars (value : Text) (maxChars : ℕ) : Text × Bool :=
  if value.length ≤ maxChars then (value, false)
  else (value.take maxChars ++ ("...[truncated chars=" : Text) ++ Text.ofNat value.length ++ [']'], true)

/-- The result for a matching line, and how many sensitive values its snippet held. -/
def lineResult (request : SearchRequest) (relative : Text) (lines : List Text) (index : ℕ) :
    Value × ℕ :=
  let start := index - request.contextLines
  let stop := min (index + request.contextLines + 1) lines.length
  let snippet := truncateChars (Text.join ['\n'] ((lines.take stop).drop start)) maxSearchSnippetChars
  let redacted := request.redactSensitiveText snippet.1
  (.object [("line", .number (.posInt (UInt64.ofNat (index + 1)))), ("path", .string relative),
    ("snippet", .string redacted.1), ("snippet_truncated", .bool snippet.2)], redacted.2)

/-- The loop over the lines of a file. -/
def reportLines (request : SearchRequest) (relative : Text) (lines : List Text) :
    List (Text × ℕ) → SearchState → SearchState
  | [], state => state
  | (line, index) :: rest, state =>
      if request.isMatch line then
        let result := lineResult request relative lines index
        if workspaceSearchResultFits state result.1 then
          let state := { state with
            redactedSensitiveValues := state.redactedSensitiveValues + result.2
            results := state.results ++ [result.1] }
          if request.maxResults ≤ state.results.length then state
          else reportLines request relative lines rest state
        else { state with outputBudgetReached := true }
      else reportLines request relative lines rest state

def textLines (content : Text) : List Text := Native.lines (FilePages.stripUtf8Bom content).1

def searchFile (request : SearchRequest) (relative name : Text) (len : ℕ) (content : Option Text)
    (state : SearchState) : SearchState :=
  if !pathPassesGlobs relative name request.includes request.excludes then state
  else if maxSearchFileBytes < len then
    { state with skippedLargeFiles := state.skippedLargeFiles + 1 }
  else if maxSearchBytes < state.scannedBytes + len then { state with scanByteLimitReached := true }
  else
    let state := { state with
      visitedFiles := state.visitedFiles + 1
      scannedBytes := state.scannedBytes + len }
    match content with
    | none => { state with unreadableFiles := state.unreadableFiles + 1 }
    | some text =>
        let lines := textLines text
        reportLines request relative lines lines.zipIdx state

/-! ## The walk -/

mutual
def searchPath (request : SearchRequest) (deferLowPriorityDirs : Bool) (relative : Text) :
    Entry → SearchState → SearchState
  | .skipped _, state => state
  | .file name accessible len content, state =>
      if state.stopped request then state
      else if accessible then searchFile request relative name len content state
      else state
  | .dir _ accessible entries, state =>
      if state.stopped request then state
      else if accessible then searchEntries request deferLowPriorityDirs relative entries state
      else state

def searchEntries (request : SearchRequest) (deferLowPriorityDirs : Bool) (relative : Text) :
    List Entry → SearchState → SearchState
  | [], state => state
  | entry :: rest, state =>
      let path := entryRelative relative entry
      if deferLowPriorityDirs && isDeferred request path entry then
        searchEntries request deferLowPriorityDirs relative rest
          { state with deferredDirs := state.deferredDirs ++ [(entry, path)] }
      else if isExcluded request path entry then
        searchEntries request deferLowPriorityDirs relative rest state
      else
        let state := searchPath request deferLowPriorityDirs path entry state
        if state.stopped request then state
        else searchEntries request deferLowPriorityDirs relative rest state
end

/-- The loop over the queue. -/
def searchDeferred (request : SearchRequest) : List (Entry × Text) → SearchState → SearchState
  | [], state => state
  | (entry, relative) :: rest, state =>
      if state.stopped request then state
      else searchDeferred request rest
        (searchPath request false relative entry { state with deferredDirs := rest })

/-- The search as far as its matches, which are the results of the state. -/
def workspaceSearch (request : SearchRequest) (includeDeferredDirs : Bool) (relative : Text)
    (root : Entry) : SearchState :=
  let state := searchPath request true relative root .initial
  if includeDeferredDirs then searchDeferred request state.deferredDirs state else state

/-- The search that defers nothing. -/
def undeferredSearch (request : SearchRequest) (relative : Text) (root : Entry) : SearchState :=
  searchPath request false relative root .initial

/-! ## What there is to search -/

/-- A file that passes the patterns, under the path it is reported with. -/
structure Visit where
  relative : Text
  len : ℕ
  content : Option Text

namespace Visit

/-- Files beyond the size limit are skipped. -/
def isScanned (visit : Visit) : Bool := decide (visit.len ≤ maxSearchFileBytes)

/-- The results for the matching lines of a file. -/
def results (request : SearchRequest) (visit : Visit) : List Value :=
  if visit.isScanned then
    match visit.content with
    | none => []
    | some text =>
        ((textLines text).zipIdx.filter fun line => request.isMatch line.1).map fun line =>
          (lineResult request visit.relative (textLines text) line.2).1
  else []

end Visit

section Collect
variable {β : Type} (request : SearchRequest) (deferred : Bool)
  (onFile : Visit → List β) (onDeferred : Text → Entry → List β)

mutual
/-- What a walk that is stopped by no limit meets. -/
def collect (relative : Text) : Entry → List β
  | .skipped _ => []
  | .file name accessible len content =>
      if accessible && pathPassesGlobs relative name request.includes request.excludes then
        onFile ⟨relative, len, content⟩
      else []
  | .dir _ accessible entries => if accessible then collectEntries relative entries else []

def collectEntries (relative : Text) : List Entry → List β
  | [] => []
  | entry :: rest =>
      (if deferred && isDeferred request (entryRelative relative entry) entry then
        onDeferred (entryRelative relative entry) entry
      else if isExcluded request (entryRelative relative entry) entry then []
      else collect (entryRelative relative entry) entry) ++ collectEntries relative rest
end

end Collect

variable (request : SearchRequest)

/-- The files that are searched without the queue. -/
def visits (deferred : Bool) : Text → Entry → List Visit :=
  collect request deferred (fun visit => [visit]) fun _ _ => []

/-- The directories that are put into the queue. -/
def queued (deferred : Bool) : Text → Entry → List (Entry × Text) :=
  collect request deferred (fun _ => []) fun path entry => [(entry, path)]

/-- The directories in the queue that an exclude pattern matches. -/
def excludedQueued : Text → Entry → List (Entry × Text) :=
  collect request true (fun _ => []) fun path entry =>
    if isExcluded request path entry then [(entry, path)] else []

/-- The files below a directory that is taken out of the queue. -/
def visitsBelow (dir : Entry × Text) : List Visit :=
  visits request false dir.2 dir.1

/-- All files that the search with the queue looks at. -/
def allVisits (relative : Text) (root : Entry) : List Visit :=
  visits request true relative root ++ (queued request true relative root).flatMap (visitsBelow request)

section Permutation
variable {α β : Type} {request}

theorem perm_append {f : α → List β} {as as' cs cs' : List β} {bs bs' ds ds' : List α}
    (h : (as ++ bs.flatMap f).Perm (cs ++ ds.flatMap f))
    (h' : (as' ++ bs'.flatMap f).Perm (cs' ++ ds'.flatMap f)) :
    ((as ++ as') ++ (bs ++ bs').flatMap f).Perm ((cs ++ cs') ++ (ds ++ ds').flatMap f) := by
  have hswap : ∀ ws xs ys zs : List β, ((ws ++ xs) ++ (ys ++ zs)).Perm ((ws ++ ys) ++ (xs ++ zs)) := by
    intro ws xs ys zs
    rw [append_assoc, append_assoc]
    refine Perm.append_left ws ?_
    rw [← append_assoc, ← append_assoc]
    exact Perm.append_right zs perm_append_comm
  rw [flatMap_append, flatMap_append]
  exact (hswap _ _ _ _).trans ((h.append h').trans (hswap _ _ _ _))

mutual
/-- The queue changes the order, and lets in what is below excluded directories. -/
theorem visits_perm (relative : Text) : ∀ entry : Entry,
    (visits request true relative entry ++
      (queued request true relative entry).flatMap (visitsBelow request)).Perm
    (visits request false relative entry ++
      (excludedQueued request relative entry).flatMap (visitsBelow request))
  | .skipped _ => by
    simp only [visits, queued, excludedQueued, collect]
    exact Perm.refl _
  | .file name accessible len content => by
    simp only [visits, queued, excludedQueued, collect]
    exact Perm.of_eq (by split_ifs <;> rfl)
  | .dir name accessible entries => by
    simp only [visits, queued, excludedQueued, collect]
    cases accessible with
    | false => exact Perm.refl _
    | true => exact visitsEntries_perm relative entries

theorem visitsEntries_perm (relative : Text) : ∀ entries : List Entry,
    (collectEntries request true (fun visit => [visit]) (fun _ _ => []) relative entries ++
      (collectEntries request true (fun _ => []) (fun path entry => [(entry, path)]) relative
        entries).flatMap (visitsBelow request)).Perm
    (collectEntries request false (fun visit => [visit]) (fun _ _ => []) relative entries ++
      (collectEntries request true (fun _ => [])
        (fun path entry => if isExcluded request path entry then [(entry, path)] else []) relative
        entries).flatMap (visitsBelow request))
  | [] => Perm.refl _
  | entry :: rest => by
    have hrest := visitsEntries_perm relative rest
    have hfirst := visits_perm (entryRelative relative entry) entry
    simp only [collectEntries]
    refine perm_append ?_ hrest
    by_cases hdeferred : isDeferred request (entryRelative relative entry) entry = true
    · by_cases hexcluded : isExcluded request (entryRelative relative entry) entry = true
      · simp only [hdeferred, hexcluded, Bool.and_true, false_eq_true, if_true, if_false]
        exact Perm.refl _
      · rw [not_eq_true] at hexcluded
        simp only [hdeferred, hexcluded, Bool.and_true, false_eq_true, if_true, if_false]
        rw [flatMap_singleton, flatMap_nil, append_nil, nil_append]
        exact Perm.refl _
    · by_cases hexcluded : isExcluded request (entryRelative relative entry) entry = true
      · simp only [hdeferred, hexcluded, Bool.and_false, false_eq_true, if_true, if_false]
        exact Perm.refl _
      · rw [not_eq_true] at hexcluded
        simp only [hdeferred, hexcluded, Bool.and_false, false_eq_true, if_false]
        exact hfirst
end

end Permutation

/-! ## What a search finds within the limits -/

/-- The numbers that are limited, for files that are searched one after another. -/
structure Room (state : SearchState) (visits : List Visit) : Prop where
  results : state.results.length + (visits.flatMap (Visit.results request)).length <
    request.maxResults
  files : state.visitedFiles + visits.countP Visit.isScanned < maxSearchFiles
  bytes : state.scannedBytes + ((visits.filter Visit.isScanned).map Visit.len).sum ≤ maxSearchBytes
  chars : (state.results.map serializedJsonChars).sum +
    ((visits.flatMap (Visit.results request)).map serializedJsonChars).sum + 1600 ≤
      maxToolResultJsonChars
  budget : state.outputBudgetReached = false
  scan : state.scanByteLimitReached = false

/-- What searching files one after another does to the state. -/
structure Searched (state : SearchState) (visits : List Visit)
    (final : SearchState) : Prop where
  results : final.results = state.results ++ visits.flatMap (Visit.results request)
  files : final.visitedFiles = state.visitedFiles + visits.countP Visit.isScanned
  bytes : final.scannedBytes = state.scannedBytes + ((visits.filter Visit.isScanned).map Visit.len).sum
  budget : final.outputBudgetReached = state.outputBudgetReached
  scan : final.scanByteLimitReached = state.scanByteLimitReached

section Limits
variable {request} {state final last : SearchState} {done todo : List Visit}

theorem Room.not_stopped (h : Room request state todo) : state.stopped request = false := by
  have hresults := h.results
  have hfiles := h.files
  have hmax : ¬ request.maxResults ≤ state.results.length := by omega
  have hvisited : ¬ maxSearchFiles ≤ state.visitedFiles := by omega
  rw [SearchState.stopped, h.budget, h.scan, decide_eq_false hmax, decide_eq_false hvisited]
  rfl

theorem Room.left (h : Room request state (done ++ todo)) : Room request state done := by
  have hresults := h.results
  have hfiles := h.files
  have hbytes := h.bytes
  have hchars := h.chars
  rw [flatMap_append, length_append] at hresults
  rw [countP_append] at hfiles
  rw [filter_append, map_append, sum_append] at hbytes
  rw [flatMap_append, map_append, sum_append] at hchars
  exact ⟨by omega, by omega, by omega, by omega, h.budget, h.scan⟩

theorem Room.after (h : Room request state (done ++ todo)) (hdone : Searched request state done final) :
    Room request final todo := by
  have hresults := h.results
  have hfiles := h.files
  have hbytes := h.bytes
  have hchars := h.chars
  rw [flatMap_append, length_append] at hresults
  rw [countP_append] at hfiles
  rw [filter_append, map_append, sum_append] at hbytes
  rw [flatMap_append, map_append, sum_append] at hchars
  refine ⟨?_, ?_, ?_, ?_, hdone.budget.trans h.budget, hdone.scan.trans h.scan⟩
  · rw [hdone.results, length_append]
    omega
  · rw [hdone.files]
    omega
  · rw [hdone.bytes]
    omega
  · rw [hdone.results, map_append, sum_append]
    omega

theorem Searched.refl (state : SearchState) : Searched request state [] state where
  results := (append_nil _).symm
  files := rfl
  bytes := rfl
  budget := rfl
  scan := rfl

theorem Searched.append (h : Searched request state done final)
    (h' : Searched request final todo last) : Searched request state (done ++ todo) last where
  results := by rw [h'.results, h.results, flatMap_append, append_assoc]
  files := by rw [h'.files, h.files, countP_append, Nat.add_assoc]
  bytes := by
    rw [h'.bytes, h.bytes, filter_append, map_append, sum_append, Nat.add_assoc]
  budget := h'.budget.trans h.budget
  scan := h'.scan.trans h.scan

/-- Within the limits every matching line is reported. -/
theorem reportLines_eq {relative : Text} {lines : List Text} {rest : List (Text × ℕ)}
    {results : List Value}
    (hresults : results = (rest.filter fun line => request.isMatch line.1).map fun line =>
      (lineResult request relative lines line.2).1)
    (hmax : state.results.length + results.length < request.maxResults)
    (hchars : (state.results.map serializedJsonChars).sum +
      (results.map serializedJsonChars).sum + 1600 ≤ maxToolResultJsonChars) :
    ∃ redacted, reportLines request relative lines rest state =
      { state with results := state.results ++ results, redactedSensitiveValues := redacted } := by
  induction rest generalizing state results with
  | nil =>
    rw [hresults]
    exact ⟨state.redactedSensitiveValues, by simp [reportLines]⟩
  | cons line rest ih =>
    obtain ⟨line, index⟩ := line
    rw [reportLines]
    by_cases hmatch : request.isMatch line = true
    · rw [if_pos hmatch]
      rw [filter_cons_of_pos (by exact hmatch), map_cons] at hresults
      change results = (lineResult request relative lines index).1 :: _ at hresults
      subst hresults
      rw [length_cons] at hmax
      rw [map_cons, sum_cons] at hchars
      have hfits : workspaceSearchResultFits state (lineResult request relative lines index).1 = true := by
        rw [workspaceSearchResultFits, decide_eq_true_iff]
        omega
      dsimp only
      rw [if_pos hfits, length_append, length_singleton, if_neg (by omega)]
      obtain ⟨redacted, hrest⟩ := @ih { state with
          redactedSensitiveValues :=
            state.redactedSensitiveValues + (lineResult request relative lines index).2
          results := state.results ++ [(lineResult request relative lines index).1] } _ rfl
        (by
          rw [length_append, length_singleton]
          omega)
        (by
          rw [map_append, sum_append, map_singleton, sum_singleton]
          omega)
      rw [hrest]
      exact ⟨redacted, by rw [append_assoc, singleton_append]⟩
    · rw [if_neg hmatch]
      rw [filter_cons_of_neg (by simpa using hmatch)] at hresults
      exact ih hresults hmax hchars

/-- Within the limits a file that passes the patterns is searched. -/
theorem searchFile_searched {relative name : Text} {len : ℕ} {content : Option Text}
    (hpasses : pathPassesGlobs relative name request.includes request.excludes = true)
    (hroom : Room request state [⟨relative, len, content⟩]) :
    Searched request state [⟨relative, len, content⟩]
      (searchFile request relative name len content state) := by
  have hresults := hroom.results
  have hbytes := hroom.bytes
  have hchars := hroom.chars
  rw [flatMap_singleton] at hresults hchars
  rw [searchFile, hpasses]
  by_cases hlarge : maxSearchFileBytes < len
  · have hscanned : Visit.isScanned ⟨relative, len, content⟩ = false :=
      decide_eq_false (Nat.not_le_of_lt hlarge)
    rw [if_neg (by decide), if_pos hlarge]
    exact
      { results := by simp [Visit.results, hscanned]
        files := by simp [hscanned]
        bytes := by simp [hscanned]
        budget := rfl
        scan := rfl }
  · have hscanned : Visit.isScanned ⟨relative, len, content⟩ = true :=
      decide_eq_true (Nat.le_of_not_lt hlarge)
    rw [filter_cons_of_pos hscanned] at hbytes
    have hroomBytes : ¬ maxSearchBytes < state.scannedBytes + len := by
      have hle : state.scannedBytes + (len + 0) ≤ maxSearchBytes := hbytes
      omega
    rw [if_neg (by decide), if_neg hlarge, if_neg hroomBytes]
    cases content with
    | none =>
      exact
        { results := by simp [Visit.results, hscanned]
          files := by simp [hscanned]
          bytes := by simp [hscanned]
          budget := rfl
          scan := rfl }
    | some text =>
      obtain ⟨redacted, hreport⟩ := @reportLines_eq request { state with
          visitedFiles := state.visitedFiles + 1
          scannedBytes := state.scannedBytes + len } relative (textLines text)
        (textLines text).zipIdx (Visit.results request ⟨relative, len, some text⟩)
        (by rw [Visit.results, if_pos hscanned]) hresults hchars
      dsimp only
      rw [hreport]
      exact
        { results := by rw [flatMap_singleton]
          files := by simp [hscanned]
          bytes := by simp [hscanned]
          budget := rfl
          scan := rfl }

theorem reportLines_deferredDirs (relative : Text) (lines : List Text) (rest : List (Text × ℕ))
    (state : SearchState) :
    (reportLines request relative lines rest state).deferredDirs = state.deferredDirs := by
  induction rest generalizing state with
  | nil => rfl
  | cons line rest ih =>
    rw [reportLines]
    split_ifs
    · dsimp only
      split_ifs
      · rfl
      · exact ih _
      · rfl
    · exact ih _

theorem searchFile_deferredDirs (relative name : Text) (len : ℕ) (content : Option Text)
    (state : SearchState) :
    (searchFile request relative name len content state).deferredDirs = state.deferredDirs := by
  rw [searchFile]
  split_ifs
  · rfl
  · rfl
  · rfl
  · cases content with
    | none => rfl
    | some text => exact reportLines_deferredDirs _ _ _ _

mutual
/-- Within the limits a walk searches what there is, and queues what is deferred. -/
theorem searchPath_searched (deferred : Bool) (relative : Text) : ∀ (entry : Entry)
    (state : SearchState), Room request state (visits request deferred relative entry) →
    Searched request state (visits request deferred relative entry)
        (searchPath request deferred relative entry state) ∧
      (searchPath request deferred relative entry state).deferredDirs =
        state.deferredDirs ++ queued request deferred relative entry
  | .skipped _, state, _ => by
    simp only [visits, queued, collect, searchPath]
    exact ⟨.refl state, (append_nil _).symm⟩
  | .file name accessible len content, state, hroom => by
    simp only [visits, queued, collect, searchPath] at hroom ⊢
    rw [hroom.not_stopped, if_neg Bool.false_ne_true]
    cases accessible with
    | false => exact ⟨.refl state, (append_nil _).symm⟩
    | true =>
      rw [Bool.true_and] at hroom ⊢
      by_cases hpasses : pathPassesGlobs relative name request.includes request.excludes = true
      · rw [if_pos hpasses] at hroom
        rw [if_pos rfl, if_pos hpasses]
        have hsearched := searchFile_searched hpasses hroom
        refine ⟨hsearched, ?_⟩
        rw [searchFile_deferredDirs]
        split_ifs
        · exact (append_nil _).symm
      · rw [if_pos rfl, if_neg hpasses, searchFile, if_pos (by simpa using hpasses), if_neg hpasses]
        exact ⟨.refl state, (append_nil _).symm⟩
  | .dir name accessible entries, state, hroom => by
    simp only [visits, queued, collect, searchPath] at hroom ⊢
    rw [hroom.not_stopped, if_neg Bool.false_ne_true]
    cases accessible with
    | false => exact ⟨.refl state, (append_nil _).symm⟩
    | true => exact searchEntries_searched deferred relative entries state hroom

theorem searchEntries_searched (deferred : Bool) (relative : Text) : ∀ (entries : List Entry)
    (state : SearchState),
    Room request state
      (collectEntries request deferred (fun visit => [visit]) (fun _ _ => []) relative entries) →
    Searched request state
        (collectEntries request deferred (fun visit => [visit]) (fun _ _ => []) relative entries)
        (searchEntries request deferred relative entries state) ∧
      (searchEntries request deferred relative entries state).deferredDirs =
        state.deferredDirs ++ collectEntries request deferred (fun _ => [])
          (fun path entry => [(entry, path)]) relative entries
  | [], state, _ => ⟨.refl state, (append_nil _).symm⟩
  | entry :: rest, state, hroom => by
    simp only [collectEntries] at hroom ⊢
    rw [searchEntries]
    dsimp only
    by_cases hdeferred :
        (deferred && isDeferred request (entryRelative relative entry) entry) = true
    · rw [if_pos hdeferred] at hroom
      rw [if_pos hdeferred, if_pos hdeferred, if_pos hdeferred]
      rw [nil_append] at hroom ⊢
      obtain ⟨hsearched, hqueue⟩ := searchEntries_searched deferred relative rest
        { state with deferredDirs := state.deferredDirs ++ [(entry, entryRelative relative entry)] }
        ⟨hroom.results, hroom.files, hroom.bytes, hroom.chars, hroom.budget, hroom.scan⟩
      refine ⟨⟨hsearched.results, hsearched.files, hsearched.bytes, hsearched.budget,
        hsearched.scan⟩, ?_⟩
      rw [hqueue, append_assoc]
    · rw [if_neg hdeferred] at hroom
      rw [if_neg hdeferred, if_neg hdeferred, if_neg hdeferred]
      by_cases hexcluded : isExcluded request (entryRelative relative entry) entry = true
      · rw [if_pos hexcluded] at hroom
        rw [if_pos hexcluded, if_pos hexcluded, if_pos hexcluded]
        rw [nil_append] at hroom ⊢
        exact searchEntries_searched deferred relative rest state hroom
      · rw [if_neg hexcluded] at hroom
        rw [if_neg hexcluded, if_neg hexcluded, if_neg hexcluded]
        obtain ⟨hsearched, hqueue⟩ :=
          searchPath_searched deferred (entryRelative relative entry) entry state hroom.left
        have hafter := hroom.after hsearched
        rw [hafter.not_stopped, if_neg Bool.false_ne_true]
        obtain ⟨hrest, hrestQueue⟩ := searchEntries_searched deferred relative rest _ hafter
        refine ⟨hsearched.append hrest, ?_⟩
        rw [hrestQueue, hqueue, append_assoc]
        rfl
end

/-- Within the limits the queue is searched to its end. -/
theorem searchDeferred_searched {queue : List (Entry × Text)}
    (hroom : Room request state (queue.flatMap (visitsBelow request))) :
    Searched request state (queue.flatMap (visitsBelow request)) (searchDeferred request queue state) := by
  induction queue generalizing state with
  | nil => exact .refl state
  | cons dir queue ih =>
    obtain ⟨entry, relative⟩ := dir
    have hfirst : Room request { state with deferredDirs := queue }
        (visits request false relative entry) :=
      ⟨hroom.left.results, hroom.left.files, hroom.left.bytes, hroom.left.chars, hroom.budget,
        hroom.scan⟩
    have hsearched := (searchPath_searched false relative entry _ hfirst).1
    have hdone : Searched request state (visitsBelow request (entry, relative))
        (searchPath request false relative entry { state with deferredDirs := queue }) :=
      ⟨hsearched.results, hsearched.files, hsearched.bytes, hsearched.budget, hsearched.scan⟩
    rw [searchDeferred, hroom.not_stopped, if_neg Bool.false_ne_true]
    exact hdone.append (ih (hroom.after hdone))

theorem Room.perm (h : Room request state done) (hperm : done.Perm todo) : Room request state todo where
  results := by
    rw [← (hperm.flatMap_right _).length_eq]
    exact h.results
  files := by
    rw [← hperm.countP_eq]
    exact h.files
  bytes := by
    rw [← ((hperm.filter _).map _).sum_eq]
    exact h.bytes
  chars := by
    rw [← ((hperm.flatMap_right _).map _).sum_eq]
    exact h.chars
  budget := h.budget
  scan := h.scan

end Limits

/-! ## The two searches -/

section Reports
variable {request} {relative : Text} {root : Entry}

/-- The files the search looks at, their lines and their results stay within every limit. -/
def WithinLimits (request : SearchRequest) (relative : Text) (root : Entry) : Prop :=
  Room request .initial (allVisits request relative root)

/-- A file that passes the patterns and lies below no directory that an exclude pattern matches. -/
inductive Reached (request : SearchRequest) : Text → Entry → Visit → Prop where
  | file {relative name : Text} {len : ℕ} {content : Option Text}
      (h : pathPassesGlobs relative name request.includes request.excludes = true) :
      Reached request relative (.file name true len content) ⟨relative, len, content⟩
  | inside {relative name : Text} {entries : List Entry} {entry : Entry} {visit : Visit}
      (hmem : entry ∈ entries)
      (hpasses : isExcluded request (entryRelative relative entry) entry = false)
      (h : Reached request (entryRelative relative entry) entry visit) :
      Reached request relative (.dir name true entries) visit

/-- Both searches report the same lines, all of them of files that no exclude pattern shuts out, and
the queue lets no file be visited twice: the visits are those without it, and those below excluded
directories. -/
def SameReports (request : SearchRequest) (relative : Text) (root : Entry) : Prop :=
  (workspaceSearch request true relative root).results.Perm
      (undeferredSearch request relative root).results ∧
    (∀ result ∈ (workspaceSearch request true relative root).results,
      ∃ visit, Reached request relative root visit ∧ result ∈ visit.results request) ∧
    (allVisits request relative root).Perm (visits request false relative root ++
      (excludedQueued request relative root).flatMap (visitsBelow request))

theorem workspaceSearch_results (h : WithinLimits request relative root) :
    (workspaceSearch request true relative root).results =
      (allVisits request relative root).flatMap (Visit.results request) := by
  have hroom : Room request .initial (visits request true relative root ++
      (queued request true relative root).flatMap (visitsBelow request)) := h
  obtain ⟨hsearched, hqueue⟩ := searchPath_searched true relative root .initial hroom.left
  have hdeferred := searchDeferred_searched (hroom.after hsearched)
  have hall := (hsearched.append hdeferred).results
  rw [workspaceSearch, if_pos rfl, hqueue]
  exact hall

/-- All files, in the order without the queue, and those below excluded directories. -/
theorem allVisits_perm (request : SearchRequest) (relative : Text) (root : Entry) :
    (allVisits request relative root).Perm (visits request false relative root ++
      (excludedQueued request relative root).flatMap (visitsBelow request)) :=
  visits_perm relative root

theorem undeferredSearch_results (h : WithinLimits request relative root) :
    (undeferredSearch request relative root).results =
      (visits request false relative root).flatMap (Visit.results request) := by
  have hroom := (Room.perm h (allVisits_perm request relative root)).left
  exact (searchPath_searched false relative root .initial hroom).1.results

mutual
theorem reached_of_mem_visits (relative : Text) : ∀ (entry : Entry) (visit : Visit),
    visit ∈ visits request false relative entry → Reached request relative entry visit
  | .skipped _, visit, hmem => by
    simp only [visits, collect] at hmem
    exact absurd hmem not_mem_nil
  | .file name accessible len content, visit, hmem => by
    simp only [visits, collect] at hmem
    split_ifs at hmem with hpasses
    · rw [and_eq_true] at hpasses
      obtain ⟨rfl, hpasses⟩ := hpasses
      rw [mem_singleton.mp hmem]
      exact .file hpasses
    · exact absurd hmem not_mem_nil
  | .dir name accessible entries, visit, hmem => by
    simp only [visits, collect] at hmem
    split_ifs at hmem with haccessible
    · obtain ⟨entry, hentry, hpasses, hreached⟩ := reached_of_mem_entries relative entries visit hmem
      rw [haccessible]
      exact .inside hentry hpasses hreached
    · exact absurd hmem not_mem_nil

theorem reached_of_mem_entries (relative : Text) : ∀ (entries : List Entry) (visit : Visit),
    visit ∈ collectEntries request false (fun visit => [visit]) (fun _ _ => []) relative entries →
    ∃ entry ∈ entries, isExcluded request (entryRelative relative entry) entry = false ∧
      Reached request (entryRelative relative entry) entry visit
  | [], visit, hmem => absurd hmem not_mem_nil
  | entry :: rest, visit, hmem => by
    simp only [collectEntries, Bool.false_and, false_eq_true, if_false] at hmem
    obtain hfirst | hrest := mem_append.mp hmem
    · split_ifs at hfirst with hexcluded
      · exact absurd hfirst not_mem_nil
      · exact ⟨entry, mem_cons_self, by simpa using hexcluded,
          reached_of_mem_visits (entryRelative relative entry) entry visit hfirst⟩
    · obtain ⟨other, hother, hpasses, hreached⟩ := reached_of_mem_entries relative rest visit hrest
      exact ⟨other, mem_cons_of_mem entry hother, hpasses, hreached⟩
end

/-- Deferring directories changes the order only, exactly when no directory in the queue that an
exclude pattern matches has a line to report. -/
theorem sameReports_iff (h : WithinLimits request relative root) :
    SameReports request relative root ↔
      ∀ dir ∈ excludedQueued request relative root, ∀ visit ∈ visitsBelow request dir,
        visit.results request = [] := by
  have hresults := workspaceSearch_results h
  have hundeferred := undeferredSearch_results h
  have hperm := (allVisits_perm request relative root).flatMap_right (Visit.results request)
  rw [flatMap_append, ← hresults, ← hundeferred] at hperm
  have hnone : ((excludedQueued request relative root).flatMap (visitsBelow request)).flatMap
      (Visit.results request) = [] ↔
      ∀ dir ∈ excludedQueued request relative root, ∀ visit ∈ visitsBelow request dir,
        visit.results request = [] := by
    rw [flatMap_eq_nil_iff]
    constructor
    · intro hall dir hdir visit hvisit
      exact hall visit (mem_flatMap.mpr ⟨dir, hdir, hvisit⟩)
    · intro hall visit hvisit
      obtain ⟨dir, hdir, hmem⟩ := mem_flatMap.mp hvisit
      exact hall dir hdir visit hmem
  rw [← hnone]
  constructor
  · intro ⟨hsame, _⟩
    have hlength := (hsame.symm.trans hperm).length_eq
    rw [length_append] at hlength
    exact length_eq_zero_iff.mp (by omega)
  · intro hnil
    rw [hnil, append_nil] at hperm
    refine ⟨hperm, ?_, allVisits_perm request relative root⟩
    intro result hresult
    have hmem := hperm.subset hresult
    rw [hundeferred] at hmem
    obtain ⟨visit, hvisit, hline⟩ := mem_flatMap.mp hmem
    exact ⟨visit, reached_of_mem_visits relative root visit hvisit, hline⟩

/-- A search for `key` that excludes what is named. -/
def keySearch (excludes : List Text) : SearchRequest where
  isMatch line := line.contains "key"
  redactSensitiveText snippet := (snippet, 0)
  contextLines := 0
  maxResults := 30
  includes := []
  excludes := excludes

/-- A repository with a hidden directory. -/
def hiddenTree : Entry :=
  .dir "work" true
    [.dir ".git" true [.file "config" true 9 (some "key = abc")], .file "main.rs" true 4 (some "key!")]

theorem sameReports_hiddenTree : SameReports (keySearch [Text.lit "target"]) "." hiddenTree := by
  refine (sameReports_iff ⟨by decide +kernel, by decide +kernel, by decide +kernel,
    by decide +kernel, rfl, rfl⟩).mpr ?_
  have hnone : excludedQueued (keySearch [Text.lit "target"]) "." hiddenTree = [] := by rfl
  rw [hnone]
  intro dir hdir
  exact absurd hdir not_mem_nil

/-- An excluded `.git` at the top is searched all the same. -/
theorem excludedGit_reported : WithinLimits (keySearch [Text.lit ".git"]) "." hiddenTree ∧
    ¬ SameReports (keySearch [Text.lit ".git"]) "." hiddenTree := by
  refine ⟨⟨by decide +kernel, by decide +kernel, by decide +kernel, by decide +kernel, rfl, rfl⟩, ?_⟩
  intro h
  have hlength := h.1.length_eq
  have hqueue : (workspaceSearch (keySearch [Text.lit ".git"]) true "." hiddenTree).results.length = 2 := by
    decide +kernel
  have hdirect : (undeferredSearch (keySearch [Text.lit ".git"]) "." hiddenTree).results.length = 1 := by
    decide +kernel
  rw [hqueue, hdirect] at hlength
  cases hlength

end Reports

end CodeSeeX.Search
