import CodeSeeX.General.CountedPages
import CodeSeeX.Json

/-!
# Listing a directory page by page

`list_directory` walks a directory tree in name order and emits the entries that are asked
for. A page passes over the first `cursor` of them and ends at the page size, at the scan
limit, or before an entry for which the output has no room.
-/
namespace CodeSeeX.Listing
open CountedPages List

def maxDepth : ℕ := 4
def defaultDirectoryPageSize : ℕ := 60
def maxDirectoryPageSize : ℕ := 100
def maxDirectoryScanEntries : ℕ := 4096
def maxToolResultJsonChars : ℕ := 9000

/-! ## Directories -/

inductive FileType where
  | symlink
  | dir
  | file
  | other
deriving DecidableEq

structure Metadata where
  len : UInt64
  modifiedUnix : Option UInt64
  readonly : Bool

/-- An entry of a directory. `fileType` and `metadata` are absent when they cannot be read,
`inside` says that its canonical path begins with the listed directory, and `children` is what
`read_dir` finds below it. -/
structure Entry where
  fileName : List UInt8
  name : Text
  fileType : Option FileType
  metadata : Option Metadata
  inside : Bool
  children : Option (List Entry)

/-- `entries.sort_by_key(|entry| entry.file_name())` -/
def sortEntries (entries : List Entry) : List Entry :=
  entries.insertionSort fun a b => a.fileName ≤ b.fileName

/-! ## Arguments -/

def usizeArg (args : Value) (key : Text) (fallback min max : ℕ) : ℕ :=
  Nat.max min (Nat.min max (((args.get key).bind Value.asU64).getD fallback))

def boolArg (args : Value) (key : Text) (fallback : Bool) : Bool :=
  ((args.get key).bind Value.asBool).getD fallback

/-- The arguments of `list_directory` but for the path and the cursor. -/
structure ListRequest where
  depth : ℕ
  includeFiles : Bool
  includeDirs : Bool
  includeMetadata : Bool
  pageSize : ℕ
  pageSize_pos : 0 < pageSize

def ListRequest.ofArgs (args : Value) : ListRequest where
  depth := usizeArg args "depth" 0 0 maxDepth
  includeFiles := boolArg args "include_files" true
  includeDirs := boolArg args "include_dirs" true
  includeMetadata := boolArg args "include_metadata" false
  pageSize := usizeArg args "max_entries" defaultDirectoryPageSize 1 maxDirectoryPageSize
  pageSize_pos := Nat.le_max_left 1 _

/-! ## The walk -/

structure DirectoryPageState where
  skip : ℕ
  limit : ℕ
  includeMetadata : Bool
  scanned : ℕ
  entries : List Value
  hasMore : Bool
  scanLimitReached : Bool
  outputBudgetReached : Bool

namespace DirectoryPageState

def new (skip limit : ℕ) (includeMetadata : Bool) : DirectoryPageState where
  skip := skip
  limit := limit
  includeMetadata := includeMetadata
  scanned := 0
  entries := []
  hasMore := false
  scanLimitReached := false
  outputBudgetReached := false

def stopped (state : DirectoryPageState) : Bool :=
  state.hasMore || state.scanLimitReached || state.outputBudgetReached

def push (state : DirectoryPageState) (value : Value) : DirectoryPageState × Bool :=
  if 0 < state.skip then ({ state with skip := state.skip - 1 }, true)
  else if state.limit ≤ state.entries.length then ({ state with hasMore := true }, false)
  else ({ state with entries := state.entries ++ [value] }, true)

end DirectoryPageState

def serializedJsonChars (value : Value) : ℕ := value.print.length

def entryFits (entries : List Value) (entry : Value) : Bool :=
  (entries.map serializedJsonChars).sum + serializedJsonChars entry + 1200 ≤ maxToolResultJsonChars

def directoryPageEntryFits (state : DirectoryPageState) (entry : Value) : Bool :=
  entryFits state.entries entry

def entryType : FileType → Text
  | .symlink => "symlink"
  | .dir => "dir"
  | .file => "file"
  | .other => "other"

def shouldEmit (request : ListRequest) (fileType : FileType) : Bool :=
  (fileType == .dir && request.includeDirs) || (fileType == .file && request.includeFiles) ||
    fileType == .symlink

def entryPath (relative : Text) (entry : Entry) : Text :=
  if relative = "." then entry.name else relative ++ ['/'] ++ entry.name

def optionalNumber (n : Option UInt64) : Value := (n.map fun n => Value.number (.posInt n)).getD .null

def entryValue (includeMetadata : Bool) (relative : Text) (entry : Entry) (fileType : FileType) :
    Value :=
  let value := Value.object [("name", .string entry.name), ("path", .string (entryPath relative entry)),
    ("type", .string (entryType fileType))]
  if includeMetadata then
    let value := value.set "size_bytes" (optionalNumber (entry.metadata.map Metadata.len))
    let value := value.set "modified_unix" (optionalNumber (entry.metadata.bind Metadata.modifiedUnix))
    value.set "readonly" ((entry.metadata.map fun m => Value.bool m.readonly).getD .null)
  else value

/-- How the walk goes on below a directory, unless the depth is used up. -/
abbrev Descend (β : Type) := Option (Text → Option (List Entry) → β)

/-- A directory is entered when it lies inside the one that is listed. -/
def walkBelow {β : Type} (descend : Descend β) (stay : β) (relative : Text) (entry : Entry)
    (fileType : FileType) : β :=
  match descend with
  | some walk =>
      if fileType == .dir && entry.inside then walk (entryPath relative entry) entry.children
      else stay
  | none => stay

/-- One turn of the loop over the entries. -/
def visit (request : ListRequest) (descend : Descend (DirectoryPageState → DirectoryPageState))
    (relative : Text) (state : DirectoryPageState) (entry : Entry) : DirectoryPageState :=
  if state.stopped then state
  else if maxDirectoryScanEntries ≤ state.scanned then { state with scanLimitReached := true }
  else
    match entry.fileType with
    | none => state
    | some fileType =>
        let state := { state with scanned := state.scanned + 1 }
        let below := walkBelow descend id relative entry fileType
        if shouldEmit request fileType then
          let value := entryValue state.includeMetadata relative entry fileType
          if directoryPageEntryFits state value then
            let pushed := state.push value
            if pushed.2 then below pushed.1 else pushed.1
          else { state with outputBudgetReached := true }
        else below state

/-- The walk below a directory, `remaining` levels above the maximal depth. -/
def walkDirectoryPage (request : ListRequest) :
    ℕ → Text → Option (List Entry) → DirectoryPageState → DirectoryPageState
  | 0, relative, entries, state =>
      if state.stopped then state
      else match entries with
        | none => state
        | some entries => (sortEntries entries).foldl (visit request none relative) state
  | remaining + 1, relative, entries, state =>
      if state.stopped then state
      else match entries with
        | none => state
        | some entries =>
            (sortEntries entries).foldl
              (visit request (some (walkDirectoryPage request remaining)) relative) state

/-! ## The result -/

structure DirectoryPage where
  path : Text
  depth : ℕ
  cursor : ℕ
  nextCursor : Option ℕ
  hasMore : Bool
  scanLimitReached : Bool
  outputBudgetReached : Bool
  entries : List Value
  scanned : ℕ
  metadataIncluded : Bool
  truncated : Bool
  truncationReason : Option Text

def countValue (n : ℕ) : Value := .number (.posInt (UInt64.ofNat n))

def DirectoryPage.toValue (page : DirectoryPage) : Value :=
  .object [
    ("cursor", countValue page.cursor), ("depth", countValue page.depth),
    ("entries", .array page.entries), ("has_more", .bool page.hasMore),
    ("next_cursor", (page.nextCursor.map countValue).getD .null), ("ok", .bool true),
    ("output_budget_reached", .bool page.outputBudgetReached), ("path", .string page.path),
    ("scan_limit_reached", .bool page.scanLimitReached),
    ("summary", .object [
      ("metadata_included", .bool page.metadataIncluded),
      ("returned", countValue page.entries.length), ("scanned", countValue page.scanned)]),
    ("truncated", .bool page.truncated),
    ("truncation_reason", (page.truncationReason.map Value.string).getD .null)]

/-- A page, or the error that takes its place when it exceeds the output budget. -/
inductive ListResult where
  | page (page : DirectoryPage)
  | toolResultBudgetExceeded (resultJsonChars : ℕ)

def fitToolResult (page : DirectoryPage) : ListResult :=
  let chars := serializedJsonChars page.toValue
  if chars ≤ maxToolResultJsonChars then .page page else .toolResultBudgetExceeded chars

/-- A directory to list: how the tools show its path, and what `read_dir` finds in it. -/
structure Directory where
  relative : Text
  entries : Option (List Entry)

def listPage (directory : Directory) (request : ListRequest) (cursor : ℕ) : DirectoryPage :=
  let state := walkDirectoryPage request request.depth directory.relative directory.entries
    (.new cursor request.pageSize request.includeMetadata)
  let hasMore := state.hasMore && !state.scanLimitReached && !state.outputBudgetReached &&
    !state.entries.isEmpty
  { path := directory.relative
    depth := request.depth
    cursor := cursor
    nextCursor := if hasMore then some (cursor + state.entries.length) else none
    hasMore := hasMore
    scanLimitReached := state.scanLimitReached
    outputBudgetReached := state.outputBudgetReached
    entries := state.entries
    scanned := state.scanned
    metadataIncluded := request.includeMetadata
    truncated := hasMore || state.scanLimitReached || state.outputBudgetReached
    truncationReason :=
      if state.outputBudgetReached then some (Text.lit "output_budget")
      else if state.scanLimitReached then some (Text.lit "scan_limit")
      else if hasMore then some (Text.lit "page_limit")
      else none }

def listDirectory (directory : Directory) (request : ListRequest) (cursor : ℕ) : ListResult :=
  fitToolResult (listPage directory request cursor)

/-! ## The walk in one line -/

/-- What the walk meets, one entry after another. -/
inductive Item where
  | unreadable
  | passed
  | selected (value : Value)

def itemsAt (request : ListRequest) (descend : Descend (List Item)) (relative : Text)
    (entry : Entry) : List Item :=
  match entry.fileType with
  | none => [.unreadable]
  | some fileType =>
      (if shouldEmit request fileType then
        .selected (entryValue request.includeMetadata relative entry fileType) else .passed) ::
      walkBelow descend [] relative entry fileType

/-- The entries below a directory in traversal order. -/
def items (request : ListRequest) : ℕ → Text → Option (List Entry) → List Item
  | 0, relative, entries => (sortEntries (entries.getD [])).flatMap (itemsAt request none relative)
  | remaining + 1, relative, entries =>
      (sortEntries (entries.getD [])).flatMap
        (itemsAt request (some (items request remaining)) relative)

def Item.value? : Item → Option Value
  | .selected value => some value
  | _ => none

/-- The entries that are to be listed, in traversal order. -/
def selected (directory : Directory) (request : ListRequest) : List Value :=
  (items request request.depth directory.relative directory.entries).filterMap Item.value?

/-- How many entries there are to scan. -/
def entriesToScan (directory : Directory) (request : ListRequest) : ℕ :=
  (items request request.depth directory.relative directory.entries).length

/-- What one entry does to the page. -/
def take (state : DirectoryPageState) (item : Item) : DirectoryPageState :=
  if state.stopped then state
  else if maxDirectoryScanEntries ≤ state.scanned then { state with scanLimitReached := true }
  else
    match item with
    | .unreadable => state
    | .passed => { state with scanned := state.scanned + 1 }
    | .selected value =>
        let state := { state with scanned := state.scanned + 1 }
        if directoryPageEntryFits state value then (state.push value).1
        else { state with outputBudgetReached := true }

section Walk
variable {request : ListRequest} {state : DirectoryPageState}

theorem take_stopped (h : state.stopped = true) (item : Item) : take state item = state := if_pos h

theorem foldl_take_stopped (h : state.stopped = true) (rest : List Item) :
    rest.foldl take state = state := by
  induction rest with
  | nil => rfl
  | cons item rest ih => rw [foldl_cons, take_stopped h, ih]

@[simp] theorem push_includeMetadata (state : DirectoryPageState) (value : Value) :
    (state.push value).1.includeMetadata = state.includeMetadata := by
  rw [DirectoryPageState.push]
  split_ifs
  · rfl
  · rfl
  · rfl

theorem stopped_of_push {value : Value} (h : (state.push value).2 = false) :
    (state.push value).1.stopped = true := by
  rw [DirectoryPageState.push] at h ⊢
  split_ifs at h ⊢
  rfl

theorem take_includeMetadata (state : DirectoryPageState) (item : Item) :
    (take state item).includeMetadata = state.includeMetadata := by
  cases item with
  | unreadable =>
    simp only [take]
    split_ifs
    · rfl
    · rfl
    · rfl
  | passed =>
    simp only [take]
    split_ifs
    · rfl
    · rfl
    · rfl
  | selected value =>
    simp only [take]
    split_ifs
    · rfl
    · rfl
    · exact push_includeMetadata _ value
    · rfl

theorem foldl_take_includeMetadata (state : DirectoryPageState) (rest : List Item) :
    (rest.foldl take state).includeMetadata = state.includeMetadata := by
  induction rest generalizing state with
  | nil => rfl
  | cons item rest ih => rw [foldl_cons, ih, take_includeMetadata]

/-- What a walk below a directory has to do to the state. -/
def Walks (request : ListRequest) (walk : Text → Option (List Entry) → DirectoryPageState →
    DirectoryPageState) (below : Text → Option (List Entry) → List Item) : Prop :=
  ∀ relative entries state, state.includeMetadata = request.includeMetadata →
    walk relative entries state = (below relative entries).foldl take state

variable {descend : Descend (DirectoryPageState → DirectoryPageState)} {below : Descend (List Item)}

section
variable (hbelow : Option.Rel (Walks request) descend below)
  (hmetadata : state.includeMetadata = request.includeMetadata) (relative : Text)
include hbelow hmetadata

theorem walkBelow_eq (entry : Entry) (fileType : FileType) :
    walkBelow descend id relative entry fileType state =
      (walkBelow below [] relative entry fileType).foldl take state := by
  cases hbelow with
  | none => rfl
  | some hwalk =>
    simp only [walkBelow]
    split_ifs
    · exact hwalk _ _ state hmetadata
    · rfl

theorem visit_eq (entry : Entry) :
    visit request descend relative state entry =
      (itemsAt request below relative entry).foldl take state := by
  by_cases hstopped : state.stopped = true
  · rw [foldl_take_stopped hstopped, visit, if_pos hstopped]
  by_cases hscan : maxDirectoryScanEntries ≤ state.scanned
  · have hlimit : ({ state with scanLimitReached := true } : DirectoryPageState).stopped = true := by
      simp [DirectoryPageState.stopped]
    have hfirst : ∀ item, take state item = { state with scanLimitReached := true } := by
      intro item
      rw [take.eq_def, if_neg hstopped, if_pos hscan]
    rw [visit, if_neg hstopped, if_pos hscan, itemsAt]
    cases entry.fileType with
    | none =>
      show _ = take state .unreadable
      exact (hfirst _).symm
    | some fileType =>
      rw [foldl_cons, hfirst, foldl_take_stopped hlimit]
  rw [visit, if_neg hstopped, if_neg hscan, itemsAt]
  cases entry.fileType with
  | none =>
    show state = take state .unreadable
    rw [take, if_neg hstopped, if_neg hscan]
  | some fileType =>
    dsimp only
    rw [foldl_cons]
    by_cases hemit : shouldEmit request fileType = true
    · rw [if_pos hemit, if_pos hemit, take.eq_def, if_neg hstopped, if_neg hscan]
      dsimp only
      rw [hmetadata]
      split_ifs with hfits hpushed
      · exact walkBelow_eq hbelow (by rw [push_includeMetadata]) _ _ _
      · rw [foldl_take_stopped (stopped_of_push (by simpa using hpushed))]
      · rw [foldl_take_stopped]
        simp [DirectoryPageState.stopped]
    · rw [if_neg hemit, if_neg hemit, take.eq_def, if_neg hstopped, if_neg hscan]
      exact @walkBelow_eq request { state with scanned := state.scanned + 1 } _ _ hbelow hmetadata
        _ _ _

theorem foldl_visit (entries : List Entry) :
    entries.foldl (visit request descend relative) state =
      (entries.flatMap (itemsAt request below relative)).foldl take state := by
  induction entries generalizing state with
  | nil => rfl
  | cons entry entries ih =>
    rw [foldl_cons, flatMap_cons, foldl_append, visit_eq hbelow hmetadata]
    exact ih (by rw [foldl_take_includeMetadata, hmetadata])

end

/-- The walk takes what it meets in traversal order. -/
theorem walkDirectoryPage_eq (remaining : ℕ) :
    Walks request (walkDirectoryPage request remaining) (items request remaining) := by
  induction remaining with
  | zero =>
    intro relative entries state hmetadata
    by_cases hstopped : state.stopped = true
    · rw [foldl_take_stopped hstopped, walkDirectoryPage.eq_def]
      exact if_pos hstopped
    · rw [walkDirectoryPage.eq_def]
      dsimp only
      rw [if_neg hstopped]
      cases entries with
      | none => rfl
      | some entries => exact foldl_visit .none hmetadata relative _
  | succ remaining ih =>
    intro relative entries state hmetadata
    by_cases hstopped : state.stopped = true
    · rw [foldl_take_stopped hstopped, walkDirectoryPage.eq_def]
      exact if_pos hstopped
    · rw [walkDirectoryPage.eq_def]
      dsimp only
      rw [if_neg hstopped]
      cases entries with
      | none => rfl
      | some entries => exact foldl_visit (.some ih) hmetadata relative _

/-- Within the scan limit what the walk takes is a page of the selected entries. -/
theorem foldl_take_eq {rest : List Item} (hstopped : state.stopped = false)
    (hscan : state.scanned + rest.length ≤ maxDirectoryScanEntries) :
    let page := fill entryFits state.limit state.skip state.entries (rest.filterMap Item.value?)
    let final := rest.foldl take state
    final.entries = page.1 ∧ final.scanLimitReached = false ∧
      final.hasMore = decide (page.2 = .more) ∧ final.outputBudgetReached = decide (page.2 = .cut) := by
  induction rest generalizing state with
  | nil =>
    obtain ⟨⟨hmore, hlimit⟩, hcut⟩ := by simpa [DirectoryPageState.stopped] using hstopped
    exact ⟨rfl, hlimit, hmore, hcut⟩
  | cons item rest ih =>
    rw [length_cons] at hscan
    have hroom : ¬ maxDirectoryScanEntries ≤ state.scanned := by omega
    obtain ⟨⟨hmore, hlimit⟩, hcut⟩ := by simpa [DirectoryPageState.stopped] using hstopped
    rw [foldl_cons]
    cases item with
    | unreadable =>
      rw [take, if_neg (by simp [hstopped]), if_neg hroom]
      exact ih hstopped (by omega)
    | passed =>
      rw [take, if_neg (by simp [hstopped]), if_neg hroom]
      exact @ih { state with scanned := state.scanned + 1 } hstopped
        (by show state.scanned + 1 + rest.length ≤ _; omega)
    | selected value =>
      have hvalues : (Item.selected value :: rest).filterMap Item.value? =
          value :: rest.filterMap Item.value? := rfl
      have hlater : state.scanned + 1 + rest.length ≤ maxDirectoryScanEntries := by omega
      rw [take, if_neg (by simp [hstopped]), if_neg hroom, hvalues, fill.eq_def]
      dsimp only
      by_cases hfits : entryFits state.entries value = true
      · rw [directoryPageEntryFits, if_pos hfits, if_pos hfits, DirectoryPageState.push]
        cases hskip : state.skip with
        | succ skip =>
          exact @ih { state with scanned := state.scanned + 1, skip := skip } hstopped hlater
        | zero =>
          rw [if_neg (Nat.lt_irrefl 0)]
          split_ifs with hfull
          · rw [foldl_take_stopped (by simp [DirectoryPageState.stopped])]
            exact ⟨rfl, hlimit, rfl, hcut⟩
          · have hpage := @ih { state with scanned := state.scanned + 1
                                           entries := state.entries ++ [value] } hstopped hlater
            rw [hskip] at hpage
            exact hpage
      · rw [directoryPageEntryFits, if_neg hfits, if_neg hfits,
          foldl_take_stopped (by simp [DirectoryPageState.stopped])]
        exact ⟨rfl, hlimit, hmore, rfl⟩

end Walk

/-! ## Following the cursor -/

def ListResult.nextCursor : ListResult → Option ℕ
  | .page listed => listed.nextCursor
  | .toolResultBudgetExceeded _ => none

def ListResult.entries : ListResult → List Value
  | .page listed => listed.entries
  | .toolResultBudgetExceeded _ => []

/-- The results of following the cursor until it is absent. -/
inductive Follows (directory : Directory) (request : ListRequest) : ℕ → List ListResult → Prop where
  | last {cursor : ℕ} (h : (listDirectory directory request cursor).nextCursor = none) :
      Follows directory request cursor [listDirectory directory request cursor]
  | more {cursor next : ℕ} {results : List ListResult}
      (h : (listDirectory directory request cursor).nextCursor = some next)
      (hrest : Follows directory request next results) :
      Follows directory request cursor (listDirectory directory request cursor :: results)

/-- Following the cursor from the beginning lists every selected entry once and in order. -/
def ListsAll (directory : Directory) (request : ListRequest) : Prop :=
  ∃ results, Follows directory request 0 results ∧
    results.flatMap ListResult.entries = selected directory request

/-- How a run ends: with everything listed, or with a last result that says it was cut. -/
def EndsAt (listed entries : List Value) : ListResult → Prop
  | .page page =>
      if page.outputBudgetReached then
        page.nextCursor = none ∧ page.truncationReason = some (Text.lit "output_budget") ∧
          ∃ entry rest, entries = listed ++ entry :: rest ∧ entryFits page.entries entry = false
      else listed = entries
  | .toolResultBudgetExceeded _ => listed <+: entries

section Following
variable {directory : Directory} {request : ListRequest} {cursor : ℕ}

theorem EndsAt.append {listed entries : List Value} {last : ListResult}
    (h : EndsAt listed entries last) (front : List Value) :
    EndsAt (front ++ listed) (front ++ entries) last := by
  cases last with
  | toolResultBudgetExceeded chars => exact (prefix_append_right_inj front).mpr h
  | page page =>
    rw [EndsAt] at h ⊢
    split_ifs at h ⊢
    · obtain ⟨hnext, hreason, entry, rest, hentries, hfits⟩ := h
      exact ⟨hnext, hreason, entry, rest, by rw [hentries, append_assoc], hfits⟩
    · rw [h]

theorem entryFits_nil {entries : List Value} {entry : Value} (h : entryFits entries entry = true) :
    entryFits [] entry = true := by
  rw [entryFits, decide_eq_true_iff] at h ⊢
  rw [map_nil, sum_nil]
  omega

section
variable (hscan : entriesToScan directory request ≤ maxDirectoryScanEntries)
  (hskipped : ∀ a ∈ (selected directory request).take cursor, entryFits [] a = true)
include hscan hskipped

/-- The walk past entries that fit ends with a page of the entries after the cursor. -/
theorem walk_spec :
    let final := walkDirectoryPage request request.depth directory.relative directory.entries
      (.new cursor request.pageSize request.includeMetadata)
    ∃ page, IsPage entryFits request.pageSize ((selected directory request).drop cursor) page ∧
      final.entries = page.1 ∧ final.scanLimitReached = false ∧
      final.hasMore = decide (page.2 = .more) ∧ final.outputBudgetReached = decide (page.2 = .cut) := by
  intro final
  have hwalk : final = (items request request.depth directory.relative directory.entries).foldl take
      (.new cursor request.pageSize request.includeMetadata) :=
    walkDirectoryPage_eq request.depth directory.relative directory.entries _ rfl
  rw [hwalk]
  exact ⟨_, fill_isPage hskipped, foldl_take_eq rfl (hscan.trans' (Nat.zero_add _).le)⟩

/-- A page past entries that fit holds the entries after its cursor, and says how it ends. -/
theorem listPage_spec :
    ∃ ending,
      IsPage entryFits request.pageSize ((selected directory request).drop cursor)
        ((listPage directory request cursor).entries, ending) ∧
      (listPage directory request cursor).outputBudgetReached = decide (ending = .cut) ∧
      (listPage directory request cursor).truncationReason =
        (match ending with
          | .complete => none
          | .more => some (Text.lit "page_limit")
          | .cut => some (Text.lit "output_budget")) ∧
      (listPage directory request cursor).nextCursor =
        if ending = .more then some (cursor + (listPage directory request cursor).entries.length)
        else none := by
  obtain ⟨⟨entries, ending⟩, hpage, hentries, hlimit, hmore, hcut⟩ := walk_spec hscan hskipped
  rw [listPage]
  rw [hentries, hlimit, hmore, hcut]
  refine ⟨ending, hpage, rfl, ?_⟩
  cases ending with
  | complete => exact ⟨rfl, rfl⟩
  | cut => exact ⟨rfl, rfl⟩
  | more =>
    have hlength := (hpage.more rfl).1
    have hsome : entries.isEmpty = false := by
      rw [isEmpty_eq_false_iff_exists_mem]
      exact exists_mem_of_length_pos (hlength ▸ request.pageSize_pos)
    rw [hsome]
    exact ⟨rfl, rfl⟩

/-- The run from a cursor lists the entries after it, or ends with a result that says why not. -/
theorem exists_follows :
    ∃ results last, Follows directory request cursor (results ++ [last]) ∧
      EndsAt ((results ++ [last]).flatMap ListResult.entries)
        ((selected directory request).drop cursor) last := by
  induction hleft : (selected directory request).length - cursor using Nat.strong_induction_on
    generalizing cursor with
  | _ n ih =>
    by_cases hchars : serializedJsonChars (listPage directory request cursor).toValue ≤
        maxToolResultJsonChars
    · have hresult : listDirectory directory request cursor =
          .page (listPage directory request cursor) := by
        exact if_pos hchars
      obtain ⟨ending, hpage, hcut, hreason, hnext⟩ := listPage_spec hscan hskipped
      generalize listPage directory request cursor = page at *
      cases ending with
      | complete =>
        refine ⟨[], _, .last (by rw [hresult]; exact hnext), ?_⟩
        rw [hresult, nil_append, flatMap_singleton, EndsAt, hcut]
        exact hpage.complete rfl
      | cut =>
        obtain ⟨entry, rest, hentries, hfits⟩ := hpage.cut rfl
        refine ⟨[], _, .last (by rw [hresult]; exact hnext), ?_⟩
        rw [hresult, nil_append, flatMap_singleton, EndsAt, hcut]
        exact ⟨hnext, hreason, entry, rest, hentries, hfits⟩
      | more =>
        obtain ⟨hlength, entry, rest, hentries⟩ := hpage.more rfl
        dsimp only at hlength hentries
        have hpos := request.pageSize_pos
        have hinside := congrArg length hentries
        rw [length_drop, length_append, length_cons] at hinside
        have htaken : ∀ a ∈ (selected directory request).take (cursor + page.entries.length),
            entryFits [] a = true := by
          intro a ha
          rw [take_add, hentries, take_left] at ha
          obtain ha | ha := mem_append.mp ha
          · exact hskipped a ha
          · obtain ⟨earlier, hfits⟩ := hpage.fitting a ha
            exact entryFits_nil hfits
        obtain ⟨results, last, hrun, hends⟩ := ih _ (by omega) htaken rfl
        refine ⟨listDirectory directory request cursor :: results, last,
          .more (by rw [hresult]; exact hnext) hrun, ?_⟩
        have hrest := hends.append page.entries
        rw [← drop_drop, hentries, drop_left] at hrest
        rw [hentries, hresult, cons_append, flatMap_cons]
        exact hrest
    · have hresult : listDirectory directory request cursor = .toolResultBudgetExceeded
          (serializedJsonChars (listPage directory request cursor).toValue) := by
        exact if_neg hchars
      refine ⟨[], _, .last (by rw [hresult]; rfl), ?_⟩
      rw [hresult]
      exact nil_prefix

end

/-- Following the cursor lists the selected entries once and in order, up to the end or to a
last result that says that the output budget cut it. -/
theorem listDirectory_run (directory : Directory) (request : ListRequest)
    (hscan : entriesToScan directory request ≤ maxDirectoryScanEntries) :
    ∃ results last, Follows directory request 0 (results ++ [last]) ∧
      EndsAt ((results ++ [last]).flatMap ListResult.entries) (selected directory request) last := by
  have hrun := @exists_follows directory request 0 hscan (by simp)
  rwa [drop_zero] at hrun

end Following

/-! ## Runs on fixed directories -/

def plainFile (name : Text) : Entry where
  fileName := Text.bytes name
  name := name
  fileType := some .file
  metadata := none
  inside := true
  children := none

def plainRequest : ListRequest := .ofArgs (.object [])

def oneEntryRequest : ListRequest := .ofArgs (.object [("max_entries", .number (.posInt 1))])

/-- Two files on pages of one entry. -/
theorem listDirectory_run_two :
    let directory : Directory := ⟨".", some [plainFile "b", plainFile "a"]⟩
    ∃ results last, Follows directory oneEntryRequest 0 (results ++ [last]) ∧
      EndsAt ((results ++ [last]).flatMap ListResult.entries)
        (selected directory oneEntryRequest) last :=
  listDirectory_run ⟨".", some [plainFile "b", plainFile "a"]⟩ oneEntryRequest (by decide +kernel)

/-- Sixteen files with names of 241 characters. -/
def crowded : Directory where
  relative := "."
  entries := some ((Text.lit "abcdefghijklmnop").map fun c => plainFile (c :: replicate 240 'x'))

/-- The output has no room for the last of the files, and no cursor leads to it. -/
theorem crowded_not_listsAll : entriesToScan crowded plainRequest ≤ maxDirectoryScanEntries ∧
    ¬ ListsAll crowded plainRequest := by
  refine ⟨by decide +kernel, ?_⟩
  intro ⟨results, hrun, hall⟩
  have hnext : (listDirectory crowded plainRequest 0).nextCursor = none := by decide +kernel
  have hlength : (listDirectory crowded plainRequest 0).entries.length ≠
      (selected crowded plainRequest).length := by decide +kernel
  cases hrun with
  | last _ =>
    rw [flatMap_singleton] at hall
    exact hlength (congrArg length hall)
  | more hsome _ =>
    rw [hnext] at hsome
    cases hsome

end CodeSeeX.Listing
