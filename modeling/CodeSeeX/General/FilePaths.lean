import CodeSeeX.General.BackwardLines
import Mathlib.Data.List.DropRight
import Mathlib.Data.List.ReduceOption

/-!
# Paths in a file system with symbolic links

A path is a text of segments between slashes. A file system maps locations, which are
lists of names, to nodes; resolving a path walks along its segments and follows links.
-/
namespace CodeSeeX.FilePaths
open List Option Prod

variable {links : ℕ} {path : List Char} (n : ℕ)

abbrev Name := List Char

/-- Where a node is, from the root downwards. -/
abbrev Location := List Name

inductive Node where
  | dir
  | file
  | symlink (target : List Char)
  | other
deriving DecidableEq

def Node.isSymlink : Node → Bool
  | .symlink _ => true
  | _ => false

def segments (path : List Char) : List Name := path.splitOn '/'

def isAbsolute (path : List Char) : Bool := path.head? == some '/'

def currentSegment : Name := ['.']
def parentSegment : Name := ['.', '.']

/-- A segment that names an entry of a directory. -/
structure ProperName (name : Name) : Prop where
  nonempty : name ≠ []
  noSlash : '/' ∉ name
  not_current : name ≠ currentSegment
  not_parent : name ≠ parentSegment

/-- A location that is reached without following a link. -/
structure Located (node : Location → Option Node) (location : Location) : Prop where
  names : ∀ name ∈ location, ProperName name
  above : ∀ front back, location = front ++ back → back ≠ [] → node front = some .dir
  here : ∃ kind, node location = some kind ∧ kind.isSymlink = false

/-- A file system and the working directory of the process. -/
structure FileSystem where
  node : Location → Option Node
  cwd : Location
  root_dir : node [] = some .dir
  cwd_located : Located node cwd
  cwd_dir : node cwd = some .dir

/-! ## Walking along segments -/

inductive Stop where
  | arrived (location : Location)
  | link (base : Location) (target : List Char) (rest : List Name)
  | failed

/-- The walk as far as the next link. -/
def advance (node : Location → Option Node) : Location → List Name → Stop
  | location, [] => .arrived location
  | location, segment :: rest =>
      if node location ≠ some .dir then .failed
      else if segment = [] ∨ segment = currentSegment then advance node location rest
      else if segment = parentSegment then advance node location.dropLast rest
      else
        match node (location ++ [segment]) with
        | none => .failed
        | some (.symlink target) => .link location target rest
        | some _ => advance node (location ++ [segment]) rest

/-- Where a path that begins at `base` begins. -/
def startOf (base : Location) (path : List Char) : Location := if isAbsolute path then [] else base

/-- The walk that follows at most `links` links. -/
def walk (node : Location → Option Node) : ℕ → Location → List Name → Option Location
  | 0, location, segs =>
      match advance node location segs with
      | .arrived final => some final
      | .link _ _ _ => none
      | .failed => none
  | links + 1, location, segs =>
      match advance node location segs with
      | .arrived final => some final
      | .link base target rest =>
          if target = [] then none
          else walk node links (startOf base target) (segments target ++ rest)
      | .failed => none

namespace FileSystem

/-- As many links as a path may lead through. -/
def maxLinks : ℕ := 40

def locate (fs : FileSystem) (path : List Char) : Option Location :=
  if path = [] then none else walk fs.node maxLinks (startOf fs.cwd path) (segments path)

/-- The text of a location. -/
def absoluteText (location : Location) : List Char := '/' :: ['/'].intercalate location

/-- `fs::canonicalize` -/
def canonicalize (fs : FileSystem) (path : List Char) : Option (List Char) :=
  (fs.locate path).map absoluteText

/-- `fs::metadata`, which follows links. -/
def metadata (fs : FileSystem) (path : List Char) : Option Node := (fs.locate path).bind fs.node

def pathExists (fs : FileSystem) (path : List Char) : Bool := (fs.locate path).isSome

end FileSystem

/-! ## Components -/

inductive Component where
  | rootDir
  | curDir
  | parentDir
  | normal (name : Name)
deriving DecidableEq

/-- A segment is a component unless it is empty, or `.` behind another segment. -/
def componentAt (index : ℕ) (segment : Name) : Option Component :=
  if segment = [] then none
  else if segment = currentSegment then if index = 0 then some .curDir else none
  else if segment = parentSegment then some .parentDir
  else some (.normal segment)

/-- `Path::components` -/
def components (path : List Char) : List Component :=
  (if isAbsolute path then [.rootDir] else []) ++ ((segments path).mapIdx componentAt).reduceOption

/-- `Path::starts_with` -/
def startsWith (path base : List Char) : Bool := decide (components base <+: components path)

/-- `Path::join` -/
def join (base path : List Char) : List Char :=
  if isAbsolute path then path
  else if base = [] ∨ base.getLast? = some '/' then base ++ path
  else base ++ '/' :: path

/-- A segment, and whether it is a component. -/
def tagged (index : ℕ) (segment : Name) : Name × Bool := (segment, (componentAt index segment).isSome)

/-- The segments without those at the end that are no components. -/
def trimSegments (segs : List (Name × Bool)) : List (Name × Bool) := segs.rdropWhile fun s => !s.2

/-- `Path::parent` -/
def parent (path : List Char) : Option (List Char) :=
  let segs := trimSegments ((segments path).mapIdx tagged)
  if segs = [] then none
  else
    let front := trimSegments segs.dropLast
    if front = [] then some (if isAbsolute path then ['/'] else [])
    else some (['/'].intercalate (front.map Prod.fst))

/-! ## Resolving -/

section Resolving
variable {node : Location → Option Node} {location final base : Location}
  {segs front back rest : List Name} {target : List Char}

theorem segments_noSlash (path : List Char) : ∀ segment ∈ segments path, '/' ∉ segment :=
  fun _ hmem => BackwardLines.notMem_of_mem_splitOn '/' hmem

theorem Located.root (hroot : node [] = some .dir) : Located node [] where
  names _ h := absurd h not_mem_nil
  above _ _ h hback := absurd (append_eq_nil_iff.mp h.symm).2 hback
  here := ⟨.dir, hroot, rfl⟩

theorem Located.dropLast (h : Located node location) (hdir : node location = some .dir) :
    Located node location.dropLast ∧ node location.dropLast = some .dir := by
  rcases eq_nil_or_concat location with rfl | ⟨upper, name, rfl⟩
  · exact ⟨h, hdir⟩
  · rw [concat_eq_append] at *
    have hupper : node upper = some .dir := h.above upper [name] rfl (cons_ne_nil _ _)
    rw [dropLast_concat]
    refine ⟨⟨fun n hn => h.names n (mem_append_left _ hn), ?_, .dir, hupper, rfl⟩, hupper⟩
    intro front back heq _
    exact h.above front (back ++ [name]) (by rw [heq, append_assoc]) (by simp)

theorem Located.enter {name : Name} {kind : Node} (h : Located node location)
    (hdir : node location = some .dir) (hname : ProperName name)
    (hnode : node (location ++ [name]) = some kind) (hkind : kind.isSymlink = false) :
    Located node (location ++ [name]) where
  names n hn := by
    obtain hn | hn := mem_append.mp hn
    · exact h.names n hn
    · rw [mem_singleton.mp hn]
      exact hname
  above front back heq hback := by
    rcases eq_nil_or_concat back with rfl | ⟨middle, last, rfl⟩
    · exact absurd rfl hback
    · rw [concat_eq_append, ← append_assoc] at heq
      obtain ⟨hupper, _⟩ := append_inj' heq rfl
      by_cases hmiddle : middle = []
      · rw [hmiddle, append_nil] at hupper
        rwa [← hupper]
      · exact h.above front middle hupper hmiddle
  here := ⟨kind, hnode, hkind⟩

/-- Where a walk stops, no link has been followed to get there. -/
theorem advance_located (h : Located node location) (hsegs : ∀ segment ∈ segs, '/' ∉ segment) :
    match advance node location segs with
    | .arrived final => Located node final
    | .link base _ rest => Located node base ∧ ∀ segment ∈ rest, '/' ∉ segment
    | .failed => True := by
  induction segs generalizing location with
  | nil => exact h
  | cons segment segs ih =>
    have hrest : ∀ s ∈ segs, '/' ∉ s := fun s hs => hsegs s (mem_cons_of_mem segment hs)
    rw [advance]
    by_cases hdir : node location = some .dir
    · rw [if_neg (not_not.mpr hdir)]
      split_ifs with hstay hup
      · exact ih h hrest
      · exact ih (h.dropLast hdir).1 hrest
      · have hname : ProperName segment :=
          ⟨fun heq => hstay (.inl heq), hsegs segment mem_cons_self,
            fun heq => hstay (.inr heq), hup⟩
        cases hnode : node (location ++ [segment]) with
        | none => trivial
        | some kind =>
          cases kind with
          | symlink target => exact ⟨h, hrest⟩
          | dir => exact ih (h.enter hdir hname hnode rfl) hrest
          | file => exact ih (h.enter hdir hname hnode rfl) hrest
          | other => exact ih (h.enter hdir hname hnode rfl) hrest
    · rw [if_pos hdir]
      trivial

theorem Located.startOf (hroot : node [] = some .dir) (h : Located node base) (path : List Char) :
    Located node (startOf base path) := by
  rw [FilePaths.startOf]
  split_ifs
  · exact .root hroot
  · exact h

/-- What a path resolves to is reached without following a link. -/
theorem walk_located (hroot : node [] = some .dir) (h : Located node location)
    (hsegs : ∀ segment ∈ segs, '/' ∉ segment) (hwalk : walk node links location segs = some final) :
    Located node final := by
  induction links generalizing location segs with
  | zero =>
    have hstop := advance_located h hsegs
    rw [walk] at hwalk
    cases hadvance : advance node location segs with
    | arrived stop =>
      rw [hadvance] at hstop hwalk
      rwa [← some_inj.mp hwalk]
    | link base target rest =>
      rw [hadvance] at hwalk
      cases hwalk
    | failed =>
      rw [hadvance] at hwalk
      cases hwalk
  | succ links ih =>
    have hstop := advance_located h hsegs
    rw [walk] at hwalk
    cases hadvance : advance node location segs with
    | arrived stop =>
      rw [hadvance] at hstop hwalk
      rwa [← some_inj.mp hwalk]
    | link base target rest =>
      rw [hadvance] at hstop hwalk
      dsimp only at hstop hwalk
      split_ifs at hwalk with htarget
      refine ih (hstop.1.startOf hroot target) ?_ hwalk
      intro segment hmem
      obtain hmem | hmem := mem_append.mp hmem
      · exact segments_noSlash target segment hmem
      · exact hstop.2 segment hmem
    | failed =>
      rw [hadvance] at hwalk
      cases hwalk

/-- Walking on from where a walk stopped. -/
theorem advance_append (node : Location → Option Node) (location : Location)
    (front back : List Name) :
    advance node location (front ++ back) =
      match advance node location front with
      | .arrived stop => advance node stop back
      | .link base target rest => .link base target (rest ++ back)
      | .failed => .failed := by
  induction front generalizing location with
  | nil => rfl
  | cons segment front ih =>
    rw [cons_append, advance, advance]
    split_ifs
    · rfl
    · exact ih _
    · exact ih _
    · cases node (location ++ [segment]) with
      | none => rfl
      | some kind =>
        cases kind with
        | symlink target => rfl
        | dir => exact ih _
        | file => exact ih _
        | other => exact ih _

theorem walk_of_arrived (links : ℕ) (h : advance node location segs = .arrived final) :
    walk node links location segs = some final := by
  cases links with
  | zero => rw [walk, h]
  | succ links => rw [walk, h]

theorem walk_congr {other : Location} {otherSegs : List Name} (links : ℕ)
    (h : advance node location segs = advance node other otherSegs) :
    walk node links location segs = walk node links other otherSegs := by
  cases links with
  | zero => rw [walk, walk, h]
  | succ links => rw [walk, walk, h]

theorem dir_of_advance {name : Name} (h : advance node location [name] ≠ .failed) :
    node location = some .dir := by
  by_contra hdir
  rw [advance, if_pos hdir] at h
  exact h rfl

/-- The last segment is looked up in a directory. -/
theorem walk_last {links : ℕ} {name : Name}
    (hwalk : walk node links location (front ++ [name]) = some final) :
    ∃ upper left, walk node links location front = some upper ∧ node upper = some .dir ∧
      walk node left upper [name] = some final := by
  induction links generalizing location front with
  | zero =>
    rw [walk, advance_append] at hwalk
    rw [walk]
    cases hadvance : advance node location front with
    | arrived stop =>
      rw [hadvance] at hwalk
      refine ⟨stop, 0, rfl, @dir_of_advance node stop name ?_, by rw [walk]; exact hwalk⟩
      intro hfailed
      dsimp only at hwalk
      rw [hfailed] at hwalk
      cases hwalk
    | link base target rest =>
      rw [hadvance] at hwalk
      cases hwalk
    | failed =>
      rw [hadvance] at hwalk
      cases hwalk
  | succ links ih =>
    rw [walk, advance_append] at hwalk
    rw [walk]
    cases hadvance : advance node location front with
    | arrived stop =>
      rw [hadvance] at hwalk
      refine ⟨stop, links + 1, rfl, @dir_of_advance node stop name ?_, by rw [walk]; exact hwalk⟩
      intro hfailed
      dsimp only at hwalk
      rw [hfailed] at hwalk
      cases hwalk
    | link base target rest =>
      rw [hadvance] at hwalk
      dsimp only at hwalk ⊢
      split_ifs at hwalk ⊢ with htarget
      rw [← append_assoc] at hwalk
      exact ih hwalk
    | failed =>
      rw [hadvance] at hwalk
      cases hwalk

theorem walk_stay {name : Name} (hdir : node location = some .dir)
    (hname : name = [] ∨ name = currentSegment)
    (hwalk : walk node links location [name] = some final) : final = location := by
  have hstep : advance node location [name] = .arrived location := by
    rw [advance, if_neg (not_not.mpr hdir), if_pos hname, advance]
  rw [walk_of_arrived links hstep] at hwalk
  exact (some_inj.mp hwalk).symm

/-- Segments that stay where they are can be left out at the end. -/
theorem walk_stays (hback : ∀ name ∈ back, name = [] ∨ name = currentSegment)
    (hwalk : walk node links location (front ++ back) = some final) :
    walk node links location front = some final := by
  induction back using reverseRecOn with
  | nil => rwa [append_nil] at hwalk
  | append_singleton back name ih =>
    rw [← append_assoc] at hwalk
    obtain ⟨upper, left, hupper, hdir, hlast⟩ := walk_last hwalk
    obtain rfl := walk_stay hdir (hback name (by simp)) hlast
    exact ih (fun n hn => hback n (mem_append_left _ hn)) hupper

/-- Names are walked along one by one. -/
theorem advance_names (hfinal : Located node (location ++ back)) :
    advance node location back = .arrived (location ++ back) := by
  induction back generalizing location with
  | nil => rw [append_nil, advance]
  | cons name back ih =>
    have hdir : node location = some .dir :=
      hfinal.above location (name :: back) rfl (cons_ne_nil _ _)
    have hname : ProperName name := hfinal.names name (by simp)
    have hsplit : location ++ name :: back = location ++ [name] ++ back := by simp
    rw [advance, if_neg (not_not.mpr hdir),
      if_neg (not_or.mpr ⟨hname.nonempty, hname.not_current⟩), if_neg hname.not_parent]
    rw [hsplit] at hfinal ⊢
    rw [← ih hfinal]
    cases back with
    | nil =>
      rw [append_nil] at hfinal
      obtain ⟨kind, hnode, hkind⟩ := hfinal.here
      rw [hnode]
      cases kind with
      | symlink target => cases hkind
      | dir => rfl
      | file => rfl
      | other => rfl
    | cons next back =>
      rw [hfinal.above (location ++ [name]) (next :: back) rfl (cons_ne_nil _ _)]

/-- Enough parent segments lead to the root. -/
theorem advance_parents (h : Located node location) (hdir : node location = some .dir) {n : ℕ}
    (hn : location.length ≤ n) :
    advance node location (replicate n parentSegment) = .arrived [] := by
  induction n generalizing location with
  | zero =>
    rw [length_eq_zero_iff.mp (Nat.le_zero.mp hn)]
    rfl
  | succ n ih =>
    obtain ⟨hupper, hupperDir⟩ := h.dropLast hdir
    rw [replicate_succ, advance, if_neg (not_not.mpr hdir), if_neg (by decide), if_pos rfl]
    exact ih hupper hupperDir (by rw [length_dropLast]; omega)

end Resolving

/-! ## Canonical paths -/

namespace FileSystem
variable {fs : FileSystem} {location final : Location}

theorem segments_absoluteText (h : ∀ name ∈ location, '/' ∉ name) :
    segments (absoluteText location) = [] :: if location = [] then [[]] else location := by
  have hstep : segments (absoluteText location) =
      [] :: (['/'].intercalate location).splitOn '/' :=
    splitOn_append_cons_self [] _
  rw [hstep]
  split_ifs with hnil
  · rw [hnil]
    rfl
  · rw [splitOn_intercalate '/' h hnil]

theorem locate_located (h : fs.locate path = some final) :
    Located fs.node final := by
  rw [locate] at h
  split_ifs at h
  exact walk_located fs.root_dir (fs.cwd_located.startOf fs.root_dir path) (segments_noSlash path) h

theorem locate_absoluteText (h : Located fs.node location) :
    fs.locate (absoluteText location) = some location := by
  have hnames := segments_absoluteText fun name hmem => (h.names name hmem).noSlash
  have hstart : startOf fs.cwd (absoluteText location) = [] := rfl
  rw [locate, if_neg (by simp [absoluteText]), hnames, hstart]
  refine walk_of_arrived maxLinks ?_
  rw [advance, if_neg (not_not.mpr fs.root_dir), if_pos (.inl rfl)]
  split_ifs with hnil
  · rw [advance, if_neg (not_not.mpr fs.root_dir), if_pos (.inl rfl), hnil]
    rfl
  · exact @advance_names fs.node [] location (by rwa [nil_append])

/-- A canonical path is its own canonical path. -/
theorem canonicalize_canonical {path canonical : List Char}
    (h : fs.canonicalize path = some canonical) :
    ∃ location, Located fs.node location ∧ canonical = absoluteText location ∧
      fs.locate path = some location ∧ fs.canonicalize canonical = some canonical := by
  rw [canonicalize, map_eq_some_iff] at h
  obtain ⟨location, hlocate, rfl⟩ := h
  have hlocated := locate_located hlocate
  refine ⟨location, hlocated, rfl, hlocate, ?_⟩
  rw [canonicalize, locate_absoluteText hlocated]
  rfl

end FileSystem

/-! ## Containment -/

theorem startsWith_nil (path : List Char) : startsWith path [] = true := by
  have hnone : components [] = [] := rfl
  rw [startsWith, hnone]
  exact decide_eq_true nil_prefix

theorem components_root : components ['/'] = [.rootDir] := by decide

theorem componentAt_ne_rootDir (index : ℕ) (segment : Name) :
    componentAt index segment ≠ some .rootDir := by
  rw [componentAt]
  split_ifs
  · exact nofun
  · exact nofun
  · exact nofun
  · exact nofun
  · exact nofun

theorem parentSegment_mem_of_component (h : .parentDir ∈ components path) :
    parentSegment ∈ segments path := by
  rw [components, mem_append] at h
  obtain h | h := h
  · split_ifs at h
    · cases mem_singleton.mp h
    · exact absurd h not_mem_nil
  · rw [reduceOption_mem_iff, mem_mapIdx] at h
    obtain ⟨index, hindex, heq⟩ := h
    rw [componentAt] at heq
    split_ifs at heq with hnil hcurrent hzero hparent
    · cases heq
    · rw [← hparent]
      exact getElem_mem hindex
    · cases heq

theorem startsWith_root : startsWith path ['/'] = true ↔ isAbsolute path = true := by
  rw [startsWith, components_root, decide_eq_true_iff, components]
  constructor
  · intro h
    by_contra hnot
    rw [if_neg hnot, nil_append] at h
    have hmem := h.subset mem_cons_self
    rw [reduceOption_mem_iff, mem_mapIdx] at hmem
    obtain ⟨index, _, heq⟩ := hmem
    exact componentAt_ne_rootDir index _ heq
  · intro h
    rw [if_pos h]
    exact prefix_append _ _

theorem isAbsolute_absoluteText (location : Location) :
    isAbsolute (FileSystem.absoluteText location) = true := rfl

theorem isAbsolute_join {base : List Char} (h : isAbsolute base = true) (path : List Char) :
    isAbsolute (join base path) = true := by
  obtain ⟨rest, rfl⟩ : ∃ rest, base = '/' :: rest := by
    cases base with
    | nil => cases h
    | cons c rest => exact ⟨rest, by simpa [isAbsolute] using h⟩
  rw [join]
  split_ifs with hpath
  · exact hpath
  · rfl
  · rfl

theorem startsWith_root_absoluteText {node : Location → Option Node} {location : Location}
    (h : Located node location)
    (hstarts : startsWith ['/'] (FileSystem.absoluteText location) = true) : location = [] := by
  by_contra hne
  have hsegs := FileSystem.segments_absoluteText fun name hmem => (h.names name hmem).noSlash
  obtain ⟨name, rest, rfl⟩ := exists_cons_of_ne_nil hne
  have hname := h.names name mem_cons_self
  have hnormal : componentAt 1 name = some (.normal name) := by
    rw [componentAt, if_neg hname.nonempty, if_neg hname.not_current, if_neg hname.not_parent]
  have hmem : Component.normal name ∈ components (FileSystem.absoluteText (name :: rest)) := by
    rw [components, hsegs, if_neg hne, mem_append]
    refine .inr ?_
    rw [reduceOption_mem_iff]
    exact mem_mapIdx.mpr ⟨1, by simp, hnormal⟩
  rw [startsWith, components_root, decide_eq_true_iff] at hstarts
  have hroot := mem_singleton.mp (hstarts.subset hmem)
  cases hroot

/-! ## Leading out of a directory -/

section Parents
variable {fs : FileSystem} {location : Location}

/-- `n + 1` times the parent. -/
def parents (n : ℕ) : List Char := ['/'].intercalate (replicate (n + 1) parentSegment)

theorem segments_parents : segments (parents n) = replicate (n + 1) parentSegment := by
  refine splitOn_intercalate '/' ?_ (by simp)
  intro segment hmem
  rw [eq_of_mem_replicate hmem]
  decide

theorem parents_cons : ∃ rest, parents n = '.' :: '.' :: rest := by
  cases n with
  | zero => exact ⟨[], rfl⟩
  | succ n =>
    exact ⟨_, rfl⟩

theorem parents_getLast : (parents n).getLast? = some '.' := by
  induction n with
  | zero => rfl
  | succ n ih =>
    have hstep : parents (n + 1) = (parentSegment ++ ['/']) ++ parents n := by
      rw [parents, replicate_succ, replicate_succ, intercalate_cons_cons, parents,
        replicate_succ]
    rw [hstep, getLast?_append, ih]
    rfl

theorem isAbsolute_parents : isAbsolute (parents n) = false := by
  obtain ⟨rest, hrest⟩ := parents_cons n
  rw [hrest]
  rfl

theorem absoluteText_last (h : Located fs.node location)
    (hlast : (FileSystem.absoluteText location).getLast? = some '/') : location = [] := by
  by_contra hne
  have hsegs := FileSystem.segments_absoluteText fun name hmem => (h.names name hmem).noSlash
  obtain ⟨front, hfront⟩ := getLast?_eq_some_iff.mp hlast
  have hback : segments (front ++ ['/']) = segments front ++ [[]] :=
    splitOn_append_cons_self front []
  rw [hfront, hback, if_neg hne] at hsegs
  have hempty : ([] : Name) ∈ location := by
    rcases eq_nil_or_concat location with rfl | ⟨upper, name, rfl⟩
    · exact absurd rfl hne
    · rw [concat_eq_append, ← cons_append] at hsegs
      obtain ⟨_, hlast⟩ := append_inj' hsegs rfl
      rw [← (cons.inj hlast).1]
      simp
  exact (h.names [] hempty).nonempty rfl

/-- From the working directory enough parents lead to the root. -/
theorem canonicalize_parents {n : ℕ} (hn : fs.cwd.length ≤ n + 1) :
    fs.canonicalize (parents n) = some ['/'] := by
  obtain ⟨rest, hrest⟩ := parents_cons n
  have hstart : startOf fs.cwd (parents n) = fs.cwd := by
    rw [startOf, isAbsolute_parents]
    rfl
  rw [FileSystem.canonicalize, FileSystem.locate, if_neg (by rw [hrest]; exact cons_ne_nil _ _),
    hstart, segments_parents,
    walk_of_arrived _ (advance_parents fs.cwd_located fs.cwd_dir hn)]
  rfl

/-- From any directory enough parents lead to the root. -/
theorem canonicalize_join_parents (h : Located fs.node location)
    (hdir : fs.node location = some .dir) {n : ℕ} (hn : location.length ≤ n + 1) :
    fs.canonicalize (join (FileSystem.absoluteText location) (parents n)) = some ['/'] := by
  have habsolute := isAbsolute_join (isAbsolute_absoluteText location) (parents n)
  have hstart : startOf fs.cwd (join (FileSystem.absoluteText location) (parents n)) = [] := by
    rw [startOf, if_pos habsolute]
  have hne : join (FileSystem.absoluteText location) (parents n) ≠ [] := by
    intro hnil
    rw [hnil] at habsolute
    cases habsolute
  have hsegs : segments (join (FileSystem.absoluteText location) (parents n)) =
      [] :: (location ++ replicate (n + 1) parentSegment) := by
    rw [join, if_neg (by rw [isAbsolute_parents]; exact Bool.false_ne_true)]
    split_ifs with hend
    · obtain hnil | hlast := hend
      · cases hnil
      · rw [absoluteText_last h hlast, ← segments_parents]
        exact splitOn_append_cons_self [] _
    · have hlocation : location ≠ [] := by
        intro hnil
        rw [hnil] at hend
        exact hend (.inr rfl)
      have happend : (FileSystem.absoluteText location ++ '/' :: parents n).splitOn '/' =
          (FileSystem.absoluteText location).splitOn '/' ++ (parents n).splitOn '/' :=
        splitOn_append_cons_self _ _
      have hnames := FileSystem.segments_absoluteText fun name hmem => (h.names name hmem).noSlash
      rw [if_neg hlocation] at hnames
      rw [segments, happend]
      show segments _ ++ segments _ = _
      rw [hnames, segments_parents, cons_append]
  have hnames : advance fs.node [] location = .arrived location :=
    @advance_names fs.node [] location (by rwa [nil_append])
  have hup : advance fs.node [] ([] :: (location ++ replicate (n + 1) parentSegment)) =
      .arrived [] := by
    rw [advance, if_neg (not_not.mpr fs.root_dir), if_pos (.inl rfl), advance_append, hnames]
    exact advance_parents h hdir hn
  rw [FileSystem.canonicalize, FileSystem.locate, if_neg hne, hstart, hsegs, walk_of_arrived _ hup]
  rfl

end Parents

/-! ## The directory of a file -/

section Parent
variable {fs : FileSystem} {path : List Char}

/-- The segments of a file are those of a directory and the name of an entry of it. -/
theorem segments_of_file (hfile : fs.metadata path = some .file) :
    ∃ front name upper, segments path = front ++ [name] ∧ ProperName name ∧
      walk fs.node FileSystem.maxLinks (startOf fs.cwd path) front = some upper ∧
      fs.node upper = some .dir := by
  rw [FileSystem.metadata, bind_eq_some_iff] at hfile
  obtain ⟨final, hlocate, hnode⟩ := hfile
  rw [FileSystem.locate] at hlocate
  split_ifs at hlocate with hnil
  have hstart := fs.cwd_located.startOf fs.root_dir path
  obtain ⟨front, name, hsegs⟩ : ∃ front name, segments path = front ++ [name] := by
    rcases eq_nil_or_concat (segments path) with hempty | ⟨front, name, hsegs⟩
    · exact absurd hempty (splitOn_ne_nil '/' path)
    · exact ⟨front, name, hsegs.trans (concat_eq_append)⟩
  have hslash := segments_noSlash path
  rw [hsegs] at hlocate hslash
  obtain ⟨upper, left, hupper, hdir, hlast⟩ := walk_last hlocate
  have hlocated : Located fs.node upper :=
    walk_located fs.root_dir hstart (fun s hs => hslash s (mem_append_left _ hs)) hupper
  have hdirs : fs.node final ≠ some .dir := by
    rw [hnode]
    decide
  refine ⟨front, name, upper, hsegs, ?_, hupper, hdir⟩
  by_contra hname
  have hspecial : (name = [] ∨ name = currentSegment) ∨ name = parentSegment := by
    by_contra hnot
    rw [not_or, not_or] at hnot
    exact hname ⟨hnot.1.1, hslash name (by simp), hnot.1.2, hnot.2⟩
  obtain hstay | hup := hspecial
  · rw [walk_stay hdir hstay hlast] at hdirs
    exact hdirs hdir
  · have hstep : advance fs.node upper [name] = .arrived upper.dropLast := by
      rw [hup, advance, if_neg (not_not.mpr hdir), if_neg (by decide), if_pos rfl, advance]
    rw [walk_of_arrived left hstep] at hlast
    rw [← some_inj.mp hlast] at hdirs
    exact hdirs (hlocated.dropLast hdir).2

theorem isAbsolute_iff :
    isAbsolute path = true ↔ ∃ rest, rest ≠ [] ∧ segments path = [] :: rest := by
  cases path with
  | nil =>
    constructor
    · intro h
      cases h
    · intro ⟨rest, hrest, hsegs⟩
      exact absurd (cons.inj hsegs).2.symm hrest
  | cons c path =>
    by_cases hc : c = '/'
    · have hsegs : segments (c :: path) = [] :: segments path := by
        rw [hc]
        exact splitOn_append_cons_self [] path
      exact iff_of_true (by simp [isAbsolute, hc]) ⟨_, splitOn_ne_nil '/' path, hsegs⟩
    · have hsegs : segments (c :: path) = (segments path).modifyHead (c :: ·) := by
        rw [segments, splitOn_cons_eq_if_modifyHead, if_neg (by simpa using hc)]
        rfl
      refine iff_of_false (by simp [isAbsolute, hc]) ?_
      intro ⟨rest, _, heq⟩
      rw [hsegs] at heq
      cases hpath : segments path with
      | nil => exact absurd hpath (splitOn_ne_nil '/' path)
      | cons first others =>
        rw [hpath] at heq
        cases (cons.inj heq).1

theorem componentAt_eq_none {index : ℕ} {segment : Name} (h : componentAt index segment = none) :
    segment = [] ∨ segment = currentSegment ∧ index ≠ 0 := by
  rw [componentAt] at h
  split_ifs at h with hnil hcurrent hindex
  · exact .inl hnil
  · exact .inr ⟨hcurrent, hindex⟩

theorem trimSegments_concat {s : Name × Bool} (hs : s.2 = true) (segs : List (Name × Bool)) :
    trimSegments (segs ++ [s]) = segs ++ [s] :=
  rdropWhile_concat_neg _ _ _ (by simp [hs])

theorem exists_trimSegments (segs : List (Name × Bool)) :
    ∃ back, segs = trimSegments segs ++ back ∧ ∀ s ∈ back, s.2 = false := by
  induction segs using reverseRecOn with
  | nil => exact ⟨[], rfl, fun s hs => absurd hs not_mem_nil⟩
  | append_singleton segs s ih =>
    by_cases hs : s.2 = true
    · refine ⟨[], ?_, fun s hs => absurd hs not_mem_nil⟩
      rw [trimSegments_concat hs, append_nil]
    · obtain ⟨back, hback, hnone⟩ := ih
      refine ⟨back ++ [s], ?_, ?_⟩
      · rw [trimSegments, rdropWhile_concat_pos _ _ _ (by simp [hs]), ← append_assoc]
        congr 1
      · intro x hx
        obtain hx | hx := mem_append.mp hx
        · exact hnone x hx
        · rw [mem_singleton.mp hx]
          simpa using hs

theorem map_fst_mapIdx_tagged (segs : List Name) : (segs.mapIdx tagged).map Prod.fst = segs := by
  ext i segment : 2
  rw [List.getElem?_map, List.getElem?_mapIdx, Option.map_map]
  cases segs[i]? with
  | none => rfl
  | some segment => rfl

/-- The parent of a file is empty, when the path is a bare name, or the directory it is in. -/
theorem parent_of_file (hfile : fs.metadata path = some .file) :
    parent path = some [] ∧ ProperName path ∨
      ∃ directory upper, parent path = some directory ∧ directory ≠ [] ∧
        fs.canonicalize directory = some (FileSystem.absoluteText upper) ∧ Located fs.node upper ∧
        fs.node upper = some .dir := by
  obtain ⟨front, name, upper, hsegs, hname, hwalk, hdir⟩ := segments_of_file hfile
  have hlocated : Located fs.node upper := by
    refine walk_located fs.root_dir (fs.cwd_located.startOf fs.root_dir path) ?_ hwalk
    intro segment hmem
    exact segments_noSlash path segment (by rw [hsegs]; exact mem_append_left _ hmem)
  have hnormal : ∀ index, componentAt index name = some (.normal name) := by
    intro index
    rw [componentAt, if_neg hname.nonempty, if_neg hname.not_current, if_neg hname.not_parent]
  have hparent : parent path =
      if trimSegments (front.mapIdx tagged) = [] then
        some (if isAbsolute path then ['/'] else [])
      else some (['/'].intercalate ((trimSegments (front.mapIdx tagged)).map fst)) := by
    have htagged : trimSegments ((segments path).mapIdx tagged) =
        front.mapIdx tagged ++ [tagged front.length name] := by
      rw [hsegs, mapIdx_concat]
      exact trimSegments_concat (by simp [tagged, hnormal]) _
    rw [parent, htagged]
    rw [if_neg (by simp), dropLast_concat]
  obtain ⟨back, hback, hnone⟩ := exists_trimSegments (front.mapIdx tagged)
  have hstays : ∀ n ∈ back.map fst, n = [] ∨ n = currentSegment := by
    intro n hn
    obtain ⟨s, hs, rfl⟩ := mem_map.mp hn
    have hmem : s ∈ front.mapIdx tagged := by
      rw [hback]
      exact mem_append_right _ hs
    obtain ⟨i, _, rfl⟩ := mem_mapIdx.mp hmem
    have hsome := hnone _ hs
    obtain hnil | ⟨hcurrent, _⟩ := componentAt_eq_none (by simpa [tagged] using hsome)
    · exact .inl hnil
    · exact .inr hcurrent
  have hfront : front = (trimSegments (front.mapIdx tagged)).map fst ++ back.map fst := by
    conv_lhs => rw [← map_fst_mapIdx_tagged front, hback]
    rw [map_append]
  have hkeptWalk := hwalk
  rw [hfront] at hkeptWalk
  replace hkeptWalk := walk_stays hstays hkeptWalk
  rw [hparent]
  by_cases hkept : trimSegments (front.mapIdx tagged) = []
  · rw [if_pos hkept]
    rw [hkept, map_nil] at hkeptWalk
    have hupper : upper = startOf fs.cwd path := by
      exact (some_inj.mp hkeptWalk).symm
    by_cases habsolute : isAbsolute path = true
    · rw [startOf, if_pos habsolute] at hupper
      refine .inr ⟨['/'], upper, by rw [if_pos habsolute], by simp, ?_, hlocated, hdir⟩
      rw [hupper]
      exact congrArg (Option.map FileSystem.absoluteText)
        (FileSystem.locate_absoluteText (.root fs.root_dir))
    · -- Nothing but the name is left of a relative path.
      have hnil : front = [] := by
        by_contra hne
        obtain ⟨first, others, rfl⟩ := exists_cons_of_ne_nil hne
        have hfirst : (tagged 0 first).2 = false := by
          refine hnone _ ?_
          rw [hkept, nil_append] at hback
          rw [← hback, mapIdx_cons]
          exact mem_cons_self
        obtain rfl | ⟨_, hindex⟩ := componentAt_eq_none (by simpa [tagged] using hfirst)
        · exact habsolute (isAbsolute_iff.mpr ⟨others ++ [name], by simp, hsegs⟩)
        · exact hindex rfl
      refine .inl ⟨by rw [if_neg habsolute], ?_⟩
      have hpath : path = name := by
        have hjoined : ['/'].intercalate (segments path) = path := intercalate_splitOn '/'
        rw [hsegs, hnil, nil_append, intercalate_singleton] at hjoined
        exact hjoined.symm
      rw [hpath]
      exact hname
  · rw [if_neg hkept]
    have hsingle : (trimSegments (front.mapIdx tagged)).map fst ≠ [[]] := by
      intro heq
      obtain ⟨s, hs, hempty⟩ := map_eq_singleton_iff.mp heq
      have hlast := rdropWhile_last_not (fun s : Name × Bool => !s.2) (front.mapIdx tagged) hkept
      have hmem := (List.rdropWhile_prefix (fun s : Name × Bool => !s.2)
        (front.mapIdx tagged)).subset (getLast_mem hkept)
      have hsame : (trimSegments (front.mapIdx tagged)).getLast hkept = s := by
        simp only [hs, getLast_singleton]
      change ¬ (!((trimSegments (front.mapIdx tagged)).getLast hkept).2) = true at hlast
      rw [hsame] at hlast hmem
      obtain ⟨i, _, rfl⟩ := mem_mapIdx.mp hmem
      have hnil : front[i] = [] := hempty
      simp [tagged, hnil, componentAt] at hlast
    have hne : (trimSegments (front.mapIdx tagged)).map fst ≠ [] := by simpa using hkept
    have hslash : ∀ segment ∈ (trimSegments (front.mapIdx tagged)).map fst, '/' ∉ segment := by
      intro segment hmem
      refine segments_noSlash path segment ?_
      rw [hsegs, hfront]
      exact mem_append_left _ (mem_append_left _ hmem)
    rw [hfront] at hsegs
    generalize (trimSegments (front.mapIdx tagged)).map fst = kept at hsegs hkeptWalk hsingle hne hslash
    have hdirectory : segments (['/'].intercalate kept) = kept :=
      splitOn_intercalate '/' hslash hne
    refine .inr ⟨_, upper, rfl, ?_, ?_, hlocated, hdir⟩
    · intro hnil
      rw [hnil] at hdirectory
      exact hsingle hdirectory.symm
    · have habsolute : isAbsolute (['/'].intercalate kept) = isAbsolute path := by
        rw [Bool.eq_iff_iff, isAbsolute_iff, isAbsolute_iff, hdirectory, hsegs]
        constructor
        · intro ⟨rest, hrest, hkeptEq⟩
          rw [hkeptEq]
          exact ⟨rest ++ back.map fst ++ [name], by simp [hrest], by simp⟩
        · intro ⟨rest, _, hrestEq⟩
          obtain ⟨first, others, rfl⟩ := exists_cons_of_ne_nil hne
          obtain rfl := (cons.inj hrestEq).1
          exact ⟨others, fun hnil => hsingle (by rw [hnil]), rfl⟩
      have hstart : startOf fs.cwd (['/'].intercalate kept) = startOf fs.cwd path := by
        rw [startOf, startOf, habsolute]
      have hpathNe : ['/'].intercalate kept ≠ [] := by
        intro hnil
        rw [hnil] at hdirectory
        exact hsingle hdirectory.symm
      rw [FileSystem.canonicalize, FileSystem.locate, if_neg hpathNe, hstart, hdirectory, hkeptWalk]
      rfl

end Parent

end CodeSeeX.FilePaths
