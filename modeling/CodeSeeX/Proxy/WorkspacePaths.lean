import CodeSeeX.General.FilePaths
import CodeSeeX.Text

/-!
# Resolving tool paths inside the workspace

A tool names a path; `resolve_path` joins it to the first workspace root, resolves links and
checks that the result lies in one of the roots. With full access a host-absolute path may lie
outside. The build is the one for Unix, where drive and UNC spellings are ordinary paths.
-/
namespace CodeSeeX.Workspace
open FilePaths List

variable {dir : Text} (output : List Text) {root : Text}

structure ToolPermissionContext where
  workspaceRoots : List Text
  allowOutsideWorkspace : Bool

structure ResolvedToolPath where
  path : Text
  displayPath : Text
  displayRoot : Text
deriving DecidableEq

inductive ToolPermissionError where
  | workspaceRootNotConfigured
  | pathOutsideWorkspace (path : Text)
deriving DecidableEq

/-! ## Roots -/

def normalizeExistingDirectory (fs : FileSystem) (path : Text) : Option Text :=
  (match fs.metadata path with
    | some .dir => some path
    | some .file => parent path
    | _ => none).map fun dir => (fs.canonicalize dir).getD dir

def samePath (left right : Text) : Bool := Text.eqIgnoreAsciiCase left right

def dedupeStep (fs : FileSystem) (output : List Text) (value : Text) : List Text :=
  match normalizeExistingDirectory fs value with
  | none => output
  | some path => if output.any fun existing => samePath existing path then output else output ++ [path]

def dedupeExistingDirs (fs : FileSystem) (values : List Text) : List Text :=
  values.foldl (dedupeStep fs) []

def ToolPermissionContext.new (fs : FileSystem) (workspaceRoots : List Text)
    (allowOutsideWorkspace : Bool) : ToolPermissionContext where
  workspaceRoots := dedupeExistingDirs fs workspaceRoots
  allowOutsideWorkspace := allowOutsideWorkspace

/-! ## Spellings -/

def hasWindowsDrivePrefix : Text → Bool
  | c :: ':' :: _ => c.isAlpha
  | _ => false

def isUncPath (path : Text) : Bool := Text.startsWith path "\\\\" || Text.startsWith path "//"

def normalizeWorkspacePath (raw : Text) : Text :=
  let trimmed := Text.trim raw
  if trimmed = [] then Text.lit "."
  else if hasWindowsDrivePrefix trimmed || isUncPath trimmed then trimmed
  else
    let relative := trimmed.dropWhile fun c => c == '/' || c == '\\'
    if relative = [] then Text.lit "." else relative

def pathContainsParentDir (raw : Text) : Bool := decide (Component.parentDir ∈ components raw)

def isAbsoluteHostPath (path : Text) : Bool :=
  let trimmed := Text.trim path
  hasWindowsDrivePrefix trimmed || isUncPath trimmed || isAbsolute trimmed

def shouldTreatAsHostAbsolute (fs : FileSystem) (raw workspaceRoot : Text) : Bool :=
  let trimmed := Text.trim raw
  if !isAbsoluteHostPath trimmed then false
  else if hasWindowsDrivePrefix trimmed || isUncPath trimmed then true
  else if trimmed = "/" then false
  else !fs.pathExists (join workspaceRoot (normalizeWorkspacePath trimmed))

/-! ## Resolution -/

def findContainingWorkspaceRoot (roots : List Text) (path : Text) : Option Text :=
  roots.find? fun root => startsWith path root

def displayPath (path : Text) : Text :=
  let text := path.map fun c => if c = '\\' then '/' else c
  if Text.startsWith text "//?/UNC/" then ("//" : Text) ++ text.drop 8
  else if Text.startsWith text "//?/" then text.drop 4
  else text

/-- `raw.trim()`, or `.` when nothing is left. -/
def trimmedRaw (raw : Text) : Text :=
  if Text.trim raw = [] then Text.lit "." else Text.trim raw

def joinedPath (fs : FileSystem) (root raw : Text) : Text :=
  if shouldTreatAsHostAbsolute fs raw root then raw else join root (normalizeWorkspacePath raw)

def resolvePath (fs : FileSystem) (context : ToolPermissionContext) (raw : Text) :
    Except ToolPermissionError ResolvedToolPath :=
  let raw := trimmedRaw raw
  match context.workspaceRoots.head? with
  | none => .error .workspaceRootNotConfigured
  | some root =>
      let joined := joinedPath fs root raw
      if (fs.canonicalize joined).isNone && pathContainsParentDir (normalizeWorkspacePath raw) then
        .error (.pathOutsideWorkspace raw)
      else
        let resolved := (fs.canonicalize joined).getD joined
        let containingRoot := findContainingWorkspaceRoot context.workspaceRoots resolved
        if containingRoot.isNone &&
            !(context.allowOutsideWorkspace && shouldTreatAsHostAbsolute fs raw root) then
          .error (.pathOutsideWorkspace raw)
        else .ok
          { path := resolved
            displayPath := displayPath resolved
            displayRoot := containingRoot.getD root }

/-! ## Confinement -/

/-- The canonical directory that a workspace root stands for: itself, or the one a file is in. -/
def canonicalRoot (fs : FileSystem) (root : Text) : Option Text :=
  match fs.metadata root with
  | some .dir => fs.canonicalize root
  | some .file => (parent root).bind fun dir => fs.canonicalize (if dir = [] then Text.lit "." else dir)
  | _ => none

def canonicalRoots (fs : FileSystem) (roots : List Text) : List Text :=
  roots.filterMap (canonicalRoot fs)

def InsideRoots (fs : FileSystem) (roots : List Text) (path : Text) : Prop :=
  ∃ root ∈ canonicalRoots fs roots, startsWith path root = true

/-- What resolving a path keeps to, without and with full access. -/
def Confined (fs : FileSystem) (roots : List Text) (allow : Bool) : Prop :=
  ∀ raw resolved, resolvePath fs (.new fs roots allow) raw = .ok resolved →
    (allow = false → fs.pathExists resolved.path = true →
      fs.canonicalize resolved.path = some resolved.path ∧ InsideRoots fs roots resolved.path) ∧
    (allow = true → InsideRoots fs roots resolved.path ∨ isAbsoluteHostPath raw = true)

/-- A root that is the bare name of a file in the working directory. -/
def BareFile (fs : FileSystem) (root : Text) : Prop :=
  fs.metadata root = some .file ∧ parent root = some []

section Roots
variable {fs : FileSystem} {roots : List Text} {root : Text}

/-- A root is kept under its canonical directory, or under the empty path when it is a bare file. -/
theorem normalizeExistingDirectory_cases (h : normalizeExistingDirectory fs root = some dir) :
    BareFile fs root ∧ dir = [] ∨
      ∃ location, Located fs.node location ∧ fs.node location = some .dir ∧
        dir = FileSystem.absoluteText location ∧ canonicalRoot fs root = some dir := by
  rw [normalizeExistingDirectory] at h
  rw [canonicalRoot]
  cases hmeta : fs.metadata root with
  | none =>
    rw [hmeta] at h
    cases h
  | some kind =>
    rw [hmeta] at h
    cases kind with
    | dir =>
      rw [FileSystem.metadata, Option.bind_eq_some_iff] at hmeta
      obtain ⟨location, hlocate, hnode⟩ := hmeta
      have hcanonical : fs.canonicalize root = some (FileSystem.absoluteText location) := by
        rw [FileSystem.canonicalize, hlocate]
        rfl
      have hdir : (fs.canonicalize root).getD root = dir := Option.some_inj.mp h
      rw [hcanonical] at hdir
      exact .inr ⟨location, FileSystem.locate_located hlocate, hnode, hdir.symm,
        hcanonical.trans (congrArg some hdir)⟩
    | file =>
      obtain ⟨hparent, _⟩ | ⟨directory, upper, hparent, hne, hcanonical, hlocated, hdir⟩ :=
        parent_of_file hmeta
      · dsimp only at h
        rw [hparent] at h
        exact .inl ⟨⟨hmeta, hparent⟩, (Option.some_inj.mp h).symm⟩
      · dsimp only at h
        rw [hparent] at h ⊢
        have heq : (fs.canonicalize directory).getD directory = dir := Option.some_inj.mp h
        rw [hcanonical] at heq
        refine .inr ⟨upper, hlocated, hdir, heq.symm, ?_⟩
        show fs.canonicalize (if directory = [] then Text.lit "." else directory) = some dir
        rw [if_neg hne, hcanonical, ← heq]
        rfl
    | symlink target => cases h
    | other => cases h

theorem normalizeExistingDirectory_bareFile (h : BareFile fs root) :
    normalizeExistingDirectory fs root = some [] := by
  rw [normalizeExistingDirectory, h.1]
  rw [h.2]
  rfl

theorem dedupeStep_sublist (value : Text) :
    output <+: dedupeStep fs output value := by
  rw [dedupeStep]
  cases normalizeExistingDirectory fs value with
  | none => exact prefix_rfl
  | some path =>
    dsimp only
    split_ifs
    · exact prefix_rfl
    · exact prefix_append output [path]

theorem foldl_dedupeStep :
    output <+: roots.foldl (dedupeStep fs) output ∧
      ∀ dir ∈ roots.foldl (dedupeStep fs) output,
        dir ∈ output ∨ ∃ root ∈ roots, normalizeExistingDirectory fs root = some dir := by
  induction roots generalizing output with
  | nil => exact ⟨prefix_rfl, fun dir hdir => .inl hdir⟩
  | cons root roots ih =>
    obtain ⟨hkeeps, hfrom⟩ := ih (dedupeStep fs output root)
    refine ⟨(dedupeStep_sublist output root).trans hkeeps, ?_⟩
    intro dir hdir
    obtain hmem | ⟨other, hother, heq⟩ := hfrom dir hdir
    · rw [dedupeStep] at hmem
      cases hnormal : normalizeExistingDirectory fs root with
      | none =>
        rw [hnormal] at hmem
        exact .inl hmem
      | some path =>
        rw [hnormal] at hmem
        dsimp only at hmem
        split_ifs at hmem
        · exact .inl hmem
        · obtain hmem | hmem := mem_append.mp hmem
          · exact .inl hmem
          · rw [mem_singleton.mp hmem]
            exact .inr ⟨root, mem_cons_self, hnormal⟩
    · exact .inr ⟨other, mem_cons_of_mem root hother, heq⟩

theorem mem_dedupeExistingDirs (h : dir ∈ dedupeExistingDirs fs roots) :
    ∃ root ∈ roots, normalizeExistingDirectory fs root = some dir := by
  obtain hmem | hroot := (foldl_dedupeStep []).2 dir h
  · exact absurd hmem not_mem_nil
  · exact hroot

/-- The empty path is kept whenever a bare file is given. -/
theorem nil_mem_dedupeExistingDirs (hroot : root ∈ roots) (h : BareFile fs root) :
    ([] : Text) ∈ dedupeExistingDirs fs roots := by
  obtain ⟨front, back, rfl⟩ := append_of_mem hroot
  rw [dedupeExistingDirs, foldl_append, foldl_cons]
  refine (foldl_dedupeStep _).1.subset ?_
  rw [dedupeStep, normalizeExistingDirectory_bareFile h]
  dsimp only
  split_ifs with hsame
  · obtain ⟨existing, hmem, heq⟩ := any_eq_true.mp hsame
    have hnil : existing = [] := by
      rw [samePath, Text.eqIgnoreAsciiCase, decide_eq_true_iff] at heq
      simpa [Text.toAsciiLowercase] using heq
    rwa [hnil] at hmem
  · simp

/-- Without a bare file every kept root is the canonical directory of a given one. -/
theorem mem_canonicalRoots (h : dir ∈ dedupeExistingDirs fs roots) (hne : dir ≠ []) :
    dir ∈ canonicalRoots fs roots ∧
      ∃ location, Located fs.node location ∧ fs.node location = some .dir ∧
        dir = FileSystem.absoluteText location := by
  obtain ⟨root, hroot, hnormal⟩ := mem_dedupeExistingDirs h
  obtain ⟨_, hnil⟩ | ⟨location, hlocated, hdir, heq, hcanonical⟩ :=
    normalizeExistingDirectory_cases hnormal
  · exact absurd hnil hne
  · exact ⟨mem_filterMap.mpr ⟨root, hroot, hcanonical⟩, location, hlocated, hdir, heq⟩

theorem ne_nil_of_no_bareFile (hbare : ∀ root ∈ roots, ¬ BareFile fs root)
    (h : dir ∈ dedupeExistingDirs fs roots) : dir ≠ [] := by
  obtain ⟨root, hroot, hnormal⟩ := mem_dedupeExistingDirs h
  obtain ⟨hfile, _⟩ | ⟨location, _, _, heq, _⟩ := normalizeExistingDirectory_cases hnormal
  · exact absurd hfile (hbare root hroot)
  · rw [heq]
    exact cons_ne_nil _ _

end Roots

/-! ## What a resolved path is -/

section Resolving
variable {fs : FileSystem} {roots : List Text} {allow : Bool} {raw : Text}

theorem isAbsoluteHostPath_trim (path : Text) :
    isAbsoluteHostPath (Text.trim path) = isAbsoluteHostPath path := by
  rw [isAbsoluteHostPath, isAbsoluteHostPath, Text.trim_trim]

theorem isAbsoluteHostPath_of_treat (h : shouldTreatAsHostAbsolute fs raw root = true) :
    isAbsoluteHostPath raw = true := by
  by_contra hnot
  rw [shouldTreatAsHostAbsolute, isAbsoluteHostPath_trim, if_pos (by simpa using hnot)] at h
  exact Bool.false_ne_true h

theorem isAbsoluteHostPath_trimmedRaw (h : isAbsoluteHostPath (trimmedRaw raw) = true) :
    isAbsoluteHostPath raw = true := by
  rw [trimmedRaw] at h
  split_ifs at h
  · exact absurd h (by decide)
  · rwa [isAbsoluteHostPath_trim] at h

section
variable {context : ToolPermissionContext} {resolved : ResolvedToolPath}
  (h : resolvePath fs context raw = .ok resolved)
include h

/-- A resolved path is the canonical form of what was joined, or that itself when it does not
exist, and lies in a kept root unless full access lets a host-absolute path out. -/
theorem resolvePath_ok :
    ∃ root joined, context.workspaceRoots.head? = some root ∧
      resolved.path = (fs.canonicalize joined).getD joined ∧
      (isAbsoluteHostPath raw = true ∨ ∃ path, joined = join root path) ∧
      ((∃ root ∈ context.workspaceRoots, startsWith resolved.path root = true) ∨
        context.allowOutsideWorkspace = true ∧ isAbsoluteHostPath raw = true) := by
  rw [resolvePath] at h
  cases hroot : context.workspaceRoots.head? with
  | none =>
    rw [hroot] at h
    cases h
  | some root =>
    rw [hroot] at h
    dsimp only at h
    split_ifs at h with hparent hcontained
    obtain rfl := Except.ok.inj h
    refine ⟨root, joinedPath fs root (trimmedRaw raw), rfl, rfl, ?_, ?_⟩
    · rw [joinedPath]
      split_ifs with habsolute
      · exact .inl (isAbsoluteHostPath_trimmedRaw (isAbsoluteHostPath_of_treat habsolute))
      · exact .inr ⟨_, rfl⟩
    · cases hfind : findContainingWorkspaceRoot context.workspaceRoots
          ((fs.canonicalize (joinedPath fs root (trimmedRaw raw))).getD
            (joinedPath fs root (trimmedRaw raw))) with
      | some containing =>
        exact .inl ⟨containing, mem_of_find?_eq_some hfind, find?_some hfind⟩
      | none =>
        rw [hfind] at hcontained
        obtain ⟨hallow, habsolute⟩ := by simpa using hcontained
        exact .inr ⟨hallow, isAbsoluteHostPath_trimmedRaw (isAbsoluteHostPath_of_treat habsolute)⟩

/-- A path that is resolved and exists is canonical. -/
theorem canonical_of_exists (hexists : fs.pathExists resolved.path = true) :
    fs.canonicalize resolved.path = some resolved.path ∧ isAbsolute resolved.path = true := by
  obtain ⟨_, joined, _, hpath, _, _⟩ := resolvePath_ok h
  cases hcanonical : fs.canonicalize joined with
  | some canonical =>
    rw [hcanonical] at hpath
    obtain ⟨location, _, heq, _, hself⟩ := FileSystem.canonicalize_canonical hcanonical
    have hsame : resolved.path = canonical := hpath
    rw [hsame]
    refine ⟨hself, ?_⟩
    rw [heq]
    rfl
  | none =>
    rw [hcanonical] at hpath
    have hsame : resolved.path = joined := hpath
    rw [hsame, FileSystem.pathExists] at hexists
    rw [FileSystem.canonicalize, Option.map_eq_none_iff] at hcanonical
    rw [hcanonical] at hexists
    cases hexists

end

/-- With canonical roots only, what is resolved is confined. -/
theorem confined_of_no_bareFile (hbare : ∀ root ∈ roots, ¬ BareFile fs root) :
    Confined fs roots allow := by
  intro raw resolved h
  have hinside : (∃ root ∈ dedupeExistingDirs fs roots, startsWith resolved.path root = true) →
      InsideRoots fs roots resolved.path := by
    intro ⟨root, hroot, hstarts⟩
    exact ⟨root, (mem_canonicalRoots hroot (ne_nil_of_no_bareFile hbare hroot)).1, hstarts⟩
  obtain ⟨_, _, _, _, _, hroot | ⟨hallow, habsolute⟩⟩ := resolvePath_ok h
  · exact ⟨fun _ hexists => ⟨(canonical_of_exists h hexists).1, hinside hroot⟩,
      fun _ => .inl (hinside hroot)⟩
  · refine ⟨fun hnot => ?_, fun _ => .inr habsolute⟩
    rw [hnot] at hallow
    cases hallow

/-- Below the root of the file system everything is confined, as long as relative paths are joined
to a canonical root. -/
theorem confined_of_root (hroot : Text.lit "/" ∈ canonicalRoots fs roots)
    (hhead : allow = true → (dedupeExistingDirs fs roots).head? ≠ some []) :
    Confined fs roots allow := by
  intro raw resolved h
  have hinside : isAbsolute resolved.path = true → InsideRoots fs roots resolved.path :=
    fun habsolute => ⟨_, hroot, startsWith_root.mpr habsolute⟩
  refine ⟨fun _ hexists => ?_, fun hallow => ?_⟩
  · obtain ⟨hcanonical, habsolute⟩ := canonical_of_exists h hexists
    exact ⟨hcanonical, hinside habsolute⟩
  · obtain ⟨root, joined, hfirst, hpath, habsolute | ⟨path, rfl⟩, _⟩ := resolvePath_ok h
    · exact .inr habsolute
    · refine .inl (hinside ?_)
      have hmem : root ∈ dedupeExistingDirs fs roots := mem_of_head? hfirst
      have hne : root ≠ [] := by
        intro hnil
        rw [hnil] at hfirst
        exact hhead hallow hfirst
      obtain ⟨_, location, _, _, hlocation⟩ := mem_canonicalRoots hmem hne
      rw [hpath]
      cases hcanonical : fs.canonicalize (join root path) with
      | some canonical =>
        obtain ⟨final, _, heq, _, _⟩ := FileSystem.canonicalize_canonical hcanonical
        rw [heq]
        rfl
      | none =>
        exact isAbsolute_join (by rw [hlocation]; rfl) path

/-! ## A way out through the empty root -/

/-- A path that begins with a dot is joined to the first root as it is. -/
structure Dotted (raw : Text) : Prop where
  begins : ∃ c rest, raw = '.' :: c :: rest ∧ c ≠ ':'
  ends : ∀ c ∈ raw.getLast?, Text.isWhitespace c = false

theorem Dotted.trim_eq (h : Dotted raw) : Text.trim raw = raw := by
  obtain ⟨c, rest, hraw, _⟩ := h.begins
  refine (Text.trim_of_ends ?_ h.ends).2
  intro first hfirst
  rw [hraw] at hfirst
  obtain rfl : '.' = first := by simpa using hfirst
  decide

theorem Dotted.spelling (h : Dotted raw) : hasWindowsDrivePrefix raw = false ∧
    isUncPath raw = false ∧ isAbsolute raw = false := by
  obtain ⟨c, rest, rfl, hc⟩ := h.begins
  refine ⟨?_, ?_, rfl⟩
  · rw [hasWindowsDrivePrefix.eq_def]
    split
    · rename_i heq
      exact absurd (cons.inj (cons.inj heq).2).1 hc
    · rfl
  · simp [isUncPath, Text.startsWith, Text.lit]

theorem Dotted.joinedPath_eq (h : Dotted raw) (root : Text) :
    joinedPath fs root (trimmedRaw raw) = join root raw ∧
      normalizeWorkspacePath (trimmedRaw raw) = raw ∧ isAbsoluteHostPath raw = false := by
  obtain ⟨hdrive, hunc, habsolute⟩ := h.spelling
  obtain ⟨c, rest, hraw, _⟩ := h.begins
  have hne : raw ≠ [] := by
    rw [hraw]
    exact cons_ne_nil _ _
  have htrim : trimmedRaw raw = raw := by
    rw [trimmedRaw, h.trim_eq, if_neg hne]
  have hhost : isAbsoluteHostPath raw = false := by
    rw [isAbsoluteHostPath, h.trim_eq, hdrive, hunc, habsolute]
    rfl
  have hnormal : normalizeWorkspacePath raw = raw := by
    rw [normalizeWorkspacePath, h.trim_eq, hdrive, hunc]
    rw [if_neg hne, if_neg (by decide), hraw]
    rfl
  refine ⟨?_, by rw [htrim, hnormal], hhost⟩
  rw [htrim, joinedPath, hnormal, if_neg]
  intro htreat
  rw [isAbsoluteHostPath_of_treat htreat] at hhost
  cases hhost

/-- With the empty path among the roots nothing that is joined is refused. -/
theorem resolvePath_dotted {context : ToolPermissionContext} {root : Text} (h : Dotted raw)
    (hhead : context.workspaceRoots.head? = some root)
    (hnil : ([] : Text) ∈ context.workspaceRoots)
    (hparent : (fs.canonicalize (join root raw)).isSome = true ∨ pathContainsParentDir raw = false) :
    ∃ resolved, resolvePath fs context raw = .ok resolved ∧
      resolved.path = (fs.canonicalize (join root raw)).getD (join root raw) := by
  obtain ⟨hjoined, hnormal, _⟩ := @Dotted.joinedPath_eq fs raw h root
  have hfound : ∀ path, (findContainingWorkspaceRoot context.workspaceRoots path).isNone = false := by
    intro path
    rw [Option.isNone_eq_false_iff, findContainingWorkspaceRoot, find?_isSome]
    exact ⟨[], hnil, startsWith_nil path⟩
  have hrefused : ((fs.canonicalize (join root raw)).isNone && pathContainsParentDir raw) = false := by
    obtain hsome | hnone := hparent
    · rw [Option.isNone_eq_false_iff.mpr hsome, Bool.false_and]
    · rw [hnone, Bool.and_false]
  rw [resolvePath, hhead]
  dsimp only
  rw [hjoined, hnormal, if_neg (by rw [hrefused]; exact Bool.false_ne_true), hfound, Bool.false_and,
    if_neg Bool.false_ne_true]
  exact ⟨_, rfl, rfl⟩

theorem dotted_parents (n : ℕ) : Dotted (parents n) := by
  refine ⟨?_, ?_⟩
  · obtain ⟨rest, hrest⟩ := parents_cons n
    exact ⟨'.', rest, hrest, by decide⟩
  · intro c hc
    rw [parents_getLast] at hc
    obtain rfl := Option.some_inj.mp hc
    decide

theorem absolute_of_mem_canonicalRoots (h : root ∈ canonicalRoots fs roots) :
    ∃ location, Located fs.node location ∧ root = FileSystem.absoluteText location := by
  obtain ⟨given, _, hcanonical⟩ := mem_filterMap.mp h
  rw [canonicalRoot] at hcanonical
  cases hmeta : fs.metadata given with
  | none =>
    rw [hmeta] at hcanonical
    cases hcanonical
  | some kind =>
    rw [hmeta] at hcanonical
    cases kind with
    | dir =>
      obtain ⟨location, hlocated, heq, _, _⟩ := FileSystem.canonicalize_canonical hcanonical
      exact ⟨location, hlocated, heq⟩
    | file =>
      obtain ⟨dir, _, hdir⟩ := Option.bind_eq_some_iff.mp hcanonical
      obtain ⟨location, hlocated, heq, _, _⟩ := FileSystem.canonicalize_canonical hdir
      exact ⟨location, hlocated, heq⟩
    | symlink target => cases hcanonical
    | other => cases hcanonical

/-- Through the empty root the root of the file system is reached. -/
theorem escapes_to_root {root : Text} (hbare : root ∈ roots) (hfile : BareFile fs root) :
    ∃ raw resolved, resolvePath fs (.new fs roots allow) raw = .ok resolved ∧
      resolved.path = Text.lit "/" ∧ isAbsoluteHostPath raw = false := by
  have hnil := nil_mem_dedupeExistingDirs hbare hfile
  obtain ⟨first, others, hkept⟩ := exists_cons_of_ne_nil (ne_nil_of_mem hnil)
  have hhead : (dedupeExistingDirs fs roots).head? = some first := by
    rw [hkept]
    rfl
  obtain ⟨n, hroot⟩ : ∃ n, fs.canonicalize (join first (parents n)) = some ['/'] := by
    by_cases hfirst : first = []
    · refine ⟨fs.cwd.length, ?_⟩
      have hjoin : join first (parents fs.cwd.length) = parents fs.cwd.length := by
        rw [join, isAbsolute_parents, hfirst]
        rfl
      rw [hjoin]
      exact canonicalize_parents (Nat.le_succ _)
    · have hmem : first ∈ dedupeExistingDirs fs roots := by
        rw [hkept]
        exact mem_cons_self
      obtain ⟨_, location, hlocated, hdir, rfl⟩ := mem_canonicalRoots hmem hfirst
      exact ⟨location.length, canonicalize_join_parents hlocated hdir (Nat.le_succ _)⟩
  obtain ⟨resolved, hresolved, hpath⟩ := @resolvePath_dotted fs (parents n) (.new fs roots allow) first
    (dotted_parents n) hhead hnil (.inl (by rw [hroot]; rfl))
  rw [hroot] at hpath
  exact ⟨parents n, resolved, hresolved, hpath,
    (@Dotted.joinedPath_eq fs _ (dotted_parents n) first).2.2⟩

/-- A path below a bare file. -/
def belowFile (name : Text) : Text := Text.lit "./" ++ name ++ Text.lit "/x"

theorem dotted_belowFile (name : Text) : Dotted (belowFile name) where
  begins := ⟨'/', name ++ Text.lit "/x", rfl, by decide⟩
  ends := by
    intro c hc
    rw [belowFile, getLast?_append] at hc
    obtain rfl : 'x' = c := by simpa [Text.lit] using hc
    decide

theorem segments_belowFile {name : Text} (h : ProperName name) :
    segments (belowFile name) = [currentSegment, name, ['x']] := by
  have hsplit : belowFile name = ['/'].intercalate [currentSegment, name, ['x']] := by
    simp [belowFile, intercalate_cons_cons, currentSegment, Text.lit]
  rw [hsplit]
  refine splitOn_intercalate '/' ?_ (by simp)
  intro segment hmem
  obtain rfl | hmem := mem_cons.mp hmem
  · decide
  · obtain rfl | hmem := mem_cons.mp hmem
    · exact h.noSlash
    · rw [mem_singleton.mp hmem]
      decide

theorem belowFile_missing {name : Text} (h : ProperName name)
    (hfile : fs.metadata name = some .file) : fs.canonicalize (belowFile name) = none := by
  by_contra hsome
  obtain ⟨canonical, hcanonical⟩ := Option.ne_none_iff_exists'.mp hsome
  obtain ⟨final, _, _, hlocate, _⟩ := FileSystem.canonicalize_canonical hcanonical
  have hstart : startOf fs.cwd (belowFile name) = fs.cwd := rfl
  rw [FileSystem.locate, if_neg (by simp [belowFile, Text.lit]), hstart, segments_belowFile h] at hlocate
  obtain ⟨upper, _, hupper, hdir, _⟩ :=
    @walk_last fs.node fs.cwd final [currentSegment, name] _ ['x'] hlocate
  -- The segment before is the file itself.
  rw [FileSystem.metadata, Option.bind_eq_some_iff] at hfile
  obtain ⟨file, hname, hnode⟩ := hfile
  have hrelative : isAbsolute name = false := by
    by_contra habsolute
    cases name with
    | nil => exact habsolute rfl
    | cons c name =>
      have hc : c = '/' := by simpa [isAbsolute] using habsolute
      exact h.noSlash (by rw [hc]; exact mem_cons_self)
  have hstartName : startOf fs.cwd name = fs.cwd := by
    rw [startOf, hrelative]
    rfl
  have hsegs : segments name = [name] := splitOn_eq_singleton h.noSlash
  have hstay : advance fs.node fs.cwd [currentSegment, name] = advance fs.node fs.cwd [name] := by
    rw [advance, if_neg (not_not.mpr fs.cwd_dir), if_pos (.inr rfl)]
  rw [FileSystem.locate, if_neg h.nonempty, hstartName, hsegs, ← walk_congr _ hstay, hupper] at hname
  rw [← Option.some_inj.mp hname, hdir] at hnode
  cases hnode

theorem not_absolute_of_dotted (h : Dotted raw) (hroot : isAbsolute root = true) :
    startsWith raw root = false := by
  by_contra hstarts
  rw [Bool.not_eq_false] at hstarts
  have hslash : startsWith raw ['/'] = true := by
    rw [startsWith, decide_eq_true_iff] at hstarts ⊢
    have hprefixRoot : startsWith root ['/'] = true := startsWith_root.mpr hroot
    rw [startsWith, decide_eq_true_iff] at hprefixRoot
    exact hprefixRoot.trans hstarts
  rw [startsWith_root, h.spelling.2.2] at hslash
  cases hslash

/-- Joined to the empty root, a path below a file is returned as it is. -/
theorem escapes_below_file {root : Text} (hfile : BareFile fs root)
    (hhead : (dedupeExistingDirs fs roots).head? = some []) :
    ∃ raw resolved, resolvePath fs (.new fs roots allow) raw = .ok resolved ∧
      ¬ InsideRoots fs roots resolved.path ∧ isAbsoluteHostPath raw = false := by
  have hname : ProperName root := by
    obtain ⟨_, hname⟩ | ⟨directory, _, hparent, hne, _⟩ := parent_of_file hfile.1
    · exact hname
    · rw [hfile.2] at hparent
      exact absurd (Option.some_inj.mp hparent).symm hne
  have hdotted := dotted_belowFile root
  have hmissing := belowFile_missing hname hfile.1
  have hjoin : join [] (belowFile root) = belowFile root := rfl
  have hparents : pathContainsParentDir (belowFile root) = false := by
    rw [pathContainsParentDir, decide_eq_false_iff_not]
    intro hmem
    have hsegment := parentSegment_mem_of_component hmem
    rw [segments_belowFile hname] at hsegment
    obtain heq | hmem := mem_cons.mp hsegment
    · cases heq
    · obtain heq | hmem := mem_cons.mp hmem
      · exact hname.not_parent heq.symm
      · cases mem_singleton.mp hmem
  obtain ⟨resolved, hresolved, hpath⟩ := @resolvePath_dotted fs (belowFile root)
    (.new fs roots allow) [] hdotted hhead (mem_of_head? hhead) (.inr hparents)
  rw [hjoin, hmissing] at hpath
  refine ⟨belowFile root, resolved, hresolved, ?_, (@Dotted.joinedPath_eq fs _ hdotted []).2.2⟩
  intro ⟨canonical, hcanonical, hstarts⟩
  obtain ⟨location, _, rfl⟩ := absolute_of_mem_canonicalRoots hcanonical
  have hsame : resolved.path = belowFile root := hpath
  rw [hsame, not_absolute_of_dotted hdotted rfl] at hstarts
  cases hstarts

/-- Resolving keeps to the canonical roots exactly when no root is the bare name of a file, unless
the root of the file system is a root and relative paths are not joined to the empty one. -/
theorem confined_iff (fs : FileSystem) (roots : List Text) (allow : Bool) :
    Confined fs roots allow ↔
      (∀ root ∈ roots, ¬ BareFile fs root) ∨
        (Text.lit "/" ∈ canonicalRoots fs roots ∧
          (allow = true → (dedupeExistingDirs fs roots).head? ≠ some [])) := by
  constructor
  · intro hconfined
    by_contra hnot
    rw [not_or] at hnot
    obtain ⟨hbare, hroot⟩ := hnot
    obtain ⟨root, hmem, hfile⟩ : ∃ root ∈ roots, BareFile fs root := by
      simpa using hbare
    by_cases hslash : Text.lit "/" ∈ canonicalRoots fs roots
    · have hhead : allow = true ∧ (dedupeExistingDirs fs roots).head? = some [] := by
        simpa [hslash] using hroot
      obtain ⟨raw, resolved, hresolved, houtside, hrelative⟩ :=
        @escapes_below_file fs roots allow root hfile hhead.2
      obtain hinside | habsolute := (hconfined raw resolved hresolved).2 hhead.1
      · exact houtside hinside
      · rw [hrelative] at habsolute
        cases habsolute
    · obtain ⟨raw, resolved, hresolved, hpath, hrelative⟩ := @escapes_to_root fs roots allow root hmem hfile
      have houtside : ¬ InsideRoots fs roots resolved.path := by
        intro ⟨canonical, hcanonical, hstarts⟩
        obtain ⟨location, hlocated, rfl⟩ := absolute_of_mem_canonicalRoots hcanonical
        rw [hpath] at hstarts
        rw [startsWith_root_absoluteText hlocated hstarts] at hcanonical
        exact hslash hcanonical
      cases allow with
      | false =>
        have hexists : fs.pathExists resolved.path = true := by
          rw [hpath, FileSystem.pathExists]
          have hlocate : fs.locate (FileSystem.absoluteText []) = some [] :=
            FileSystem.locate_absoluteText (.root fs.root_dir)
          exact (congrArg Option.isSome hlocate).trans rfl
        exact houtside ((hconfined raw resolved hresolved).1 rfl hexists).2
      | true =>
        obtain hinside | habsolute := (hconfined raw resolved hresolved).2 rfl
        · exact houtside hinside
        · rw [hrelative] at habsolute
          cases habsolute
  · intro h
    obtain hbare | ⟨hroot, hhead⟩ := h
    · exact confined_of_no_bareFile hbare
    · exact confined_of_root hroot hhead

end Resolving

/-- A home directory with a file in it, and a file outside. -/
def homeFiles : FileSystem where
  node location :=
    if location = [] ∨ location = [Text.lit "home"] ∨ location = [Text.lit "etc"] then some .dir
    else if location = [Text.lit "home", Text.lit "notes.txt"] ∨
        location = [Text.lit "etc", Text.lit "passwd"] then some .file
    else none
  cwd := [Text.lit "home"]
  root_dir := rfl
  cwd_located :=
    { names := by
        intro name hname
        rw [mem_singleton.mp hname]
        exact ⟨by decide, by decide, by decide, by decide⟩
      above := by
        intro front back heq hback
        cases front with
        | nil => rfl
        | cons first front =>
          have hnil := (cons.inj heq).2
          exact absurd (append_eq_nil_iff.mp hnil.symm).2 hback
      here := ⟨.dir, rfl, rfl⟩ }
  cwd_dir := rfl

/-- With the bare name of a file as the root, a file outside is resolved. -/
theorem bareFile_not_confined : ¬ Confined homeFiles [Text.lit "notes.txt"] false := by
  intro h
  have hresolved : resolvePath homeFiles (.new homeFiles [Text.lit "notes.txt"] false)
      (Text.lit "/etc/passwd") = .ok
        { path := Text.lit "/etc/passwd", displayPath := Text.lit "/etc/passwd", displayRoot := [] } := by
    rfl
  obtain ⟨_, root, hroot, hstarts⟩ := (h _ _ hresolved).1 rfl (by decide)
  have hhome : canonicalRoots homeFiles [Text.lit "notes.txt"] = [Text.lit "/home"] := by decide
  rw [hhome] at hroot
  rw [mem_singleton.mp hroot] at hstarts
  exact absurd hstarts (by decide)

end CodeSeeX.Workspace
