import CodeSeeX.Proxy.ToolPassthrough

/-!
# Community tools

Manifests in the data directory become tools that CodeSeeX runs as commands. Every manifest
makes its name known; only an enabled one with a command is published.
-/
namespace CodeSeeX.Tools
open Option

def maxIdLen : ℕ := 64
def maxDescriptionLen : ℕ := 600

/-- `value.trim_matches('_')` -/
def trimUnderscores (value : Text) : Text := (value.dropWhile (· = '_')).rdropWhile (· = '_')

def normalizeToolId (value : Text) : Option Text :=
  let normalized := trimUnderscores ((value.trim.toAsciiLowercase.take maxIdLen).map fun ch =>
    if isToolNameChar ch then ch else '_')
  if normalized = [] then none else some normalized

structure CommunityToolManifest where
  id : Text
  manifest : Value

/-- The manifests of the tool directories: the names of the directories in order, each with what
its manifest file parses to. -/
def discoverManifests.loop : List Text → List (Text × Option Value) → List CommunityToolManifest
  | _, [] => []
  | seen, (dir, file) :: dirs =>
      match file.filter isObject with
      | none => loop seen dirs
      | some manifest =>
          match ((manifest.getStr "id").bind normalizeToolId) <|> normalizeToolId dir with
          | none => loop seen dirs
          | some id => if id ∈ seen then loop seen dirs else ⟨id, manifest⟩ :: loop (id :: seen) dirs

def discoverManifests (dirs : List (Text × Option Value)) : List CommunityToolManifest :=
  discoverManifests.loop [] dirs

/-- The command of an execution specification. -/
def commandExecutionSpec (value : Option Value) : Option Text :=
  (value.filter isObject).bind fun object =>
    if (object.getStr "type").map (fun value => value.trim.eqIgnoreAsciiCase "command") =
        some true then
      ((object.getStr "command").map Text.trim).filter (· ≠ [])
    else none

def normalizeCommunitySchema (schema : Value) : Value :=
  match schema with
  | .object _ =>
      let schema := if (schema.get "type").isNone then schema.set "type" (.string "object")
        else schema
      if (schema.get "properties").isNone then schema.set "properties" (.object []) else schema
  | _ => emptySchema

def modelToolDefinition (tool : CommunityToolManifest) : Value :=
  let model := (tool.manifest.get "model").filter isObject
  let description := firstString [model.bind (·.get "description"),
    tool.manifest.get "modelDescription", tool.manifest.get "description"]
    "Community tool executed by CodeSeeX in an isolated child process."
  let parameters := ((model.bind (·.get "parameters")) <|> (tool.manifest.get "parameters") <|>
    (tool.manifest.get "input_schema") <|> (tool.manifest.get "inputSchema")).getD emptySchema
  functionTool tool.id (description.trim.take maxDescriptionLen)
    (normalizeCommunitySchema parameters)

structure CommunityExecutableTool where
  id : Text
  definition : Value
  command : Text

def toExecutable (tool : CommunityToolManifest) : Option CommunityExecutableTool :=
  if (tool.manifest.get "enabled").bind Value.asBool = some false then none
  else (commandExecutionSpec (tool.manifest.get "execution")).map fun command =>
    ⟨tool.id, modelToolDefinition tool, command⟩

/-- Every tool that is published is known, and its definition has its name. -/
structure CommunityToolSet where
  knownIds : List Text
  executable : BTreeMap Text CommunityExecutableTool
  known : ∀ id tool, executable.get id = some tool → id ∈ knownIds
  named : ∀ id tool, executable.get id = some tool → functionName tool.definition = some id

namespace CommunityToolSet

def empty : CommunityToolSet where
  knownIds := []
  executable := BTreeMap.empty
  known := by
    intro id tool h
    cases h
  named := by
    intro id tool h
    cases h

def learn (set : CommunityToolSet) (id : Text) : CommunityToolSet where
  knownIds := id :: set.knownIds
  executable := set.executable
  known := by
    intro other tool h
    exact List.mem_cons_of_mem _ (set.known other tool h)
  named := set.named

theorem toExecutable_named {manifest : CommunityToolManifest} {tool : CommunityExecutableTool}
    (h : toExecutable manifest = some tool) :
    tool.id = manifest.id ∧ functionName tool.definition = some manifest.id := by
  rw [toExecutable] at h
  split at h
  · cases h
  · obtain ⟨command, _, rfl⟩ := map_eq_some_iff.mp h
    exact ⟨rfl, rfl⟩

def add (set : CommunityToolSet) (manifest : CommunityToolManifest) (tool : CommunityExecutableTool)
    (h : toExecutable manifest = some tool) : CommunityToolSet where
  knownIds := manifest.id :: set.knownIds
  executable := set.executable.insert tool.id tool
  known := by
    intro id other hget
    by_cases hid : id = tool.id
    · rw [hid, (toExecutable_named h).1]
      exact List.mem_cons_self
    · rw [BTreeMap.get_insert_ne _ hid] at hget
      exact List.mem_cons_of_mem _ (set.known id other hget)
  named := by
    intro id other hget
    by_cases hid : id = tool.id
    · rw [hid, BTreeMap.get_insert_self, some_inj] at hget
      rw [hid, ← hget, (toExecutable_named h).1]
      exact (toExecutable_named h).2
    · rw [BTreeMap.get_insert_ne _ hid] at hget
      exact set.named id other hget

/-- One manifest of the loop of `load`. -/
def loadManifest (enabledIds : List Text) (set : CommunityToolSet)
    (manifest : CommunityToolManifest) : CommunityToolSet :=
  if manifest.id ∈ enabledIds then
    match h : toExecutable manifest with
    | some tool => set.add manifest tool h
    | none => set.learn manifest.id
  else set.learn manifest.id

def load (dirs : List (Text × Option Value)) (enabledIds : List Text) : CommunityToolSet :=
  (discoverManifests dirs).foldl (loadManifest enabledIds) empty

def definitions (set : CommunityToolSet) : List Value :=
  set.executable.values.map CommunityExecutableTool.definition

def isKnownTool (set : CommunityToolSet) (name : Text) : Bool := decide (name ∈ set.knownIds)

def isExecutableTool (set : CommunityToolSet) (name : Text) : Bool :=
  (set.executable.get name).isSome

theorem isKnownTool_of_isExecutableTool {set : CommunityToolSet} {name : Text}
    (h : set.isExecutableTool name = true) : set.isKnownTool name = true := by
  obtain ⟨tool, htool⟩ := isSome_iff_exists.mp h
  exact decide_eq_true (set.known name tool htool)

/-- A name is published exactly if its tool can be executed. -/
theorem exists_definition_iff {set : CommunityToolSet} {name : Text} :
    (∃ tool ∈ set.definitions, functionName tool = some name) ↔
      set.isExecutableTool name = true := by
  constructor
  · intro h
    obtain ⟨definition, hmem, hname⟩ := h
    obtain ⟨tool, htool, rfl⟩ := List.mem_map.mp hmem
    obtain ⟨⟨id, other⟩, hentry, rfl⟩ := List.mem_map.mp htool
    have hget := BTreeMap.get_eq_some.mpr hentry
    have hid := set.named id other hget
    rw [hname, some_inj] at hid
    rw [hid]
    exact isSome_iff_exists.mpr ⟨other, hget⟩
  · intro h
    obtain ⟨tool, htool⟩ := isSome_iff_exists.mp h
    refine ⟨tool.definition, List.mem_map_of_mem ?_, set.named name tool htool⟩
    exact List.mem_map.mpr ⟨(name, tool), BTreeMap.get_eq_some.mp htool, rfl⟩

end CommunityToolSet

end CodeSeeX.Tools
