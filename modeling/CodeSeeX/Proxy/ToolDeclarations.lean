import CodeSeeX.Proxy.PendingGroups

/-!
# Tool declarations that the provider accepts

The provider wants every namespace declared once and every function with an object schema.
Declarations stand in the `tools` of the request and in the `tools` of replayed input items;
both are put right, and an input item without `tools` is left alone.
-/
namespace CodeSeeX.Native

/-- `value.get_mut(key)`: the field is changed if it is there. -/
def updateField (v : Value) (key : Text) (f : Value → Value) : Value :=
  match v.get key with
  | some field => v.set key (f field)
  | none => v

/-- `and_then(Value::as_array_mut)` -/
def updateItems (v : Value) (f : List Value → List Value) : Value :=
  match v with
  | .array items => .array (f items)
  | v => v

/-- The nested tools of a field, if it is an array. -/
def arrayOf (v : Value) (key : Text) : List Value := ((v.get key).bind Value.asArray).getD []

/-! ## Namespaces -/

def groupedDeclarationName (entry : Value) : Option Text :=
  if arrayOf entry "tools" = [] then none else trimmedStr (entry.get "name")

/-- Where a grouped declaration stands in a request. -/
inductive GroupedToolSite where
  | tools (index : ℕ)
  | input (item tool : ℕ)
  deriving DecidableEq

def groupedNames (tools : List Value) (site : ℕ → GroupedToolSite) :
    List (Text × GroupedToolSite) :=
  tools.zipIdx.filterMap fun entry =>
    (groupedDeclarationName entry.1).map fun name => (name, site entry.2)

def groupedToolOccurrences (object : Value) : List (Text × GroupedToolSite) :=
  groupedNames (arrayOf object "tools") .tools ++
    (arrayOf object "input").zipIdx.flatMap fun entry =>
      groupedNames (arrayOf entry.1 "tools") (.input entry.2)

def groupedToolEntry (object : Value) : GroupedToolSite → Option Value
  | .tools index => (arrayOf object "tools")[index]?
  | .input item tool => ((arrayOf object "input")[item]?).bind fun item => (arrayOf item "tools")[tool]?

def nestedToolsOf (object : Value) (site : GroupedToolSite) : List Value :=
  ((groupedToolEntry object site).map (arrayOf · "tools")).getD []

/-- Kind and name, or the whole entry if it has no name. -/
def nestedToolIdentity (entry : Value) : Text :=
  match trimmedStr (entry.get "name") with
  | some name => ((entry.getStr "type").getD "function") ++ ['\x1f'] ++ name
  | none => entry.print

def mergeNestedTools (canonical additional : List Value) : List Value :=
  additional.foldl (fun merged entry =>
    if nestedToolIdentity entry ∈ merged.map nestedToolIdentity then merged
    else merged ++ [entry]) canonical

structure NamespaceMerge where
  first : List (Text × GroupedToolSite × List Value) := []
  mergedNames : List Text := []
  repeated : List GroupedToolSite := []

/-- One occurrence: the first of its name stands, a later one is folded into it. -/
def NamespaceMerge.step (object : Value) (m : NamespaceMerge)
    (occurrence : Text × GroupedToolSite) : NamespaceMerge :=
  let (name, site) := occurrence
  if name ∈ m.first.map Prod.fst then
    { first := m.first.map fun entry =>
        if entry.1 = name then
          (name, entry.2.1, mergeNestedTools entry.2.2 (nestedToolsOf object site))
        else entry
      mergedNames := if name ∈ m.mergedNames then m.mergedNames else m.mergedNames ++ [name]
      repeated := m.repeated ++ [site] }
  else { m with first := m.first ++ [(name, site, nestedToolsOf object site)] }

/-- A change to the tools of the request, or to those of one input item. -/
def updateTools (object : Value) (item : Option ℕ) (f : List Value → List Value) : Value :=
  match item with
  | none => updateField object "tools" fun tools => updateItems tools f
  | some index =>
      updateField object "input" fun input => updateItems input fun items =>
        items.modify index fun item => updateField item "tools" fun tools => updateItems tools f

def setGroupedTools (object : Value) (site : GroupedToolSite) (tools : List Value) : Value :=
  let replace := fun entry : Value =>
    match entry with
    | .object _ => entry.set "tools" (.array tools)
    | entry => entry
  match site with
  | .tools index => updateTools object none (·.modify index replace)
  | .input item tool => updateTools object (some item) (·.modify tool replace)

/-- The deepest index first, so that the others stay valid; the sites are in ascending order. -/
def removeGroupedEntries (object : Value) (sites : List GroupedToolSite) : Value :=
  sites.reverse.foldl (fun object site =>
    match site with
    | .tools index => updateTools object none (·.eraseIdx index)
    | .input item tool => updateTools object (some item) (·.eraseIdx tool)) object

def reconcileGroupedToolNamespaces (payload : Value) : Value × List Text :=
  let occurrences := groupedToolOccurrences payload
  let merge := occurrences.foldl (NamespaceMerge.step payload) {}
  if occurrences.length < 2 ∨ merge.mergedNames = [] then (payload, [])
  else
    let object := (merge.first.filter fun entry => entry.1 ∈ merge.mergedNames).foldl
      (fun object entry => setGroupedTools object entry.2.1 entry.2.2) payload
    (removeGroupedEntries object merge.repeated, merge.mergedNames)

/-! ## Schemas -/

def emptyObjectSchema : Value := .object [("properties", .object []), ("type", .string "object")]

def repairObjectSchema (schema : Value) : Value :=
  match schema with
  | .object fields =>
      match fields.lookup ("type" : Text) with
      | none => schema.set "type" (.string "object")
      | some .null => schema.set "type" (.string "object")
      | some _ => schema
  | _ => emptyObjectSchema

/-- The schemas of one declaration. -/
def repairDeclaration (tool : Value) : Value :=
  if tool.getStr "type" ≠ some ("function" : Text) then tool
  else if (tool.get "parameters").isNone ∧ (tool.get "input_schema").isNone then
    tool.set "parameters" emptyObjectSchema
  else updateField (updateField tool "parameters" repairObjectSchema) "input_schema" repairObjectSchema

mutual
def repairToolDeclaration : Value → Value
  | .object fields => repairDeclaration (.object (repairNestedTools fields))
  | tool => tool

/-- The `tools` among the fields of a declaration. -/
def repairNestedTools : List (Text × Value) → List (Text × Value)
  | [] => []
  | (key, value) :: fields =>
      (key, if key = Text.lit "tools" then repairToolItems value else value) ::
        repairNestedTools fields

def repairToolItems : Value → Value
  | .array tools => .array (repairToolDeclarations tools)
  | value => value

def repairToolDeclarations : List Value → List Value
  | [] => []
  | tool :: tools => repairToolDeclaration tool :: repairToolDeclarations tools
end

def repairProviderToolSchemas (payload : Value) : Value :=
  let payload := updateField payload "tools" fun tools => updateItems tools repairToolDeclarations
  updateField payload "input" fun input => updateItems input fun items =>
    items.map fun item => updateField item "tools" fun tools => updateItems tools repairToolDeclarations

end CodeSeeX.Native
