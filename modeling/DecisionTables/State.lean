import DecisionTables.Store
import DecisionTables.Value.Mapping
import DecisionTables.Value.Order

/-!
# Stored states

The durable side of the engine: sources under logical names.  A stored state is
built from sources or from a mapping of mappings, copied, reset to its defaults,
and given the sources of another state.
-/

namespace DecisionTables.StateId

/-- Add the sources of a stored state; a source without a name takes its key. -/
def addSources : Assoc Scalar Source → Engine Registry
  | [] => return []
  | (name, source) :: rest => do
    let id ← Engine.addSource (source.nameIfBlank name)
    return (name, id) :: (← addSources rest)

/-- A new stored state of the given sources. -/
def create (sources : List (Scalar × Source)) : Engine StateId := do
  Engine.addState (← addSources (Assoc.ofList sources))

/-- The source of stored values under a name. -/
def storedEntry (entry : Scalar × Value) : Except Fault (Scalar × Source) :=
  return (entry.1, .stored entry.1 (← entry.2.toMapping) [])

/-- A new stored state of a mapping whose values stand for mappings. -/
def ofNested : Value → Engine StateId
  | .mapping entries => do create (← Engine.ofExcept (entries.mapM storedEntry))
  | _ => throw .missingMember

/-- The value is a mapping. -/
def isMapping : Value → Bool
  | .mapping _ => true
  | _ => false

/-- A new stored state of a value that must be absent or a mapping of mappings. -/
def ofValue : Value → Engine StateId
  | .null => create []
  | .mapping entries =>
    if entries.all fun entry => isMapping entry.2 then ofNested (.mapping entries)
    else Engine.fail .stateNotNested
  | _ => Engine.fail .stateNotNested

/-- The names of the sources. -/
def names (id : StateId) : Engine (List Scalar) :=
  return ((← get).state id).keys

/-- A source has the name. -/
def contains (id : StateId) (name : String) : Engine Bool :=
  return ((← get).state id).contains (.text name)

/-- The identity of the source with a name. -/
def find (id : StateId) (name : String) : Engine SourceId := do
  match ((← get).state id).find? (.text name) with
  | some source => return source
  | none => Engine.fail (.unknownStoredSource name)

/-- The source with a name. -/
def findSource (id : StateId) (name : String) : Engine Source := do
  return (← get).source (← id.find name)

/-- The text of a fragment, read without a context: tables and conditions cannot be computed. -/
def readAlone (s : Source) (fragment : String) : Except Fault String :=
  match s.content with
  | .memory _ values _ =>
    match values.find? (.text fragment) with
    | some value => .ok value.fragmentText
    | none => .error (.engine (.missingFragment fragment s.name))
  | .constant => .ok fragment
  | .table _ => .error .missingMember
  | .conditions named =>
    if named.contains fragment then .error .missingMember
    else .error (.engine (.unknownCondition fragment))
  | .bare => .error .notProvided

/-- The text of a fragment of the source with a name. -/
def read (id : StateId) (name fragment : String) : Engine String := do
  Engine.ofExcept (readAlone (← id.findSource name) fragment)

/-- Write a fragment of the source with a name. -/
def write (id : StateId) (name fragment : String) (value : Value) : Engine Unit := do
  let sourceId ← id.find name
  let source ← Engine.ofEngine (((← get).source sourceId).write fragment value)
  modify fun σ => σ.setSource sourceId source

/-- The sources of a state, each changed by a function. -/
def mapSources (f : Source → Source) (id : StateId) : Engine (List (Scalar × Source)) := do
  let σ ← get
  return (σ.state id).map fun entry => (entry.1, f (σ.source entry.2))

/-- A new state with copies of all sources. -/
def copy (id : StateId) : Engine StateId := do
  create (← id.mapSources fun s => s)

/-- A new state with copies of all sources, reset to their defaults. -/
def copyReset (id : StateId) : Engine StateId := do
  create (← id.mapSources Source.reset)

/-- Give a state the sources of another state. -/
def adopt (id : StateId) (other : StateId) : Engine Unit :=
  modify fun σ => σ.setState id (σ.state other)

/-- The values of the sources of a registry in a store. -/
def exportFrom (σ : Store) (r : Registry) : Assoc Scalar Value :=
  r.mapValues fun source => .mapping (σ.source source).values

/-- The state as a mapping of mappings. -/
def «export» (id : StateId) : Engine (Assoc Scalar Value) := do
  let σ ← get
  return exportFrom σ (σ.state id)

/-- The state as it is shown: the sorted names of its sources. -/
def display (id : StateId) : Engine String := do
  let sorted ← Engine.ofExcept (Scalar.sortKeys (← id.names))
  return "StoredState(" ++ (Value.list (sorted.map .scalar)).display ++ ")"

end DecisionTables.StateId
