import DecisionTables.Evaluation
import DecisionTables.Nesting

/-!
# The store

Sources, stored states, contexts and traces are shared: a context sees the very
sources of the state it was opened on.  The store keeps each of them under an
identity of its own, and every operation of the engine is a step on the store.
-/

namespace DecisionTables

/-- The identity of a stored state. -/
structure StateId where
  index : Nat
  deriving DecidableEq, Repr, Inhabited

/-- The identity of a context. -/
structure ContextId where
  index : Nat
  deriving DecidableEq, Repr, Inhabited

/-- The identity of a trace. -/
structure TraceId where
  index : Nat
  deriving DecidableEq, Repr, Inhabited

/-- Sources under the names they are registered by. -/
abbrev Registry := Assoc Scalar SourceId

/-- What executes commands. -/
inductive Backend where
  /-- Every command is a table, and its satisfied rule holds the assignments to run. -/
  | tables (commands : Catalog)
  /-- No command is provided. -/
  | bare
  deriving Inhabited

/-- What one series of reads, assignments and commands works on. -/
structure Context where
  state : StateId
  catalog : Option Catalog
  backend : Option Backend
  request : SourceId
  registry : Registry
  memo : Memo
  trace : TraceId

/-- Everything that is shared. -/
structure Store where
  sources : Array Source
  states : Array Registry
  contexts : Array Context
  traces : Array Trace
  /-- How much room evaluations have for nesting, if that is limited. -/
  room : Option Nat

namespace Store

/-- The store without contents, in which evaluations have all the room that they need. -/
def empty : Store := ⟨#[], #[], #[], #[], none⟩

/-- The store without contents, in which evaluations have limited room. -/
def bounded : Store := { empty with room := some Nesting.evaluationRoom }

/-- A source; an identity that was never given out is a source without contents. -/
def source (σ : Store) (id : SourceId) : Source :=
  σ.sources.getD id.index .bare

/-- The sources of a stored state. -/
def state (σ : Store) (id : StateId) : Registry :=
  σ.states.getD id.index []

/-- A context. -/
def context (σ : Store) (id : ContextId) : Context :=
  σ.contexts.getD id.index ⟨⟨0⟩, none, none, ⟨0⟩, [], .empty, ⟨0⟩⟩

/-- A trace. -/
def trace (σ : Store) (id : TraceId) : Trace :=
  σ.traces.getD id.index #[]

/-- Replace a source. -/
def setSource (σ : Store) (id : SourceId) (s : Source) : Store :=
  { σ with sources := σ.sources.setIfInBounds id.index s }

/-- Replace the sources of a stored state. -/
def setState (σ : Store) (id : StateId) (r : Registry) : Store :=
  { σ with states := σ.states.setIfInBounds id.index r }

/-- Replace a context. -/
def setContext (σ : Store) (id : ContextId) (c : Context) : Store :=
  { σ with contexts := σ.contexts.setIfInBounds id.index c }

/-- Replace a trace. -/
def setTrace (σ : Store) (id : TraceId) (t : Trace) : Store :=
  { σ with traces := σ.traces.setIfInBounds id.index t }

/-- The sources behind a registry. -/
def scope (σ : Store) (r : Registry) : Scope :=
  r.mapValues fun id => (id, σ.source id)

end Store

/-- A step on the store; what it has changed outlasts a fault. -/
abbrev Engine := ExceptT Fault (StateM Store)

namespace Engine

/-- Stop with an error of the engine. -/
def fail (error : EngineError) : Engine α :=
  throw (.engine error)

/-- Take a result that may be a fault. -/
def ofExcept : Except Fault α → Engine α
  | .ok a => pure a
  | .error fault => throw fault

/-- Take a result that may be an error of the engine. -/
def ofEngine : Except EngineError α → Engine α
  | .ok a => pure a
  | .error error => fail error

/-- Add a source to the store. -/
def addSource (s : Source) : Engine SourceId :=
  modifyGet fun σ => (⟨σ.sources.size⟩, { σ with sources := σ.sources.push s })

/-- Add a stored state to the store. -/
def addState (r : Registry) : Engine StateId :=
  modifyGet fun σ => (⟨σ.states.size⟩, { σ with states := σ.states.push r })

/-- Add a context to the store. -/
def addContext (c : Context) : Engine ContextId :=
  modifyGet fun σ => (⟨σ.contexts.size⟩, { σ with contexts := σ.contexts.push c })

/-- Add a trace without events to the store. -/
def addTrace : Engine TraceId :=
  modifyGet fun σ => (⟨σ.traces.size⟩, { σ with traces := σ.traces.push #[] })

end Engine

end DecisionTables
