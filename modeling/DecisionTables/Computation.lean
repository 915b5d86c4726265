import DecisionTables.SelfTest

/-!
# Computations

The unit a caller works with: tables to decide by, commands to perform, and a
stored state.  A command works on a copy of the state, and the state changes only
when every assignment succeeded.
-/

namespace DecisionTables

/-- How a caller names a state: not at all, by its contents, or by its identity. -/
inductive StateChoice where
  | absent
  | contents (value : Value)
  | stored (id : StateId)
  deriving Inhabited

namespace StateChoice

/-- The chosen state; absent or empty contents are a new state without sources. -/
def state : StateChoice → Engine StateId
  | absent => StateId.create []
  | contents .null => StateId.create []
  | contents value => StateId.ofNested value
  | stored id => return id

/-- The chosen state, or another one where none is chosen. -/
def stateOr (other : StateId) : StateChoice → Engine StateId
  | absent => return other
  | contents .null => return other
  | choice => choice.state

end StateChoice

/-- What decisions are made by. -/
structure Decisions where
  catalog : Catalog
  state : StateId
  backend : Option Backend

/-- Decisions, commands and the current state. -/
structure Computation where
  decisions : Decisions
  backend : Option Backend
  state : StateId

/-- The request that a value stands for. -/
def requestOfValue (value : Value) : Engine Source := do
  return .requestOf (← Engine.ofExcept value.toMapping)

namespace Decisions

/-- Open a context on a chosen state. -/
def «open» (d : Decisions) (choice : StateChoice) (request : Value) : Engine ContextId := do
  let state ← choice.stateOr d.state
  ContextId.open state (some d.catalog) (← requestOfValue request) d.backend

/-- The outcome of a table. -/
def decide (d : Decisions) (table : String) (choice : StateChoice) (request : Value) :
    Engine Outcome := do
  let ctx ← d.open choice request
  ctx.outcome table

end Decisions

namespace Computation

/-- A computation whose commands are tables as well, on one shared state. -/
def ofTables (catalog commands : Catalog) (choice : StateChoice) : Engine Computation := do
  let state ← choice.state
  let backend := some (.tables commands)
  return ⟨⟨catalog, state, backend⟩, backend, state⟩

/-- A computation with the given backend for its decisions and for its commands. -/
def ofBackend (catalog : Catalog) (backend : Option Backend) (choice : StateChoice) :
    Engine Computation := do
  let deciding ← choice.state
  let performing ← choice.state
  return ⟨⟨catalog, deciding, backend⟩, backend, performing⟩

/-- Open a context on the current state. -/
def «open» (c : Computation) (request : Value) : Engine ContextId := do
  ContextId.open c.state (some c.decisions.catalog) (← requestOfValue request) c.backend

/-- The outcome of a table in a chosen state, else in the current one. -/
def decide (c : Computation) (table : String) (choice : StateChoice) : Engine Outcome := do
  let choice :=
    match choice with
    | .absent | .contents .null => .stored c.state
    | other => other
  c.decisions.decide table choice .null

/-- Perform a command on a copy of the current state, which is adopted at the end. -/
def perform (c : Computation) (command : String) (request : Value) : Engine Unit := do
  let working ← c.state.copy
  let ctx ← ContextId.open working (some c.decisions.catalog) (← requestOfValue request) c.backend
  ctx.perform command
  c.state.adopt working

/-- The current state has a source with the name. -/
def hasState (c : Computation) (name : String) : Engine Bool :=
  c.state.contains name

/-- The texts of fragments of one stored source. -/
def readAll (ctx : ContextId) (id : SourceId) (source : Source) :
    List String → Engine (List (String × String))
  | [] => return []
  | fragment :: rest => do
    let text ← ctx.readFrom id source fragment
    return (fragment, text) :: (← readAll ctx id source rest)

/-- The texts of the wanted fragments of one stored source. -/
def stateFor (c : Computation) (name : String) (fragments : List String) : Engine Outcome := do
  let id ← c.state.find name
  let source := (← get).source id
  let ctx ← c.open .null
  return Assoc.ofList (← readAll ctx id source fragments)

/-- The current state as a mapping of mappings. -/
def storedState (c : Computation) : Engine (Assoc Scalar Value) :=
  c.state.export

/-- The same decisions and commands on a state given by its contents. -/
def withState (c : Computation) (contents : Value) : Engine Computation := do
  return { c with state := ← StateId.ofNested contents }

/-- Test the rules of a catalog, or of the own tables, on reset copies of the current state. -/
def selfTest (c : Computation) (tests : Option Catalog) : Engine Report := do
  let ctx ← c.open .null
  Report.ofCatalog ctx (tests.getD c.decisions.catalog)

end Computation

end DecisionTables
