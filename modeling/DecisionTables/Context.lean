import DecisionTables.State

/-!
# Contexts

The short-lived side of the engine.  A context registers the constants, the
request, one source for every table, and the sources of a stored state, in this
order; a later source hides an earlier one of the same name.  It remembers what it
has computed until it is told to forget.
-/

namespace DecisionTables.ContextId

/-- Add a source and register it. -/
def addRegistered (registry : Registry) (name : Scalar) (source : Source) : Engine Registry := do
  return registry.insert name (← Engine.addSource source)

/-- Add sources and register each under its own name. -/
def addAllRegistered (registry : Registry) : List Source → Engine Registry
  | [] => return registry
  | source :: rest => do
    addAllRegistered (← addRegistered registry source.name source) rest

/-- The sources that a context brings along besides its request and the stored ones. -/
def tableSources (catalog : Option Catalog) : List Source :=
  match catalog with
  | some c => c.tables.map Source.ofTable
  | none => []

/-- Open a context that reports to a trace. -/
def openTraced (state : StateId) (catalog : Option Catalog) (request : Source)
    (backend : Option Backend) (trace : TraceId) : Engine ContextId := do
  let constants ← addAllRegistered [] [.constant]
  let requestId ← Engine.addSource request
  let own ← addAllRegistered (constants.insert request.name requestId) (tableSources catalog)
  let registry := own.insertAll ((← get).state state)
  Engine.addContext ⟨state, catalog, backend, requestId, registry, .empty, trace⟩

/-- Open a context with a trace of its own. -/
def «open» (state : StateId) (catalog : Option Catalog) (request : Source)
    (backend : Option Backend) : Engine ContextId := do
  openTraced state catalog request backend (← Engine.addTrace)

/-- The identity of the source registered under a name. -/
def find (ctx : ContextId) (name : String) : Engine SourceId := do
  match ((← get).context ctx).registry.find? (.text name) with
  | some source => return source
  | none => Engine.fail (.unknownSource name)

/-- The source registered under a name. -/
def findSource (ctx : ContextId) (name : String) : Engine Source := do
  return (← get).source (← ctx.find name)

/-- Run an evaluation in a context. -/
def evaluate (ctx : ContextId) (step : Resolver → Evaluation α) : Engine α := do
  let σ ← get
  let c := σ.context ctx
  let resolve := (σ.scope c.registry).resolve σ.room
  let (result, p) := (step resolve).run.run ⟨c.memo, σ.trace c.trace⟩
  set ((σ.setContext ctx { c with memo := p.memo }).setTrace c.trace p.trace)
  Engine.ofExcept result

/-- Report an event. -/
def report (ctx : ContextId) (event : Event) : Engine Unit :=
  ctx.evaluate fun _ => Evaluation.report event

/-- The text of a coordinate. -/
def read (ctx : ContextId) (c : Coordinate) : Engine String :=
  ctx.evaluate fun resolve => resolve c

/-- The text of a fragment of a source itself, whatever is registered under its name. -/
def readFrom (ctx : ContextId) (id : SourceId) (source : Source) (fragment : String) :
    Engine String := do
  let σ ← get
  ctx.evaluate fun _ => (σ.scope (σ.context ctx).registry).readFrom σ.room id source fragment

/-- Write to a coordinate. -/
def write (ctx : ContextId) (c : Coordinate) (value : Value) : Engine Unit := do
  let id ← ctx.find c.source
  let source ← Engine.ofEngine (((← get).source id).write c.fragment value)
  modify fun σ => σ.setSource id source

/-- Forget all computed outcomes and conditions. -/
def reload (ctx : ContextId) : Engine Unit :=
  modify fun σ =>
    let c := σ.context ctx
    σ.setContext ctx { c with memo := { c.memo with outcomes := [], verdicts := [] } }

/-- Register a source under a name, else under its own name. -/
def register (ctx : ContextId) (name : String) (source : Source) : Engine Unit := do
  let c := (← get).context ctx
  let key := if name.isEmpty then source.name else .text name
  let registry ← addRegistered c.registry key source
  modify fun σ => σ.setContext ctx { σ.context ctx with registry := registry }

/-- The catalog of a context, where one is needed. -/
def catalog (ctx : ContextId) : Engine Catalog := do
  match ((← get).context ctx).catalog with
  | some c => return c
  | none => throw .missingMember

/-- A table of the catalog. -/
def table (ctx : ContextId) (name : String) : Engine Table := do
  Engine.ofEngine ((← ctx.catalog).table name)

/-- The outcome of a table of the catalog. -/
def outcome (ctx : ContextId) (name : String) : Engine Outcome := do
  let t ← ctx.table name
  ctx.evaluate t.decideOnce

/-- Carry out an assignment. -/
def assign (ctx : ContextId) (a : Assignment) : Engine Unit := do
  let resolved ← ctx.read a.source
  ctx.write a.target (.text resolved)

/-- Carry out assignments one after the other. -/
def assignAll (ctx : ContextId) : List Assignment → Engine Unit
  | [] => return
  | a :: rest => do
    ctx.assign a
    ctx.assignAll rest

/-- Carry out the assignments of a rule. -/
def performRule (ctx : ContextId) (r : Rule) : Engine Unit :=
  ctx.assignAll r.assignments

/-- Execute a command of a backend: the only satisfied rule of its table is carried out. -/
def execute (ctx : ContextId) (command : String) : Backend → Engine Unit
  | .bare => throw .notProvided
  | .tables commands => do
    let t ← Engine.ofEngine (commands.table command)
    match ← ctx.evaluate t.satisfiedRule? with
    | none => Engine.fail (.noRuleSatisfied command)
    | some r => ctx.performRule r

/-- Perform a command. -/
def perform (ctx : ContextId) (command : String) : Engine Unit := do
  match ((← get).context ctx).backend with
  | none => Engine.fail (.noBackend command)
  | some backend =>
    ctx.report (.command command)
    ctx.execute command backend

/-- Register copies of the sources that a registry lacks, reset to their defaults. -/
def addMissing (registry : Registry) : List (Scalar × Source) → Engine Registry
  | [] => return registry
  | (name, source) :: rest => do
    if registry.contains name then addMissing registry rest
    else addMissing (← addRegistered registry name source.reset) rest

/-- A new context over reset copies of all sources; it reports to the same trace. -/
def copyReset (ctx : ContextId) : Engine ContextId := do
  let c := (← get).context ctx
  let state ← c.state.copyReset
  let request := ((← get).source c.request).reset
  let copy ← openTraced state c.catalog request c.backend c.trace
  let σ ← get
  let registered := c.registry.map fun entry => (entry.1, σ.source entry.2)
  let registry ← addMissing (σ.context copy).registry registered
  modify fun σ => σ.setContext copy { σ.context copy with registry := registry }
  return copy

/-- The trace of a context. -/
def trace (ctx : ContextId) : Engine Trace := do
  let σ ← get
  return σ.trace (σ.context ctx).trace

/-- Drop all events of the trace of a context. -/
def clearTrace (ctx : ContextId) : Engine Unit :=
  modify fun σ => σ.setTrace (σ.context ctx).trace #[]

end DecisionTables.ContextId
