import DecisionTables.Loading
import DecisionTables.State.Exchange

/-!
# Sessions

What a caller does with the engine, one operation after the other.  A session holds
the store and the objects that were made so far, and an operation names an object by
its place among those of its kind.  An operation that fails makes no object, and the
session goes on.
-/

namespace DecisionTables

/-- A state as an operation names it. -/
inductive StateSource where
  | absent
  | contents (value : Value)
  | sources (sources : List (Scalar × Source))
  | held (state : Nat)

/-- What is done with a computation. -/
inductive ComputationOperation where
  | decide (table : String) (choice : StateSource)
  | decideByFacade (table : String) (choice : StateSource) (request : Value)
  | perform (command : String) (request : Value)
  | hasState (name : String)
  | stateFor (name : String) (fragments : List String)
  | storedState
  | withState (contents : Value)
  | selfTest (tests : Option Catalog)
  | tableNames
  | hasTable (table : String)
  | findRule (table rule : String)
  | «open» (request : Value)
  | openByFacade (choice : StateSource) (request : Value)
  | state

/-- What is done with a context. -/
inductive ContextOperation where
  | value (c : Coordinate)
  | evaluate (c : Condition)
  | outcome (table : String)
  | check (r : Rule)
  | select (table : String)
  | decideTable (t : Table)
  | write (c : Coordinate) (value : Value)
  | reload
  | perform (command : String)
  | register (name : String) (source : Source)
  | copyReset
  | performRule (r : Rule)
  | test (r : Rule)
  | verify (tests : Catalog)
  | trace
  | clearTrace
  | source (name : String)
  | state

/-- What is done with a stored state. -/
inductive StateOperation where
  | read (name fragment : String)
  | write (name fragment : String) (value : Value)
  | names
  | contains (name : String)
  | copy
  | copyReset
  | adopt (other : Nat)
  | «export»
  | values (name : String)
  | display
  | json
  | yaml

/-- What a caller does. -/
inductive Operation where
  | build (catalog commands : Catalog) (choice : StateSource)
  | buildWith (catalog : Catalog) (backend : Option Backend) (choice : StateSource)
  | load (fs : Files) (settings : Settings) (choice : StateSource)
  | newState (choice : StateSource)
  | readState (value : Value)
  | readJson (text : String)
  | readYaml (text : String)
  | openBare (request : Source)
  | computation (which : Nat) (op : ComputationOperation)
  | context (which : Nat) (op : ContextOperation)
  | state (which : Nat) (op : StateOperation)

/-- What an operation tells its caller. -/
inductive Answer where
  | done
  | truth (b : Bool)
  | text (s : String)
  | texts (ss : List String)
  | names (ss : List Scalar)
  | outcome (o : Outcome)
  | entries (a : Assoc Scalar Value)
  | judged (holds : Bool) (actual : String)
  | failures (fs : List Failure)
  | report (r : Report)
  | rule (r : Option Rule)
  | events (t : Trace)
  | source (kind : String) (name : Scalar)

/-- What an operation gives: an answer, or a new object. -/
inductive Reply where
  | answer (a : Answer)
  | computation (c : Computation)
  | context (ctx : ContextId)
  | state (id : StateId)

/-- The store and the objects that were made so far. -/
structure Session where
  store : Store
  computations : List Computation
  contexts : List ContextId
  states : List StateId

namespace Session

/-- The session before its first operation, with or without a limit on nesting. -/
def start (room : Option Nat) : Session :=
  ⟨{ Store.empty with room := room }, [], [], []⟩

/-- An object of a list; an object that was never made cannot be used. -/
def held (objects : List α) (which : Nat) : Engine α :=
  match objects[which]? with
  | some object => return object
  | none => throw .missingMember

/-- The state that an operation names. -/
def choose (s : Session) : StateSource → Engine StateChoice
  | .absent => return .absent
  | .contents value => return .contents value
  | .sources sources => return .stored (← StateId.create sources)
  | .held state => return .stored (← held s.states state)

/-- Work with a computation. -/
def onComputation (s : Session) (c : Computation) : ComputationOperation → Engine Reply
  | .decide table choice => do
    return .answer (.outcome (← c.decide table (← s.choose choice)))
  | .decideByFacade table choice request => do
    return .answer (.outcome (← c.decisions.decide table (← s.choose choice) request))
  | .perform command request => do
    c.perform command request
    return .answer .done
  | .hasState name => return .answer (.truth (← c.hasState name))
  | .stateFor name fragments => return .answer (.outcome (← c.stateFor name fragments))
  | .storedState => return .answer (.entries (← c.storedState))
  | .withState contents => return .computation (← c.withState contents)
  | .selfTest tests => return .answer (.report (← c.selfTest tests))
  | .tableNames => return .answer (.texts c.decisions.catalog.names)
  | .hasTable table => return .answer (.truth (c.decisions.catalog.contains table))
  | .findRule table rule => do
    let t ← Engine.ofEngine (c.decisions.catalog.table table)
    return .answer (.rule (t.rule? rule))
  | .open request => return .context (← c.open request)
  | .openByFacade choice request => do
    return .context (← c.decisions.open (← s.choose choice) request)
  | .state => return .state c.state

/-- Work with a context. -/
def onContext (ctx : ContextId) : ContextOperation → Engine Reply
  | .value c => return .answer (.text (← ctx.read c))
  | .evaluate c => do
    let (holds, actual) ← ctx.evaluate fun resolve => c.evaluate resolve
    return .answer (.judged holds actual)
  | .outcome table => return .answer (.outcome (← ctx.outcome table))
  | .check r => return .answer (.truth (← ctx.evaluate fun resolve => r.check resolve))
  | .select table => do
    let t ← ctx.table table
    return .answer (.text (← ctx.evaluate fun resolve => t.select resolve).name)
  | .decideTable t =>
    return .answer (.outcome (← ctx.evaluate fun resolve => t.decide resolve))
  | .write c value => do
    ctx.write c value
    return .answer .done
  | .reload => do
    ctx.reload
    return .answer .done
  | .perform command => do
    ctx.perform command
    return .answer .done
  | .register name source => do
    ctx.register name source
    return .answer .done
  | .copyReset => return .context (← ctx.copyReset)
  | .performRule r => do
    ctx.performRule r
    return .answer .done
  | .test r => return .answer (.failures (← r.test ctx))
  | .verify tests => return .answer (.report (← Report.ofCatalog ctx tests))
  | .trace => return .answer (.events (← ctx.trace))
  | .clearTrace => do
    ctx.clearTrace
    return .answer .done
  | .source name => do
    let source ← ctx.findSource name
    return .answer (.source source.kindName source.name)
  | .state => return .state ((← get).context ctx).state

/-- Work with a stored state. -/
def onState (s : Session) (id : StateId) : StateOperation → Engine Reply
  | .read name fragment => return .answer (.text (← id.read name fragment))
  | .write name fragment value => do
    id.write name fragment value
    return .answer .done
  | .names => return .answer (.names (← id.names))
  | .contains name => return .answer (.truth (← id.contains name))
  | .copy => return .state (← id.copy)
  | .copyReset => return .state (← id.copyReset)
  | .adopt other => do
    id.adopt (← held s.states other)
    return .answer .done
  | .export => return .answer (.entries (← id.export))
  | .values name => return .answer (.entries (← id.findSource name).values)
  | .display => return .answer (.text (← id.display))
  | .json => return .answer (.text (← id.toJson))
  | .yaml => return .answer (.text (← id.toYaml))

/-- Carry out an operation. -/
def perform (s : Session) : Operation → Engine Reply
  | .build catalog commands choice => do
    return .computation (← Computation.ofTables catalog commands (← s.choose choice))
  | .buildWith catalog backend choice => do
    return .computation (← Computation.ofBackend catalog backend (← s.choose choice))
  | .load fs settings choice => do
    return .computation (← Computation.load fs settings (← s.choose choice))
  | .newState choice => return .state (← (← s.choose choice).state)
  | .readState value => return .state (← StateId.ofValue value)
  | .readJson text => return .state (← StateId.ofJson text)
  | .readYaml text => return .state (← StateId.ofYaml text)
  | .openBare request => do
    return .context (← ContextId.open (← StateId.create []) none request none)
  | .computation which op => do s.onComputation (← held s.computations which) op
  | .context which op => do onContext (← held s.contexts which) op
  | .state which op => do s.onState (← held s.states which) op

/-- Keep the object that an operation made. -/
def keep (s : Session) : Reply → Answer × Session
  | .answer a => (a, s)
  | .computation c => (.done, { s with computations := s.computations ++ [c] })
  | .context ctx => (.done, { s with contexts := s.contexts ++ [ctx] })
  | .state id => (.done, { s with states := s.states ++ [id] })

/-- Carry out one operation: what it answers, and the session after it. -/
def step (s : Session) (op : Operation) : Except Fault Answer × Session :=
  let (result, store) := (s.perform op).run.run s.store
  match result with
  | .ok reply =>
    let (answer, s') := { s with store := store }.keep reply
    (.ok answer, s')
  | .error fault => (.error fault, { s with store := store })

/-- What the operations of a list answer, one after the other. -/
def answers (s : Session) : List Operation → List (Except Fault Answer)
  | [] => []
  | op :: rest => (s.step op).1 :: answers (s.step op).2 rest

/-- The session after the operations of a list. -/
def after (s : Session) : List Operation → Session
  | [] => s
  | op :: rest => after (s.step op).2 rest

end Session

end DecisionTables
