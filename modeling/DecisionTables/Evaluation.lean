import DecisionTables.Source
import DecisionTables.Trace

/-!
# Evaluation

How conditions, rules and tables are evaluated against sources.  Every step takes
the way in which coordinates are resolved as an argument, so the only recursion
is in `Scope.resolveWithin`: resolving a coordinate may evaluate a table or a
named condition, which resolves further coordinates.  `Scope.resolve` starts it
with a depth that only an endless chain of named conditions can exceed; besides,
the room for nesting may be limited.
-/

namespace DecisionTables

/-- The identity of a source. -/
structure SourceId where
  index : Nat
  deriving DecidableEq, Repr, Inhabited

/-- What one context remembers between reads. -/
structure Memo where
  /-- Outcomes of tables that were computed. -/
  outcomes : Assoc String Outcome
  /-- Results of named conditions that were computed. -/
  verdicts : Assoc (SourceId × String) String
  /-- Tables that are being computed. -/
  computing : List String

/-- Nothing has been computed yet. -/
def Memo.empty : Memo := ⟨[], [], []⟩

/-- What an evaluation changes: the memory of its context and its trace. -/
structure Progress where
  memo : Memo
  trace : Trace

/-- A step of an evaluation; what it has remembered and reported outlasts a fault. -/
abbrev Evaluation := ExceptT Fault (StateM Progress)

/-- How the text of a coordinate is found. -/
abbrev Resolver := Coordinate → Evaluation String

namespace Evaluation

/-- Stop with an error of the engine. -/
def fail (error : EngineError) : Evaluation α :=
  throw (.engine error)

/-- Take a result that may be an error of the engine. -/
def ofExcept : Except EngineError α → Evaluation α
  | .ok a => pure a
  | .error error => fail error

/-- Report an event. -/
def report (event : Event) : Evaluation Unit :=
  modify fun p => { p with trace := p.trace.push event }

/-- Mark a table as being computed while a step runs, however the step ends. -/
def computing (table : String) (step : Evaluation α) : Evaluation α :=
  ExceptT.mk do
    modify fun p => { p with memo := { p.memo with computing := table :: p.memo.computing } }
    let result ← step.run
    modify fun p =>
      { p with memo := { p.memo with computing := p.memo.computing.erase table } }
    return result

end Evaluation

/-- Whether a condition holds, and the text of its subject. -/
def Condition.evaluate (resolve : Resolver) (c : Condition) : Evaluation (Bool × String) := do
  let actual ← resolve c.subject
  let holds ← Evaluation.ofExcept (c.cell.accepts actual)
  Evaluation.report (.condition c.text holds)
  return (holds, actual)

/-- Whether all conditions hold; the first that does not ends the evaluation. -/
def Condition.allHold (resolve : Resolver) : List Condition → Evaluation Bool
  | [] => return true
  | c :: rest => do
    let (holds, _) ← c.evaluate resolve
    if holds then allHold resolve rest else return false

/-- Whether a rule is satisfied. -/
def Rule.check (resolve : Resolver) (r : Rule) : Evaluation Bool := do
  let holds ← Condition.allHold resolve r.conditions
  Evaluation.report (.rule r.name holds)
  return holds

/-- The satisfied rules of a list. -/
def Rule.satisfied (resolve : Resolver) : List Rule → Evaluation (List Rule)
  | [] => return []
  | r :: rest => do
    let holds ← r.check resolve
    let others ← satisfied resolve rest
    return if holds then r :: others else others

namespace Table

/-- The only satisfied rule, if there is one; several are an error. -/
def satisfiedRule? (resolve : Resolver) (t : Table) : Evaluation (Option Rule) := do
  match ← Rule.satisfied resolve t.rules with
  | [] =>
    Evaluation.report (.table t.name t.otherwise.name)
    return none
  | [r] =>
    Evaluation.report (.table t.name r.name)
    return some r
  | several => Evaluation.fail (.ambiguousRules t.name (several.map Rule.name))

/-- The rule that applies: the only satisfied one, else the fallback. -/
def select (resolve : Resolver) (t : Table) : Evaluation Rule :=
  return (← t.satisfiedRule? resolve).getD t.otherwise

/-- The outcome of the rule that applies. -/
def decide (resolve : Resolver) (t : Table) : Evaluation Outcome :=
  return (← t.select resolve).outcome

/-- The outcome of a table, computed once; a table that needs its own outcome is an error. -/
def decideOnce (resolve : Resolver) (t : Table) : Evaluation Outcome := do
  let memo := (← get).memo
  match memo.outcomes.find? t.name with
  | some outcome => return outcome
  | none =>
    if memo.computing.contains t.name then Evaluation.fail (.cyclicTable t.name)
    let outcome ← Evaluation.computing t.name (t.decide resolve)
    modify fun p =>
      { p with memo := { p.memo with outcomes := p.memo.outcomes.insert t.name outcome } }
    return outcome

end Table

/-- The result of a named condition as text, computed once. -/
def Condition.decideOnce (resolve : Resolver) (id : SourceId) (name : String) (c : Condition) :
    Evaluation String := do
  match (← get).memo.verdicts.find? (id, name) with
  | some text => return text
  | none =>
    let (holds, _) ← c.evaluate resolve
    let text := Value.fragmentText (.scalar (.bool holds))
    modify fun p =>
      { p with memo := { p.memo with verdicts := p.memo.verdicts.insert (id, name) text } }
    return text

/-- The text of a fragment of a source. -/
def Source.read (resolve : Resolver) (id : SourceId) (s : Source) (fragment : String) :
    Evaluation String :=
  match s.content with
  | .memory _ values _ =>
    match values.find? (.text fragment) with
    | some value => return value.fragmentText
    | none => Evaluation.fail (.missingFragment fragment s.name)
  | .constant => return fragment
  | .table t => do
    match (← t.decideOnce resolve).find? fragment with
    | some text => return text
    | none => Evaluation.fail (.missingOutcome t.name fragment)
  | .conditions named =>
    match named.find? fragment with
    | some c => c.decideOnce resolve id fragment
    | none => Evaluation.fail (.unknownCondition fragment)
  | .bare => throw .notProvided

/-- The sources that an evaluation can see, each under the name it is registered by. -/
abbrev Scope := Assoc Scalar (SourceId × Source)

namespace Scope

/-- The room that is left below a source; `none` when there is not enough of it. -/
def roomBelow (source : Source) : Option Nat → Option (Option Nat)
  | none => some none
  | some room => if room < source.steps then none else some (some (room - source.steps))

/-- Resolve a coordinate through at most `depth` further coordinates, in the room for nesting if
that is limited. -/
def resolveWithin (scope : Scope) : Nat → Option Nat → Resolver
  | 0, _, _ => throw .tooDeep
  | depth + 1, room, c =>
    match Assoc.find? scope (.text c.source) with
    | none => Evaluation.fail (.unknownSource c.source)
    | some (id, source) =>
      match roomBelow source room with
      | some left => source.read (resolveWithin scope depth left) id c.fragment
      | none => source.read (fun _ => throw .tooDeep) id c.fragment

/-- The tables in scope. -/
def tableCount : Scope → Nat
  | [] => 0
  | (_, _, source) :: rest => source.tableCount + tableCount rest

/-- The named conditions in scope. -/
def conditionCount : Scope → Nat
  | [] => 0
  | (_, _, source) :: rest => source.conditionCount + conditionCount rest

/-- The longest chain of coordinates that can end: a chain enters a table only while the table
is not being computed, and passes each named condition at most once before the next table. -/
def depth (scope : Scope) : Nat :=
  (scope.tableCount + 1) * (scope.conditionCount + 1)

/-- Resolve a coordinate, in the room for nesting if that is limited. -/
def resolve (scope : Scope) (room : Option Nat) : Resolver :=
  scope.resolveWithin scope.depth room

/-- Read a fragment of a source itself, as deep and in the room that there is by its coordinate. -/
def readFrom (scope : Scope) (room : Option Nat) (id : SourceId) (source : Source)
    (fragment : String) : Evaluation String :=
  match roomBelow source room with
  | some left => source.read (scope.resolveWithin (scope.depth - 1) left) id fragment
  | none => source.read (fun _ => throw .tooDeep) id fragment

@[simp] theorem roomBelow_none (source : Source) : roomBelow source none = some none := rfl

/-- Without a limit all room is left for the next coordinate. -/
theorem resolveWithin_none (scope : Scope) (depth : Nat) (c : Coordinate) :
    scope.resolveWithin (depth + 1) none c =
      match Assoc.find? scope (.text c.source) with
      | none => Evaluation.fail (.unknownSource c.source)
      | some (id, source) => source.read (scope.resolveWithin depth none) id c.fragment := by
  rfl

/-- A coordinate is resolved by reading from the source that is found under its name. -/
theorem resolve_eq_readFrom {scope : Scope} {c : Coordinate} {id : SourceId} {source : Source}
    (found : Assoc.find? scope (.text c.source) = some (id, source)) (room : Option Nat) :
    scope.resolve room c = scope.readFrom room id source c.fragment := by
  have deep : scope.depth = scope.depth - 1 + 1 :=
    (Nat.sub_add_cancel (Nat.mul_pos (Nat.succ_pos _) (Nat.succ_pos _))).symm
  rw [resolve, deep, resolveWithin, found]
  rfl

end Scope

end DecisionTables
