import DecisionTables.Context

/-!
# Self-tests

Every rule is its own test.  Its assignments and the command it names are carried
out on a copy of the state that is reset to its defaults, and then its conditions
must hold there.
-/

namespace DecisionTables

/-- A condition that does not hold, and the text of its subject. -/
structure Failure where
  condition : String
  actual : String
  deriving DecidableEq, Repr

/-- The conditions of a list that do not hold; unlike in a decision, all are evaluated. -/
def Condition.failures (resolve : Resolver) : List Condition → Evaluation (List Failure)
  | [] => return []
  | c :: rest => do
    let (holds, actual) ← c.evaluate resolve
    let others ← failures resolve rest
    return if holds then others else ⟨c.text, actual⟩ :: others

/-- Prepare a context for the check of a rule. -/
def Rule.prepare (r : Rule) (ctx : ContextId) : Engine Unit := do
  ctx.performRule r
  if let some command := r.outcome.find? executeOutcome then ctx.perform command
  ctx.reload

/-- The failures of a rule on a reset copy of a context, which reports to the same trace. -/
def Rule.test (r : Rule) (ctx : ContextId) : Engine (List Failure) := do
  let copy ← ctx.copyReset
  r.prepare copy
  copy.evaluate fun resolve => Condition.failures resolve r.conditions

/-- The results of testing a list of tables. -/
structure Report where
  /-- The number of tables. -/
  tables : Int
  /-- The number of rules. -/
  rules : Int
  passed : List String
  failures : Assoc String (List Failure)
  errors : Assoc String String
  deriving DecidableEq, Repr

namespace Report

/-- Nothing has been tested. -/
def empty : Report := ⟨0, 0, [], [], []⟩

/-- Every rule passed. -/
def isPassed (r : Report) : Bool :=
  r.failures.isEmpty && r.errors.isEmpty

/-- The lines about a rule that failed. -/
def failureLines (entry : String × List Failure) : List String :=
  ("FAILED " ++ entry.1) ::
    entry.2.map fun f => "  " ++ f.condition ++ " (actual: '" ++ f.actual ++ "')"

/-- The line about a rule that could not be tested. -/
def errorLine (entry : String × String) : String :=
  "ERROR " ++ entry.1 ++ ": " ++ entry.2

/-- The report as text. -/
def summary (r : Report) : String :=
  let total := toString r.passed.length ++ "/" ++ toString r.rules ++ " rule(s) passed in " ++
    toString r.tables ++ " table(s)"
  "\n".intercalate (total :: r.failures.flatMap failureLines ++ r.errors.map errorLine)

/-- Count a rule and what its test gave. -/
def addRule (report : Report) (name : String) : Except EngineError (List Failure) → Report
  | .error error =>
    { report with rules := report.rules + 1, errors := report.errors.insert name error.message }
  | .ok [] => { report with rules := report.rules + 1, passed := report.passed ++ [name] }
  | .ok failures =>
    { report with rules := report.rules + 1, failures := report.failures.insert name failures }

/-- Test rules one after the other; an error of the engine is recorded, any other fault ends the
run. -/
def addRules (ctx : ContextId) (report : Report) : List Rule → Engine Report
  | [] => return report
  | r :: rest => do
    let result ← tryCatch (Except.ok <$> r.test ctx) fun fault =>
      match fault with
      | .engine error => return .error error
      | other => throw other
    addRules ctx (report.addRule r.name result) rest

/-- Test the declared rules of tables one after the other. -/
def addTables (ctx : ContextId) (report : Report) : List Table → Engine Report
  | [] => return report
  | t :: rest => do
    addTables ctx (← addRules ctx { report with tables := report.tables + 1 } t.rules) rest

/-- Test all declared rules of a catalog. -/
def ofCatalog (ctx : ContextId) (c : Catalog) : Engine Report :=
  addTables ctx .empty c.tables

end Report

end DecisionTables
