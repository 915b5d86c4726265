import DecisionTables.Loading
import DecisionTables.State.Exchange

/-!
# Walkthrough

A guided tour of the engine on a directory of resources: load the tables, decide,
perform a command, decide again, and test.  The tour tells what it does line by
line, and a fault ends it after the lines that were told before.
-/

namespace DecisionTables

/-- How far a tour has come: the lines that were told, last line first, and the store. -/
structure Tour where
  told : List String
  store : Store

/-- A part of a tour. -/
abbrev Walkthrough := ExceptT Fault (StateM Tour)

namespace Walkthrough

/-- Tell a line. -/
def tell (line : String) : Walkthrough Unit :=
  modify fun tour => { tour with told := line :: tour.told }

/-- Tell several lines. -/
def tellAll (lines : List String) : Walkthrough Unit :=
  modify fun tour => { tour with told := lines.reverse ++ tour.told }

/-- Work on the store. -/
def work (step : Engine α) : Walkthrough α :=
  ExceptT.mk fun tour =>
    let (result, store) := step.run.run tour.store
    (result, { tour with store })

/-- Begin a chapter. -/
def chapter (title : String) : Walkthrough Unit :=
  tellAll ["", title]

/-- The rule above and below the headline. -/
def rule : String :=
  String.ofList (List.replicate 80 '=')

/-- The headline. -/
def headline : String :=
  "COMPLETE PIPELINE DEMO: tables → decisions → commands → self-test"

/-- The state that the tour starts from. -/
def initialState : Value :=
  .mapping [
    (.text "data", .mapping [(.text "is-stored", .scalar (.bool false))]),
    (.text "market", .mapping [(.text "shop", .scalar (.int 2))]),
    (.text "currentPlayer", .mapping [(.text "name", .text "nobody")])]

/-- The table that is decided. -/
def sampleTable : String := "sample-table"

/-- The command that is performed. -/
def command : String := "add-player"

/-- The request of the command. -/
def request : Value :=
  .mapping [(.text "name", .text "Eugene")]

/-- Tell the outcome of the table that is decided. -/
def tellDecision (c : Computation) : Walkthrough Unit := do
  let outcome ← work (c.decide sampleTable .absent)
  let shown := Value.mapping (outcome.map fun entry => (.text entry.1, .text entry.2))
  tell ("   ✓ " ++ sampleTable ++ ": " ++ shown.display)

/-- The tables that settings tell of as tests; sheets are read in the plain way. -/
def loadTests (fs : Files) (settings : Settings) : Except Fault Catalog :=
  match settings.tests with
  | none => .error .wrongType
  | some directory => Catalog.load fs directory ({} : Settings).extension ({} : Settings).delimiter

/-- The whole tour of a directory of resources. -/
def tour (fs : Files) (resources : String) : Walkthrough Unit := do
  let settings ← work (Engine.ofExcept (Settings.load fs (Path.join resources "engine.yaml")))
  tellAll [rule, headline, rule]
  chapter "1. LOADING TABLES..."
  let c ← work (Computation.load fs settings (.contents initialState))
  tell ("   ✓ Decision tables: " ++ (Value.list (c.decisions.catalog.names.map .text)).display)
  chapter "2. DECIDING..."
  tellDecision c
  chapter ("3. PERFORMING " ++ command ++ "...")
  work (c.perform command request)
  tellDecision c
  tell "   ✓ Stored state:"
  let state ← work c.state.toYaml
  tellAll ((Text.splitLines state).map fun line => "      " ++ line)
  chapter "4. SELF-TESTING..."
  let report ← work do c.selfTest (some (← Engine.ofExcept (loadTests fs settings)))
  tellAll ((Text.splitLines report.summary).map fun line => "   " ++ line)
  tellAll ["", if report.isPassed then "✅ Done" else "❌ Self-test failed"]

/-- The lines that the tour of a directory of resources tells, and what it ends with. -/
def ofResources (fs : Files) (resources : String) : List String × Except Fault Unit :=
  let (result, last) := (tour fs resources).run.run ⟨[], .bounded⟩
  (last.told.reverse, result)

end Walkthrough

end DecisionTables
