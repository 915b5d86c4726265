/-!
# Traces

What an evaluation reports while it runs.  A trace is only ever appended to by an
evaluation and never read back by it.
-/

namespace DecisionTables

/-- The kinds of events. -/
inductive EventKind where
  | condition
  | rule
  | table
  | command
  deriving DecidableEq, Repr

namespace EventKind

/-- The code of a kind. -/
def code : EventKind → String
  | condition => "CN"
  | rule => "RL"
  | table => "TB"
  | command => "CM"

/-- The kind with a code. -/
def ofCode? (s : String) : Option EventKind :=
  [condition, rule, table, command].find? fun kind => kind.code == s

@[simp] theorem ofCode?_code (kind : EventKind) : ofCode? kind.code = some kind := by
  cases kind <;> rfl

end EventKind

/-- One step of an evaluation. -/
inductive Event where
  | condition (text : String) (holds : Bool)
  | rule (name : String) (holds : Bool)
  | table (name : String) (selected : String)
  | command (name : String)
  deriving DecidableEq, Repr

namespace Event

/-- The kind of an event. -/
def kind : Event → EventKind
  | condition .. => .condition
  | rule .. => .rule
  | table .. => .table
  | command .. => .command

/-- A step and its result. -/
def arrow (step result : String) : String :=
  step ++ " => " ++ result

/-- The word for a truth value. -/
def truthWord (b : Bool) : String :=
  if b then "True" else "False"

/-- The event as text. -/
def description : Event → String
  | condition text holds => arrow text (truthWord holds)
  | rule name holds => arrow name (truthWord holds)
  | table name selected => arrow name selected
  | command name => name

end Event

/-- The events of an evaluation in the order in which they happened. -/
abbrev Trace := Array Event

/-- The events of one kind. -/
def Trace.ofKind (t : Trace) (kind : EventKind) : Trace :=
  Array.filter (fun e => e.kind = kind) t

end DecisionTables
