import DecisionTables.Table

/-!
# Sources

What a coordinate is resolved in: stored values, the constants, the outcome of a
table, or named conditions.
-/

namespace DecisionTables

/-- What stored values are kept for. -/
inductive MemoryKind where
  /-- Durable state. -/
  | stored
  /-- The payload of one request. -/
  | request
  deriving DecidableEq, Repr

/-- Where the fragments of a source come from. -/
inductive Content where
  /-- Values that may be written, and the values they are reset to. -/
  | memory (kind : MemoryKind) (values defaults : Assoc Scalar Value)
  /-- Every fragment is its own value. -/
  | constant
  /-- The outcome of a table. -/
  | table (table : Table)
  /-- The results of named conditions. -/
  | conditions (named : Assoc String Condition)
  /-- Nothing can be read. -/
  | bare
  deriving Inhabited

/-- A source and the name it gives itself. -/
structure Source where
  name : Scalar
  content : Content
  deriving Inhabited

namespace Source

/-- The name of a source of named conditions. -/
def conditionsName : String := "conditions"

/-- Stored values. -/
def stored (name : Scalar) (values defaults : Assoc Scalar Value) : Source :=
  ⟨name, .memory .stored values defaults⟩

/-- The payload of a request. -/
def request (name : Scalar) (values defaults : Assoc Scalar Value) : Source :=
  ⟨name, .memory .request values defaults⟩

/-- The payload of a request under its usual name. -/
def requestOf (values : Assoc Scalar Value) : Source :=
  request (.text requestSource) values []

/-- The source of constants. -/
def constant : Source := ⟨.text Coordinate.constantSource, .constant⟩

/-- The outcome of a table, under the name of the table. -/
def ofTable (t : Table) : Source := ⟨.text t.name, .table t⟩

/-- Named conditions; of a repeated name the last condition counts. -/
def ofConditions (named : List (String × Condition)) : Source :=
  ⟨.text conditionsName, .conditions (Assoc.ofList named)⟩

/-- A source from which nothing can be read. -/
def bare : Source := ⟨.text "", .bare⟩

/-- Take a name unless there is one already. -/
def nameIfBlank (name : Scalar) (s : Source) : Source :=
  if s.name.isBlank then { s with name := name } else s

/-- The source with its values reset to their defaults. -/
def reset (s : Source) : Source :=
  match s.content with
  | .memory kind _ defaults => { s with content := .memory kind defaults defaults }
  | _ => s

/-- The values that belong to the state; only stored values do. -/
def values (s : Source) : Assoc Scalar Value :=
  match s.content with
  | .memory _ values _ => values
  | _ => []

/-- Write a fragment; only stored values can be written. -/
def write (s : Source) (fragment : String) (value : Value) : Except EngineError Source :=
  match s.content with
  | .memory kind values defaults =>
    .ok { s with content := .memory kind (values.insert (.text fragment) value) defaults }
  | _ => .error (.readOnly fragment s.name)

/-- The word for the kind of a source. -/
def kindName (s : Source) : String :=
  match s.content with
  | .memory .stored _ _ => "InMemoryLocator"
  | .memory .request _ _ => "RequestLocator"
  | .constant => "ConstantLocator"
  | .table _ => "TableLocator"
  | .conditions _ => "ConditionsLocator"
  | .bare => "Locator"

/-- A source of stored values as it is shown. -/
def display (s : Source) : String :=
  s.kindName ++ "(" ++ (Value.mapping s.values).display ++ ")"

/-- How much room for nesting lies between a coordinate and those that are resolved for it. -/
def steps (s : Source) : Nat :=
  match s.content with
  | .table _ => 12
  | .conditions _ => 7
  | _ => 0

/-- The number of tables behind the source. -/
def tableCount (s : Source) : Nat :=
  match s.content with
  | .table _ => 1
  | _ => 0

/-- The number of named conditions behind the source. -/
def conditionCount (s : Source) : Nat :=
  match s.content with
  | .conditions named => named.length
  | _ => 0

@[simp] theorem reset_reset (s : Source) : s.reset.reset = s.reset := by
  obtain ⟨name, content⟩ := s
  cases content <;> rfl

@[simp] theorem name_reset (s : Source) : s.reset.name = s.name := by
  obtain ⟨name, content⟩ := s
  cases content <;> rfl

@[simp] theorem kindName_reset (s : Source) : s.reset.kindName = s.kindName := by
  obtain ⟨name, content⟩ := s
  cases content with
  | memory kind values defaults => cases kind <;> rfl
  | _ => rfl

end Source

end DecisionTables
