import DecisionTables.Rule

/-!
# Tables

A decision table is a list of rules and a fallback.  A catalog is a collection of
tables that are found by name.
-/

namespace DecisionTables

/-- Declared rules and the rule that applies when none of them does. -/
structure Table where
  name : String
  rules : List Rule
  otherwise : Rule
  deriving DecidableEq, Repr

namespace Table

/-- A table whose fallback is given or is the plain one. -/
def make (name : String) (rules : List Rule) (otherwise : Option Rule) : Table :=
  ⟨name, rules, otherwise.getD (Rule.otherwise name [])⟩

/-- The rule with a full name, or with a name that is a label of this table. -/
def rule? (t : Table) (name : String) : Option Rule :=
  (t.rules ++ [t.otherwise]).find? fun rule =>
    rule.name == name || rule.name == t.name ++ Coordinate.separator ++ name

end Table

/-- Tables under their names, in the order of first definition. -/
structure Catalog where
  entries : Assoc String Table
  deriving DecidableEq, Repr

namespace Catalog

/-- The catalog without tables. -/
def empty : Catalog := ⟨[]⟩

/-- The catalog of a list of tables; the last table of a name counts, at the place of the first. -/
def ofList (tables : List Table) : Catalog :=
  ⟨Assoc.ofList (tables.map fun t => (t.name, t))⟩

/-- The tables in order. -/
def tables (c : Catalog) : List Table :=
  c.entries.values

/-- The names in order. -/
def names (c : Catalog) : List String :=
  c.entries.keys

/-- The number of tables. -/
def size (c : Catalog) : Nat :=
  c.entries.length

/-- A table has the name. -/
def contains (c : Catalog) (name : String) : Bool :=
  c.entries.contains name

/-- The table with a name. -/
def table (c : Catalog) (name : String) : Except EngineError Table :=
  match c.entries.find? name with
  | some t => .ok t
  | none => .error (.unknownTable name)

@[simp] theorem length_names (c : Catalog) : c.names.length = c.size := by
  simp [names, size, Assoc.keys]

@[simp] theorem length_tables (c : Catalog) : c.tables.length = c.size := by
  simp [tables, size, Assoc.values]

end Catalog

end DecisionTables
