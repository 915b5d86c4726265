import DecisionTables.Fault

/-!
# Nesting

Lists and mappings may hold each other, but only so deep: a reader or writer that
has no room left stops.  Tables and named conditions that refer to each other are
limited likewise.  How much room there is for each is fixed here.
-/

namespace DecisionTables

namespace Nesting

/-- The room for tables and named conditions that are computed for each other. -/
def evaluationRoom : Nat := 980

/-- The most levels that a JSON text may have. -/
def jsonRoom : Nat := 989

/-- The most levels that a YAML text may have. -/
def yamlRoom : Nat := 488

/-- The most levels of a state that can be exported. -/
def exportRoom : Nat := 490

/-- The most levels of a state that can be written as YAML. -/
def yamlWritingRoom : Nat := 328

/-- Go down one level, if there is room for it. -/
def descend (room : Nat) (inside : Nat → Except Fault α) : Except Fault α :=
  match room with
  | 0 => .error .tooDeep
  | room + 1 => inside room

@[simp] theorem descend_succ (room : Nat) (inside : Nat → Except Fault α) :
    descend (room + 1) inside = inside room := rfl

/-- Without room every level is too deep. -/
@[simp] theorem descend_zero (inside : Nat → Except Fault α) :
    descend 0 inside = .error .tooDeep := rfl

/-- A state that can be written as YAML can be exported and read again. -/
theorem yamlWritingRoom_le : yamlWritingRoom ≤ exportRoom ∧ yamlWritingRoom ≤ yamlRoom := by
  decide

/-- A state that can be exported can be read again from JSON. -/
theorem exportRoom_le : exportRoom ≤ jsonRoom := by
  decide

end Nesting

namespace Value

mutual

/-- How many levels of lists and mappings a value has. -/
def depth : Value → Nat
  | scalar _ => 0
  | list items => itemsDepth items + 1
  | mapping entries => entriesDepth entries + 1

/-- How many levels the deepest item of a list has. -/
def itemsDepth : List Value → Nat
  | [] => 0
  | item :: rest => max (depth item) (itemsDepth rest)

/-- How many levels the deepest value of a mapping has. -/
def entriesDepth : List (Scalar × Value) → Nat
  | [] => 0
  | (_, value) :: rest => max (depth value) (entriesDepth rest)

end

end Value

end DecisionTables
