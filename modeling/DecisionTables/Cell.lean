import DecisionTables.Fault
import DecisionTables.Numeral.Reader

/-!
# Condition cells

The small language of condition cells.  A cell is a tilde, which always holds, a
comparison with a number, or a literal that the value must equal; a leading
exclamation mark inverts the rest.
-/

namespace DecisionTables

/-- How a cell compares a value with its literal. -/
inductive Operator where
  | any
  | greaterThan
  | lessThan
  | equals
  deriving DecidableEq, Repr

namespace Operator

/-- The sign of an operator; equality has none. -/
def sign : Operator → String
  | any => "~"
  | greaterThan => ">"
  | lessThan => "<"
  | equals => ""

end Operator

/-- A parsed condition cell. -/
structure Cell where
  operator : Operator
  literal : String
  negated : Bool
  deriving DecidableEq, Repr

namespace Cell

/-- The operator and the literal of a cell without its exclamation mark. -/
def parseBody (negated : Bool) : List Char → Cell
  | ['~'] => ⟨.any, "", negated⟩
  | '>' :: literal => ⟨.greaterThan, String.ofList literal, negated⟩
  | '<' :: literal => ⟨.lessThan, String.ofList literal, negated⟩
  | literal => ⟨.equals, String.ofList literal, negated⟩

/-- The cell that a text denotes; only one exclamation mark inverts. -/
def parse (text : String) : Cell :=
  match text.toList with
  | '!' :: body => parseBody true body
  | body => parseBody false body

/-- The cell as text. -/
def text (cell : Cell) : String :=
  (if cell.negated then "!" else "") ++ cell.operator.sign ++ cell.literal

/-- The number that a text stands for in a cell. -/
def number (cell : Cell) (s : String) : Except EngineError Binary64 :=
  match Numeral.read? s with
  | some x => .ok x
  | none => .error (.notNumeric s cell.text)

/-- The cell without its negation holds of a value. -/
def holds (cell : Cell) (value : String) : Except EngineError Bool :=
  match cell.operator with
  | .any => .ok true
  | .equals => .ok (value == cell.literal)
  | .greaterThan => do
    let left ← cell.number value
    let right ← cell.number cell.literal
    return right.lt left
  | .lessThan => do
    let left ← cell.number value
    let right ← cell.number cell.literal
    return left.lt right

/-- The cell holds of a value. -/
def accepts (cell : Cell) (value : String) : Except EngineError Bool :=
  (cell.holds value).map fun result => result != cell.negated

@[simp] theorem holds_any (literal value : String) (negated : Bool) :
    holds ⟨.any, literal, negated⟩ value = .ok true := rfl

@[simp] theorem holds_equals (literal value : String) (negated : Bool) :
    holds ⟨.equals, literal, negated⟩ value = .ok (value == literal) := rfl

@[simp] theorem parseBody_negated (negated : Bool) (body : List Char) :
    (parseBody negated body).negated = negated := by
  unfold parseBody
  split <;> rfl

end Cell

end DecisionTables
