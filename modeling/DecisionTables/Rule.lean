import DecisionTables.Cell
import DecisionTables.Coordinate

/-!
# Rules

A rule is one column of a decision table: conditions on the state, the outcomes
it yields, and the assignments that make it a command.
-/

namespace DecisionTables

/-- A cell bound to the coordinate it is checked against. -/
structure Condition where
  subject : Coordinate
  cell : Cell
  deriving DecidableEq, Repr

namespace Condition

/-- The condition of a row subject and a cell. -/
def parse (subject cell : String) : Condition :=
  ⟨Coordinate.parse subject, Cell.parse cell⟩

/-- The condition as text. -/
def text (c : Condition) : String :=
  c.subject.text ++ " " ++ c.cell.text

end Condition

/-- The source of the incoming request. -/
def requestSource : String := "request"

/-- Writes to a coordinate what another coordinate holds; a literal is a constant. -/
structure Assignment where
  target : Coordinate
  value : String
  deriving DecidableEq, Repr

namespace Assignment

/-- The assignment of a row subject and a cell. -/
def parse (target value : String) : Assignment :=
  ⟨Coordinate.parse target, value⟩

/-- The coordinate that is read. -/
def source (a : Assignment) : Coordinate :=
  Coordinate.parse a.value

/-- The request fragments that are read. -/
def arguments (a : Assignment) : List String :=
  if a.source.source == requestSource then [a.source.fragment] else []

/-- The assignment as text. -/
def text (a : Assignment) : String :=
  a.target.text ++ " := " ++ a.value

end Assignment

/-- What a fragment of a rule is: the cell of a tagged row, or a remark without effect. -/
inductive FragmentKind where
  | row (tag : Tag)
  | remark (label : String)
  deriving DecidableEq, Repr

namespace FragmentKind

/-- The kind with a label. -/
def ofLabel (s : String) : FragmentKind :=
  match Tag.ofLabel? s with
  | some tag => .row tag
  | none => .remark s

/-- The label of a kind. -/
def label : FragmentKind → String
  | row tag => tag.label
  | remark s => s

@[simp] theorem label_ofLabel (s : String) : (ofLabel s).label = s := by
  unfold ofLabel
  split
  · next h => exact Tag.label_of_ofLabel? h
  · rfl

end FragmentKind

/-- One cell that belongs to a rule, with the subject of its row. -/
structure Fragment where
  kind : FragmentKind
  name : String
  value : String
  deriving DecidableEq, Repr

namespace Fragment

/-- The condition of a fragment that is one. -/
def condition? (f : Fragment) : Option Condition :=
  if f.kind = .row .condition then some (Condition.parse f.name f.value) else none

/-- The outcome of a fragment that is one. -/
def outcome? (f : Fragment) : Option (String × String) :=
  if f.kind = .row .outcome then some (f.name, f.value) else none

/-- The assignment of a fragment that is one. -/
def assignment? (f : Fragment) : Option Assignment :=
  if f.kind = .row .assignment then some (Assignment.parse f.name f.value) else none

end Fragment

/-- What a decision yields: named texts. -/
abbrev Outcome := Assoc String String

/-- A named list of fragments. -/
structure Rule where
  name : String
  fragments : List Fragment
  deriving DecidableEq, Repr

namespace Rule

/-- The label of the rule that applies when no other does. -/
def otherwiseLabel : String := "else"

/-- The outcome that names what was decided. -/
def verdictOutcome : String := "outcome"

/-- The outcome that names a command to run before a rule is tested. -/
def executeOutcome : String := "execute"

/-- The conditions in declaration order. -/
def conditions (r : Rule) : List Condition :=
  r.fragments.filterMap Fragment.condition?

/-- The assignments in declaration order. -/
def assignments (r : Rule) : List Assignment :=
  r.fragments.filterMap Fragment.assignment?

/-- The outcomes; of a repeated name the last value counts. -/
def outcome (r : Rule) : Outcome :=
  Assoc.ofList (r.fragments.filterMap Fragment.outcome?)

/-- A rule with an assignment describes a command. -/
def describesCommand (r : Rule) : Bool :=
  !r.assignments.isEmpty

/-- The request fragments that the assignments read. -/
def arguments (r : Rule) : List String :=
  r.assignments.flatMap Assignment.arguments

/-- The outcomes of a fallback rule: the given ones, with the verdict forced.  They may be more than
texts, so `name` and `value` say what stands for a text among them. -/
def otherwiseOutcomes [BEq κ] (name : String → κ) (value : String → ν) (outcomes : Assoc κ ν) :
    Assoc κ ν :=
  outcomes.insert (name verdictOutcome) (value otherwiseLabel)

/-- The fallback rule of a table. -/
def otherwise (table : String) (outcomes : Outcome) : Rule :=
  ⟨table ++ Coordinate.separator ++ otherwiseLabel,
    (otherwiseOutcomes id id outcomes).map fun entry => ⟨.row .outcome, entry.1, entry.2⟩⟩

end Rule

end DecisionTables
