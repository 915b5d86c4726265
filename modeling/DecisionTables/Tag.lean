/-!
# Row tags

The four kinds of rows of a table sheet.
-/

namespace DecisionTables

/-- What a row of a sheet holds. -/
inductive Tag where
  | header
  | condition
  | outcome
  | assignment
  deriving DecidableEq, Repr

namespace Tag

/-- All tags, in the order in which sheets are checked. -/
def all : List Tag := [header, condition, outcome, assignment]

/-- The tag as it is written in front of a row. -/
def label : Tag → String
  | header => "HDR"
  | condition => "CND"
  | outcome => "OUT"
  | assignment => "ASG"

/-- The tag with a label. -/
def ofLabel? (s : String) : Option Tag :=
  all.find? fun tag => tag.label == s

@[simp] theorem ofLabel?_label (tag : Tag) : ofLabel? tag.label = some tag := by
  cases tag <;> decide

theorem label_of_ofLabel? {s : String} {tag : Tag} (h : ofLabel? s = some tag) :
    tag.label = s := by
  simpa using List.find?_some h

end Tag

end DecisionTables
