import DecisionTables.Record
import DecisionTables.Table
import DecisionTables.Text.Lines

/-!
# Sheets

The source form of a table.  A row is a subject and a column is a rule, so a
sheet is turned by its diagonal when it becomes a table.  Outcome and header rows
may have one column more than there are rules: the values of the fallback rule.
-/

namespace DecisionTables

/-- The records of one sheet in source order. -/
structure Sheet where
  name : String
  records : List Record
  deriving DecidableEq, Repr

namespace Sheet

/-- The records with a tag. -/
def rows (s : Sheet) (tag : Tag) : List Record :=
  s.records.filter fun r => r.tag = tag

/-- The number of values in the rows with a tag. -/
def width? (s : Sheet) (tag : Tag) : Option Nat :=
  (s.rows tag).head?.map Record.width

/-- The number of rules: the width of the conditions, else of the assignments, else of the
outcomes. -/
def ruleCount (s : Sheet) : Nat :=
  (((s.width? .condition).or (s.width? .assignment)).or (s.width? .outcome)).getD 0

/-- The name of the table: the subject of the header, else the name of the sheet. -/
def tableName (s : Sheet) : String :=
  ((s.rows .header).head?.map Record.subject).getD s.name

/-- The different widths of the rows with a tag, in ascending order. -/
def widths (s : Sheet) (tag : Tag) : List Nat :=
  ((s.rows tag).map Record.width).eraseDups.mergeSort

/-- All rows with a tag are equally wide. -/
def isEven (s : Sheet) (tag : Tag) : Bool :=
  (s.rows tag).all fun r => some r.width == s.width? tag

/-- The widths that the rows with a tag may have. -/
def allowsWidth (s : Sheet) (tag : Tag) (width : Nat) : Bool :=
  match tag with
  | .condition | .assignment => width == s.ruleCount
  | .header | .outcome => width == s.ruleCount || width == s.ruleCount + 1

/-- The order in which the widths of the tags are compared with the number of rules. -/
def widthOrder : List Tag := [.condition, .assignment, .header, .outcome]

/-- The first thing that is wrong with the shape of a sheet. -/
def defect? (s : Sheet) : Option EngineError :=
  let uneven := Tag.all.find? fun tag => !s.isEven tag
  let misfit := widthOrder.findSome? fun tag =>
    (s.width? tag).bind fun width => if s.allowsWidth tag width then none else some (tag, width)
  match uneven with
  | some tag => some (.unevenRows tag s.name (s.widths tag))
  | none =>
    if 1 < (s.rows .header).length then some (.repeatedHeader s.name)
    else misfit.map fun (tag, width) => .widthMismatch s.name s.ruleCount tag width

/-- A line that is no record: blank, or a remark behind a number sign. -/
def isSkipped (line : String) : Bool :=
  match line.toList.dropWhile Text.isBlank with
  | [] => true
  | c :: _ => c == '#'

/-- The records of the lines that are not skipped. -/
def readRecords (delimiter : String) : List String → Except EngineError (List Record)
  | [] => .ok []
  | line :: rest =>
    let line := Text.chompLine line
    if isSkipped line then readRecords delimiter rest
    else do
      let record ← Record.parse delimiter line
      return record :: (← readRecords delimiter rest)

/-- The sheet of a list of lines. -/
def ofLines (name : String) (delimiter : String) (lines : List String) :
    Except EngineError Sheet := do
  if delimiter.length ≠ 1 then throw (.badDelimiter delimiter)
  let sheet : Sheet := ⟨name, ← readRecords delimiter lines⟩
  match sheet.defect? with
  | some error => throw error
  | none => return sheet

/-- A column number in two digits. -/
def columnText (column : Nat) : String :=
  if column < 10 then "0" ++ toString column else toString column

/-- The name of the rule in a column: its label in the header, else its number. -/
def label (s : Sheet) (column : Nat) : String :=
  match (s.rows .header).head? with
  | some header =>
    match header.values[column]? with
    | some given =>
      if given.isEmpty then plain else header.subject ++ Coordinate.separator ++ given
    | none => plain
  | none => plain
where
  plain : String := s.name ++ Coordinate.separator ++ "rule_" ++ columnText column

/-- The cell of a record in a column. -/
def cell (column : Nat) (r : Record) : Fragment :=
  ⟨.row r.tag, r.subject, r.values.getD column ""⟩

/-- The cells of a column: conditions, outcomes, and the assignments that are not empty. -/
def column (s : Sheet) (column : Nat) : List Fragment :=
  (s.rows .condition).map (cell column) ++ (s.rows .outcome).map (cell column) ++
    ((s.rows .assignment).map (cell column)).filter fun f => !f.value.isEmpty

/-- The outcomes behind the last rule. -/
def otherwiseOutcomes (s : Sheet) : Outcome :=
  Assoc.ofList ((s.rows .outcome).filterMap fun r =>
    r.values[s.ruleCount]?.map fun value => (r.subject, value))

/-- The rule in a column. -/
def rule (s : Sheet) (column : Nat) : Rule :=
  ⟨s.label column, s.column column⟩

/-- The table that a sheet describes. -/
def table (s : Sheet) : Table :=
  ⟨s.tableName, (List.range s.ruleCount).map s.rule,
    Rule.otherwise s.tableName s.otherwiseOutcomes⟩

@[simp] theorem length_rules_table (s : Sheet) : s.table.rules.length = s.ruleCount := by
  simp [table]

theorem mem_rows {s : Sheet} {tag : Tag} {r : Record} :
    r ∈ s.rows tag ↔ r ∈ s.records ∧ r.tag = tag := by
  simp [rows]

end Sheet

/-- The table of a list of lines. -/
def Table.parse (name : String) (delimiter : String) (lines : List String) :
    Except EngineError Table :=
  (Sheet.ofLines name delimiter lines).map Sheet.table

end DecisionTables
