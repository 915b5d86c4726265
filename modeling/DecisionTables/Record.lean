import DecisionTables.Fault
import DecisionTables.Text.Blank

/-!
# Records

One line of a sheet: the tag of its row, the subject of the row, and one value
for every column.
-/

namespace DecisionTables

/-- A row of a sheet. -/
structure Record where
  tag : Tag
  subject : String
  values : List String
  deriving DecidableEq, Repr

namespace Record

/-- The number of values. -/
def width (r : Record) : Nat :=
  r.values.length

/-- The record that the fields of a line make up. -/
def ofFields (line : String) (fields : List String) : Except EngineError Record :=
  match fields.map Text.strip with
  | [] => .error (.unknownTag line)
  | label :: rest =>
    match Tag.ofLabel? label, rest with
    | none, _ => .error (.unknownTag line)
    | some _, [] => .error (.missingSubject line)
    | some tag, subject :: values =>
      if subject.isEmpty then .error (.missingSubject line) else .ok ⟨tag, subject, values⟩

/-- The record that a line denotes. -/
def parse (delimiter : String) (line : String) : Except EngineError Record :=
  match Fields.splitBy delimiter line with
  | .error defect => .error (.unreadableLine line defect)
  | .ok fields => ofFields line fields

end Record

end DecisionTables
