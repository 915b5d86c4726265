import DecisionTables.Fault
import DecisionTables.Settings.Wording

/-!
# Settings

Where sheets are and how they are read.  Settings come from a mapping, of which
every entry is checked, so that all defects are reported at once.
-/

namespace DecisionTables

/-- The things that can be set. -/
inductive Setting where
  | delimiter
  | extension
  | tables
  | commands
  | tests
  deriving DecidableEq, Repr

namespace Setting

/-- The name of a setting in a configuration. -/
def label : Setting → String
  | delimiter => "delimiter"
  | extension => "extension"
  | tables => "tables_dir"
  | commands => "commands_dir"
  | tests => "tests_dir"

/-- The settings in the order in which their defects are reported. -/
def all : List Setting := [delimiter, extension, tables, commands, tests]

/-- What is wrong with the value of a setting. -/
def defect? (setting : Setting) (value : Value) : Option Settings.Defect :=
  match setting, value with
  | delimiter, .text s =>
    if s.isEmpty then some .tooShort else if 1 < s.length then some .tooLong else none
  | delimiter, .scalar (.units _) => some .notCharacters
  | _, .text _ | _, .scalar (.units _) => none
  | tables, .null | commands, .null | tests, .null => none
  | _, _ => some .notText

end Setting

/-- Checked settings. -/
structure Settings where
  /-- The character that divides the fields of a line. -/
  delimiter : String := ";"
  /-- What the file name of a sheet ends with. -/
  extension : Settings.Wording := .plain ".csv"
  /-- The directory of the tables to decide by. -/
  tables : Option Settings.Wording := none
  /-- The directory of the commands. -/
  commands : Option Settings.Wording := none
  /-- The directory of the tables to test by. -/
  tests : Option Settings.Wording := none
  deriving DecidableEq, Repr

namespace Settings

/-- The value that a configuration gives to a setting. -/
def given? (entries : Assoc Scalar Value) (setting : Setting) : Option Value :=
  Assoc.find? entries (.text setting.label)

/-- The text that a configuration gives to a setting. -/
def wording? (entries : Assoc Scalar Value) (setting : Setting) : Option Wording :=
  match given? entries setting with
  | some (.scalar s) => Wording.ofScalar? s
  | _ => none

/-- The name of an entry in a report; a truth value is reported as a number, and an integer without
a text as such. -/
def entryName : Scalar → String
  | .bool b => if b then "1" else "0"
  | key => if key.hasText then key.plainText else "<unprintable int object>"

/-- The defects of the settings that a configuration gives. -/
def settingDefects (entries : Assoc Scalar Value) : List (String × Defect) :=
  Setting.all.filterMap fun setting =>
    ((given? entries setting).bind setting.defect?).map fun defect => (setting.label, defect)

/-- The defects of the entries that give no setting. -/
def strangerDefects (entries : Assoc Scalar Value) : List (String × Defect) :=
  entries.filterMap fun entry =>
    match entry.1 with
    | .text name =>
      if Setting.all.any fun setting => setting.label == name then none else some (name, .unknown)
    | key => some (entryName key, .nameNotText)

/-- The name of an entry is a text in which halves of surrogate pairs stand. -/
def isHalved : Scalar → Bool
  | .units _ => true
  | _ => false

/-- All defects of a configuration; a name that cannot be compared with those of the settings hides
all others. -/
def defects (entries : Assoc Scalar Value) : List (String × Defect) :=
  if entries.any fun entry => isHalved entry.1 then [("", .notCharacters)]
  else settingDefects entries ++ strangerDefects entries

/-- The settings of a configuration without defects, with directories seen from a base. -/
def ofEntries (base : String) (entries : Assoc Scalar Value) : Settings :=
  let text (setting : Setting) : Option Wording := wording? entries setting
  { delimiter := ((text .delimiter).map Wording.shown).getD ({} : Settings).delimiter
    extension := (text .extension).getD ({} : Settings).extension
    tables := (text .tables).map (Wording.seenFrom base)
    commands := (text .commands).map (Wording.seenFrom base)
    tests := (text .tests).map (Wording.seenFrom base) }

/-- The settings that a value describes, with directories seen from a base; an empty base
leaves them as they are. -/
def ofValue (base : String) (value : Value) : Except EngineError Settings :=
  if value.isBlank then .ok {}
  else
    match value with
    | .mapping entries =>
      match defects entries with
      | [] => .ok (ofEntries base entries)
      | found => .error (.invalidSettings found)
    | _ => .error (.invalidSettings [("", .notMapping)])

end Settings

end DecisionTables
