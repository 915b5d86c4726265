import DecisionTables.Computation
import DecisionTables.Files
import DecisionTables.Settings
import DecisionTables.Sheet
import DecisionTables.Yaml.Reader

/-!
# Loading

Tables, settings and whole computations from the files that hold them.  A
directory of sheets is read in the order of the file names, and of two tables
with one name the later one counts.
-/

namespace DecisionTables

/-- The table of a sheet file, which is named for the file unless its header says otherwise. -/
def Table.load (fs : Files) (path delimiter : String) : Except Fault Table := do
  let text ← fs.read path
  (Table.parse (Path.stem (Path.fileName path)) delimiter (Text.splitLines text)).mapError .engine

namespace Catalog

/-- The file names of sheets among some names, in the order of their characters. -/
def sheetNames (extension : Settings.Wording) (names : List String) : List String :=
  (names.filter fun name => extension.isEndOf name).mergeSort

/-- The tables of the sheets in a directory. -/
def load (fs : Files) (directory extension : Settings.Wording) (delimiter : String) :
    Except Fault Catalog := do
  match directory.path?.filter fs.isDirectory with
  | some path =>
    let names := sheetNames extension (← fs.names path)
    return ofList (← names.mapM fun name => Table.load fs (Path.join path name) delimiter)
  | none => throw (.engine (.missingDirectory directory.shown))

/-- The tables of an optional directory; without one there are none. -/
def load? (fs : Files) (directory : Option Settings.Wording) (extension : Settings.Wording)
    (delimiter : String) : Except Fault Catalog :=
  match directory with
  | none => .ok empty
  | some directory => if directory.isEmpty then .ok empty else load fs directory extension delimiter

end Catalog

/-- The settings in a file, with directories seen from the directory of the file. -/
def Settings.load (fs : Files) (path : String) : Except Fault Settings := do
  match ← Yaml.read (.ofBytes (← fs.content path)) with
  | .null => return {}
  | .mapping entries =>
    (Settings.ofValue (Path.directory fs.homePath path) (.mapping entries)).mapError .engine
  | _ => throw (.engine (.settingsNotMapping path))

/-- A computation on the tables and commands that settings tell of. -/
def Computation.load (fs : Files) (settings : Settings) (choice : StateChoice) :
    Engine Computation := do
  let read (directory : Option Settings.Wording) : Engine Catalog :=
    Engine.ofExcept (Catalog.load? fs directory settings.extension settings.delimiter)
  let tables ← read settings.tables
  let commands ← read settings.commands
  Computation.ofTables tables commands choice

end DecisionTables
