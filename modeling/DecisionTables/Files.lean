import DecisionTables.Assoc
import DecisionTables.Fault
import DecisionTables.Path
import DecisionTables.Text.Lines

/-!
# Files

A tree of files as the engine sees it.  A place in the tree is the list of the
names that lead to it, last name first, so that the root is the empty list and the
tail of a place is the directory around it.
-/

namespace DecisionTables

/-- A place in a file tree: the names that lead to it, last name first. -/
abbrev Place := List String

/-- What stands at a place. -/
inductive FileEntry where
  | file (content : ByteArray)
  | directory

/-- A file tree, and the place in it where relative paths start. -/
structure Files where
  home : Place
  entries : Assoc Place FileEntry

namespace Files

/-- What stands at a place; the root is always a directory. -/
def entryAt? (fs : Files) : Place → Option FileEntry
  | [] => some .directory
  | place => Assoc.find? fs.entries place

/-- The absolute path of the place where relative paths start. -/
def homePath (fs : Files) : String :=
  "/" ++ "/".intercalate fs.home.reverse

/-- The place where a path starts. -/
def start (fs : Files) (path : String) : Place :=
  if Path.isAbsolute path then [] else fs.home

/-- Follow the steps of a path from a place, each of them from a directory; a name that is too long
is never looked for. -/
def follow (fs : Files) (place : Place) : List String → Except Fault Place
  | [] => .ok place
  | step :: rest =>
    match fs.entryAt? place with
    | some .directory =>
      if Path.nameLimit < step.utf8ByteSize then .error .pathTooLong
      else follow fs (Path.advance place step) rest
    | some (.file _) => .error .notDirectory
    | none => .error .fileNotFound

/-- What a path leads to, with its place; the empty path leads nowhere. -/
def find (fs : Files) (path : String) : Except Fault (Place × FileEntry) := do
  if path.toList.contains '\x00' then throw .wrongValue
  if path.isEmpty then throw .fileNotFound
  if Path.lengthLimit < path.utf8ByteSize then throw .pathTooLong
  let place ← fs.follow (fs.start path) (Path.steps path)
  match fs.entryAt? place with
  | some entry => return (place, entry)
  | none => throw .fileNotFound

/-- A path leads to a directory. -/
def isDirectory (fs : Files) (path : String) : Bool :=
  match fs.find path with
  | .ok (_, .directory) => true
  | _ => false

/-- The names in a directory. -/
def names (fs : Files) (path : String) : Except Fault (List String) := do
  match ← fs.find path with
  | (place, .directory) =>
    return fs.entries.keys.filterMap fun
      | [] => none
      | name :: around => if around = place then some name else none
  | (_, .file _) => throw .notDirectory

/-- The bytes of a file. -/
def content (fs : Files) (path : String) : Except Fault ByteArray := do
  match ← fs.find path with
  | (_, .directory) => throw .isDirectory
  | (_, .file content) => return content

/-- The text of a file, with every line end written as a line feed. -/
def read (fs : Files) (path : String) : Except Fault String := do
  match String.fromUTF8? (← fs.content path) with
  | some text => return Text.unifyLineEnds text
  | none => throw .malformedEncoding

/-- The tree with an entry written at a place. -/
def put (fs : Files) (place : Place) (entry : FileEntry) : Files :=
  { fs with entries := Assoc.insert fs.entries place entry }

/-- The tree with a directory at a place, which keeps what it holds. -/
def putDirectory (fs : Files) (place : Place) : Files :=
  match fs.entryAt? place with
  | some .directory => fs
  | _ => fs.put place .directory

/-- Make the directories that the steps of a path lead through, and give the last one. -/
def makeSteps (fs : Files) (place : Place) : List String → Files × Place
  | [] => (fs, place)
  | step :: rest =>
    let next := Path.advance place step
    (fs.putDirectory next).makeSteps next rest

/-- The tree with a directory at a path, and the directories that lead to it. -/
def addDirectory (fs : Files) (path : String) : Files :=
  (fs.makeSteps (fs.start path) (Path.steps path)).1

/-- The tree with a file at a path, and the directories that lead to it. -/
def addFile (fs : Files) (path : String) (content : ByteArray) : Files :=
  let (made, place) := fs.makeSteps (fs.start path) (Path.steps path).dropLast
  made.put (Path.advance place (Path.fileName path)) (.file content)

/-- A tree that holds only its home and the directories around it. -/
def empty (home : String) : Files :=
  let (made, place) := (⟨[], []⟩ : Files).makeSteps [] (Path.steps home)
  { made with home := place }

@[simp] theorem entryAt?_root (fs : Files) : fs.entryAt? [] = some .directory := rfl

/-- What was written at a place stands there. -/
theorem entryAt?_put_self (fs : Files) (name : String) (around : Place) (entry : FileEntry) :
    (fs.put (name :: around) entry).entryAt? (name :: around) = some entry :=
  Assoc.find?_insert_self fs.entries entry (by simp)

end Files

end DecisionTables
