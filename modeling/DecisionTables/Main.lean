import DecisionTables.Walkthrough

/-!
# Command line

The first argument is a directory of resources, and the others are the files in it.
The lines of the walkthrough go to the output.
-/

namespace DecisionTables

/-- The tree of the files with the given paths. -/
def readFiles (paths : List String) : IO Files :=
  paths.foldlM
    (fun fs (path : String) => do return fs.addFile path (← IO.FS.readBinFile path))
    (Files.empty "/")

end DecisionTables

/-- Print the walkthrough of a directory of resources. -/
def main (arguments : List String) : IO UInt32 := do
  let fs ← DecisionTables.readFiles arguments.tail
  let (lines, result) := DecisionTables.Walkthrough.ofResources fs (arguments.headD "")
  lines.forM IO.println
  match result with
  | .ok _ => return 0
  | .error (.engine error) =>
    IO.eprintln error.message
    return 1
  | .error _ => return 1
