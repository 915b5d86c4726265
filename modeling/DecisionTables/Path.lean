/-!
# Paths

A path is a text in which solidi divide the names of directories, the last one
being the name of what is meant.  A path that starts with a solidus starts at the
root; any other path starts where the reader stands.
-/

namespace DecisionTables.Path

/-- The pieces between the separators, of which there is always one. -/
def pieces : List Char → List (List Char)
  | [] => [[]]
  | c :: rest =>
    if c = '/' then [] :: pieces rest
    else
      match pieces rest with
      | [] => [[c]]
      | piece :: others => (c :: piece) :: others

/-- The steps of a path from its start. -/
def steps (path : String) : List String :=
  (pieces path.toList).map String.ofList

/-- The most bytes that the name of a file or directory may have. -/
def nameLimit : Nat := 255

/-- The most bytes that a path may have. -/
def lengthLimit : Nat := 4095

/-- The path starts at the root. -/
def isAbsolute (path : String) : Bool :=
  path.toList.head? == some '/'

/-- What a base puts before the paths that are read from it. -/
def lead (base : String) : String :=
  if base.isEmpty || base.toList.getLast? == some '/' then base else base ++ "/"

/-- What a path means for a reader who stands in the base. -/
def join (base path : String) : String :=
  if isAbsolute path then path else lead base ++ path

/-- What stands behind the last separator. -/
def fileName (path : String) : String :=
  String.ofList (path.toList.reverse.takeWhile fun c => c ≠ '/').reverse

/-- What stands before the last separator; only the root keeps separators at its end. -/
def parent (path : String) : String :=
  let head := path.toList.reverse.dropWhile fun c => c ≠ '/'
  let trimmed := head.dropWhile fun c => c = '/'
  String.ofList (if trimmed.isEmpty then head else trimmed).reverse

/-- A file name without its extension; points at its start open no extension. -/
def stem (name : String) : String :=
  match name.toList.reverse.dropWhile fun c => c ≠ '.' with
  | [] => name
  | _ :: before => if before.all fun c => c = '.' then name else String.ofList before.reverse

/-- Take one step from a place that is given by the names that lead to it, last name first. -/
def advance (place : List String) (step : String) : List String :=
  if step = "" || step = "." then place
  else if step = ".." then place.tail
  else step :: place

/-- The shortest text for the place that an absolute path means. -/
def normal (path : String) : String :=
  "/" ++ "/".intercalate ((steps path).foldl advance []).reverse

/-- The directory in which a file is, for a reader who stands in an absolute place. -/
def directory (home path : String) : String :=
  parent (normal (join home path))

theorem pieces_ne_nil (cs : List Char) : pieces cs ≠ [] := by
  cases cs with
  | nil => simp [pieces]
  | cons c rest =>
    simp only [pieces]
    split
    · simp
    · split <;> simp

/-- A path from the root means the same from everywhere. -/
@[simp] theorem join_of_isAbsolute {base path : String} (h : isAbsolute path = true) :
    join base path = path := by
  simp [join, h]

theorem join_empty {path : String} : join "" path = path := by
  simp [join, lead]

/-- What an absolute base puts before paths starts at the root. -/
theorem head?_lead {base : String} (h : isAbsolute base = true) :
    (lead base).toList.head? = some '/' := by
  simp only [isAbsolute, beq_iff_eq] at h
  unfold lead
  split
  · exact h
  · simp [h]

/-- A path behind what an absolute base puts before it is absolute. -/
theorem isAbsolute_lead_append {base : String} (h : isAbsolute base = true) (path : String) :
    isAbsolute (lead base ++ path) = true := by
  simp [isAbsolute, head?_lead h]

/-- A path that is read from an absolute base is absolute. -/
theorem isAbsolute_join {base path : String} (h : isAbsolute base = true) :
    isAbsolute (join base path) = true := by
  unfold join
  split
  · assumption
  · exact isAbsolute_lead_append h path

end DecisionTables.Path
