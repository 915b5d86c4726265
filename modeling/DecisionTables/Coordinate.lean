import DecisionTables.Text.Blank

/-!
# Coordinates

The address of one fragment of state: the name of a source and the name of a
fragment in it, written with two colons between them.  A text without two colons
is a constant and addresses itself.
-/

namespace DecisionTables

/-- A fragment of a source. -/
@[ext]
structure Coordinate where
  source : String
  fragment : String
  deriving DecidableEq, Repr

namespace Coordinate

/-- The source of constants. -/
def constantSource : String := "constant"

/-- What stands between source and fragment. -/
def separator : String := "::"

/-- The parts before and after the first two colons in a row. -/
def splitAtSeparator? : List Char → Option (List Char × List Char)
  | [] => none
  | ':' :: ':' :: rest => some ([], rest)
  | c :: rest => (splitAtSeparator? rest).map fun parts => (c :: parts.1, parts.2)

/-- The coordinate that a text denotes; blanks around its parts do not count. -/
def parse (text : String) : Coordinate :=
  let cs := Text.trim Text.isBlank text.toList
  match splitAtSeparator? cs with
  | some (source, fragment) =>
    ⟨String.ofList (Text.trim Text.isBlank source), String.ofList (Text.trim Text.isBlank fragment)⟩
  | none => ⟨constantSource, String.ofList cs⟩

/-- The coordinate addresses a constant. -/
def isConstant (c : Coordinate) : Bool :=
  c.source == constantSource

/-- The coordinate as text; a constant is its own text. -/
def text (c : Coordinate) : String :=
  if c.isConstant then c.fragment else c.source ++ separator ++ c.fragment

@[simp] theorem isConstant_mk_constantSource (fragment : String) :
    isConstant ⟨constantSource, fragment⟩ = true := by
  simp [isConstant]

@[simp] theorem text_constant (fragment : String) :
    text ⟨constantSource, fragment⟩ = fragment := by
  simp [text]

theorem text_of_source_ne {c : Coordinate} (h : c.source ≠ constantSource) :
    c.text = c.source ++ separator ++ c.fragment := by
  simp [text, isConstant, h]

end Coordinate

end DecisionTables
