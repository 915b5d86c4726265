import DecisionTables.Value.Order
import DecisionTables.Yaml.Page

/-!
# Writing YAML

Values in block style, mappings in the order of their keys where these can be
sorted.  Long texts are folded, except keys in front of their colon.
-/

namespace DecisionTables.Yaml

/-- The layout of numbers. -/
def numberLayout : Binary64.Layout :=
  { Binary64.plainLayout with nan := ".nan", infinity := ".inf", pointBeforeExponent := true }

/-- The last column of a line that may be folded. -/
def lineWidth : Nat := 80

/-- The lines of a scalar that starts at a column. -/
def scalarLines (m : Margins) (column : Nat) : Scalar → List String
  | .null => ["null"]
  | .bool true => ["true"]
  | .bool false => ["false"]
  | .int i => [Scalar.integerText i]
  | .float x => [x.render numberLayout]
  | .text s => textLines m column s
  | .units us => textLines m column (Scalar.units us).plainText

/-- A scalar on one line. -/
def writeScalar (s : Scalar) : String :=
  String.join (scalarLines ⟨none, 0⟩ 0 s)

/-- The length of the word for the type of a scalar, which counts towards the length of a key. -/
def typeWordLength : Scalar → Nat
  | .null => 6
  | .bool _ => 6
  | .int _ => 5
  | .float _ => 7
  | .text _ => 5
  | .units _ => 5

/-- The length from which on a key needs a question mark. -/
def keyLimit : Nat := 128

/-- A character that makes a key one of several lines. -/
def breaksKey (c : Char) : Bool :=
  isBreak c && c != '\r'

/-- A key that can stand in front of its colon. -/
def isSimpleKey : Scalar → Bool
  | .text s =>
    !s.isEmpty && !s.toList.any breaksKey && typeWordLength (.text s) + s.length < keyLimit
  | other => typeWordLength other + (writeScalar other).length < keyLimit

/-- A line moved to the right by two columns; an empty one stays empty. -/
def indented (line : String) : String :=
  if line.isEmpty then line else "  " ++ line

/-- Lines of which all but the first are moved to the right, and the first stands behind a sign. -/
def hang (sign : String) : List String → List String
  | [] => [sign]
  | first :: rest => (sign ++ first) :: rest.map indented

mutual

/-- The lines of a value whose block starts at a column. -/
def linesOf (column : Nat) : Value → List String
  | .scalar s => scalarLines ⟨some lineWidth, column⟩ column s
  | .list [] => ["[]"]
  | .list (item :: rest) => itemLines column (item :: rest)
  | .mapping [] => ["\x7b\x7d"]
  | .mapping (entry :: rest) => entryLines column (entry :: rest)

/-- The lines of the items of a list. -/
def itemLines (column : Nat) : List Value → List String
  | [] => []
  | item :: rest => hang "- " (linesOf (column + 2) item) ++ itemLines column rest

/-- The lines of the entries of a mapping. -/
def entryLines (column : Nat) : List (Scalar × Value) → List String
  | [] => []
  | (key, value) :: rest =>
    let lines :=
      if isSimpleKey key then
        let sign := writeScalar key ++ ":"
        match value with
        | .list (item :: more) => sign :: itemLines column (item :: more)
        | .mapping (entry :: more) =>
          sign :: (entryLines (column + 2) (entry :: more)).map indented
        | .scalar s =>
          let start := column + sign.length + 1
          hang (sign ++ " ") (scalarLines ⟨some lineWidth, column + 2⟩ start s)
        | .list [] => [sign ++ " []"]
        | .mapping [] => [sign ++ " \x7b\x7d"]
      else
        hang "? " (scalarLines ⟨some lineWidth, column + 2⟩ (column + 2) key) ++
          hang ": " (linesOf (column + 2) value)
    lines ++ entryLines column rest

end

/-- A value as text. -/
def write (v : Value) : String :=
  String.join ((linesOf 0 v.sortedWherePossible).map (· ++ "\n"))

end DecisionTables.Yaml
