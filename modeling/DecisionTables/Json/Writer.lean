import DecisionTables.Text.Quoted
import DecisionTables.Value.Order

/-!
# Writing JSON

Values in JavaScript object notation: keys in order, one blank behind commas and
colons, and only printable ASCII characters.
-/

namespace DecisionTables.Json

/-- The layout of numbers. -/
def numberLayout : Binary64.Layout :=
  { Binary64.plainLayout with nan := "NaN", infinity := "Infinity" }

/-- A code unit as an escape. -/
def unitEscape (n : Nat) : List Char :=
  '\\' :: 'u' :: Text.hexDigits 4 n

/-- One character inside quotes. -/
def writeChar (c : Char) : List Char :=
  let n := c.toNat
  if c == '"' || c == '\\' then ['\\', c]
  else if c == '\n' then ['\\', 'n']
  else if c == '\r' then ['\\', 'r']
  else if c == '\t' then ['\\', 't']
  else if c == '\x0c' then ['\\', 'f']
  else if c == '\x08' then ['\\', 'b']
  else if 0x20 ≤ n && n ≤ 0x7E then [c]
  else if n < 0x10000 then unitEscape n
  else
    unitEscape (0xD800 + (n - 0x10000) / 0x400) ++ unitEscape (0xDC00 + (n - 0x10000) % 0x400)

/-- One code unit inside quotes. -/
def writeUnit (n : Nat) : List Char :=
  if Text.isSurrogate n then unitEscape n else writeChar (Char.ofNat n)

/-- A text with halves of pairs in quotes. -/
def writeUnits (us : List Nat) : String :=
  String.ofList ('"' :: us.flatMap writeUnit ++ ['"'])

/-- A text in quotes. -/
def writeText (s : String) : String :=
  String.ofList ('"' :: s.toList.flatMap writeChar ++ ['"'])

/-- A scalar without quotes. -/
def scalarText : Scalar → String
  | .null => "null"
  | .bool true => "true"
  | .bool false => "false"
  | .int i => Scalar.integerText i
  | .float x => x.render numberLayout
  | other => other.plainText

/-- A scalar as a value. -/
def writeScalar : Scalar → String
  | .text s => writeText s
  | .units us => writeUnits us
  | other => scalarText other

/-- A scalar as a key, which is always in quotes. -/
def writeKey : Scalar → String
  | .units us => writeUnits us
  | other => writeText (scalarText other)

mutual

/-- A value whose mappings are in order. -/
def writeArranged : Value → String
  | .scalar s => writeScalar s
  | .list items => "[" ++ ", ".intercalate (writeItems items) ++ "]"
  | .mapping entries => "\x7b" ++ ", ".intercalate (writeEntries entries) ++ "\x7d"

/-- The items of a list. -/
def writeItems : List Value → List String
  | [] => []
  | item :: rest => writeArranged item :: writeItems rest

/-- The entries of a mapping. -/
def writeEntries : List (Scalar × Value) → List String
  | [] => []
  | (key, value) :: rest =>
    (writeKey key ++ ": " ++ writeArranged value) :: writeEntries rest

end

/-- A value as text; keys that cannot be compared are a fault. -/
def write (v : Value) : Except Fault String :=
  v.sorted.map writeArranged

end DecisionTables.Json
