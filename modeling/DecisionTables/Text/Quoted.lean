import DecisionTables.Text.Printable
import DecisionTables.Text.Unit

/-!
# Quoted text

How a text is shown inside lists, mappings and diagnostics: between single
quotes, or between double quotes when it holds single quotes only.  A backslash
marks what cannot stand for itself.
-/

namespace DecisionTables.Text

/-- A hexadecimal digit in lower case. -/
def hexDigit (n : Nat) : Char :=
  if n < 10 then Char.ofNat (0x30 + n) else Char.ofNat (0x61 + n - 10)

/-- The last `width` hexadecimal digits of a number. -/
def hexDigits : Nat → Nat → List Char
  | 0, _ => []
  | width + 1, n => hexDigits width (n / 16) ++ [hexDigit (n % 16)]

/-- The shortest numeric escape of a character: two, four or eight digits. -/
def numericEscape (c : Char) : List Char :=
  let n := c.toNat
  if n ≤ 0xFF then '\\' :: 'x' :: hexDigits 2 n
  else if n ≤ 0xFFFF then '\\' :: 'u' :: hexDigits 4 n
  else '\\' :: 'U' :: hexDigits 8 n

/-- One character as it stands between the given quotes. -/
def quoteChar (quote c : Char) : List Char :=
  if c == quote || c == '\\' then ['\\', c]
  else if c == '\n' then ['\\', 'n']
  else if c == '\r' then ['\\', 'r']
  else if c == '\t' then ['\\', 't']
  else if isPrintable c then [c]
  else numericEscape c

/-- One code unit as it stands between the given quotes; half of a pair stands for no character. -/
def quoteUnit (quote : Char) (n : Nat) : List Char :=
  if isSurrogate n then '\\' :: 'u' :: hexDigits 4 n else quoteChar quote (Char.ofNat n)

/-- The quote that surrounds a text. -/
def quoteMark (cs : List Char) : Char :=
  if cs.contains '\'' && !cs.contains '"' then '"' else '\''

/-- A text between quotes. -/
def quoted (s : String) : String :=
  let cs := s.toList
  let mark := quoteMark cs
  String.ofList (mark :: cs.flatMap (quoteChar mark) ++ [mark])

/-- A text with halves of pairs between quotes. -/
def quotedUnits (units : List Nat) : String :=
  let mark := quoteMark (units.map unitChar)
  String.ofList (mark :: units.flatMap (quoteUnit mark) ++ [mark])

/-- A character is shown in the same way alone and as a code unit. -/
theorem quoteUnit_toNat (quote c : Char) : quoteUnit quote c.toNat = quoteChar quote c := by
  simp [quoteUnit, isSurrogate, (not_surrogate c).1, (not_surrogate c).2, Char.ofNat_toNat]

end DecisionTables.Text
