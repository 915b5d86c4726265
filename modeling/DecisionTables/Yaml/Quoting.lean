import DecisionTables.Text.Quoted
import DecisionTables.Yaml.Cursor
import DecisionTables.Yaml.Plain

/-!
# Quotes around YAML texts

A text is written without quotes where it is read back as a text, else in single
quotes, and in double quotes where it holds anything but printable ASCII
characters and line breaks, or a blank beside a line break.
-/

namespace DecisionTables.Yaml

/-- A character that cannot start a text without quotes. -/
def isOpeningSign (c : Char) (gapFollows : Bool) : Bool :=
  "#,[]\x7b\x7d&*!|>'\"%@\x60".contains c || (gapFollows && (c == '?' || c == ':' || c == '-'))

/-- A sign inside a text, with the characters around it, that needs quotes. -/
def hasInnerSign : Char → List Char → Bool
  | _, [] => false
  | before, c :: rest =>
    (c == ':' && endsWord rest.head?) || (c == '#' && isGap before) || hasInnerSign c rest

/-- A character that can stand in a text without escapes. -/
def isPlainAscii (c : Char) : Bool :=
  0x20 ≤ c.toNat && c.toNat ≤ 0x7E

/-- A text that starts like a mark between documents. -/
def startsLikeMark (cs : List Char) : Bool :=
  cs.take 3 == "---".toList || cs.take 3 == "...".toList

/-- A text that can be written without quotes. -/
def isBare (s : String) : Bool :=
  match s.toList with
  | [] => false
  | c :: rest =>
    (c :: rest).all isPlainAscii && c != ' ' && (c :: rest).getLast? != some ' ' &&
      !startsLikeMark (c :: rest) && !isOpeningSign c (endsWord rest.head?) &&
      !hasInnerSign c rest && Plain.kind s == .text

/-- A blank and a line break stand side by side. -/
def hasBlankAtBreak : List Char → Bool
  | a :: b :: rest =>
    (a == ' ' && b == '\n') || (a == '\n' && b == ' ') || hasBlankAtBreak (b :: rest)
  | _ => false

/-- The three ways to write a text. -/
inductive Style where
  | bare
  | single
  | double
  deriving DecidableEq, Repr

/-- The way in which a text is written. -/
def Style.ofText (s : String) : Style :=
  if isBare s then .bare
  else if s.toList.all (fun c => isPlainAscii c || c == '\n') && !hasBlankAtBreak s.toList then
    .single
  else .double

/-- A hexadecimal number in capitals. -/
def capitalHex (width n : Nat) : List Char :=
  (Text.hexDigits width n).map Char.toUpper

/-- The letter that stands for a character behind a backslash. -/
def escapeLetter? : Char → Option Char
  | '\x00' => some '0'
  | '\x07' => some 'a'
  | '\x08' => some 'b'
  | '\t' => some 't'
  | '\n' => some 'n'
  | '\x0b' => some 'v'
  | '\x0c' => some 'f'
  | '\r' => some 'r'
  | '\x1b' => some 'e'
  | '"' => some '"'
  | '\\' => some '\\'
  | '\x85' => some 'N'
  | '\xa0' => some '_'
  | '\u2028' => some 'L'
  | '\u2029' => some 'P'
  | _ => none

/-- One character in single quotes; a single quote is doubled. -/
def singleQuotedChar (c : Char) : List Char :=
  if c == '\'' then [c, c] else [c]

/-- A character that stands for itself in double quotes. -/
def standsForItself (c : Char) : Bool :=
  isPlainAscii c && (escapeLetter? c).isNone

/-- One character in double quotes. -/
def doubleQuotedChar (c : Char) : List Char :=
  match escapeLetter? c with
  | some letter => ['\\', letter]
  | none =>
    let n := c.toNat
    if isPlainAscii c then [c]
    else if n ≤ 0xFF then '\\' :: 'x' :: capitalHex 2 n
    else if n ≤ 0xFFFF then '\\' :: 'u' :: capitalHex 4 n
    else '\\' :: 'U' :: capitalHex 8 n

end DecisionTables.Yaml
