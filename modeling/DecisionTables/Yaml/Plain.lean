import DecisionTables.Numeral.Reader

/-!
# The kinds of plain scalars

A scalar without quotes may be the absent value, a truth value, an integer, a
number with a point, a point in time or a sign of the format; otherwise it is a
text.
-/

namespace DecisionTables.Yaml

/-- What a plain scalar is. -/
inductive PlainKind where
  | null
  | bool (b : Bool)
  | int
  | float
  | time
  | merge
  | assign
  | text
  deriving DecidableEq, Repr

namespace Plain

/-- The spellings of a word: small, with a capital, and in capitals. -/
def spellings (word : String) : List String :=
  let cs := word.toList
  [word, String.ofList (cs.take 1 |>.map Char.toUpper) ++ String.ofList (cs.drop 1),
    String.ofList (cs.map Char.toUpper)]

/-- The words for yes. -/
def trueWords : List String := ["yes", "true", "on"].flatMap spellings

/-- The words for no. -/
def falseWords : List String := ["no", "false", "off"].flatMap spellings

/-- The words for the absent value. -/
def nullWords : List String := ["", "~"] ++ spellings "null"

/-- A text without the sign in front. -/
def unsigned (cs : List Char) : List Char :=
  (Numeral.takeSign cs).2

/-- A digit or an underscore. -/
def isDigitOrMark (c : Char) : Bool :=
  Numeral.isDigit c || c == '_'

/-- A text of at least one character, all of one class. -/
def isRun (p : Char → Bool) (cs : List Char) : Bool :=
  !cs.isEmpty && cs.all p

/-- Digits and underscores, a digit first. -/
def isDigitRun : List Char → Bool
  | c :: rest => Numeral.isDigit c && rest.all isDigitOrMark
  | [] => false

/-- The parts of a text between colons. -/
def parts (cs : List Char) : List (List Char) :=
  cs.splitOn ':'

/-- A part of a number in base sixty. -/
def isSixtieth : List Char → Bool
  | [c] => Numeral.isDigit c
  | [c, d] => '0' ≤ c && c ≤ '5' && Numeral.isDigit d
  | _ => false

/-- The text is an integer. -/
def isInt (cs : List Char) : Bool :=
  match unsigned cs with
  | '0' :: 'b' :: rest => isRun (fun c => c == '0' || c == '1' || c == '_') rest
  | '0' :: 'x' :: rest =>
    isRun (fun c => Numeral.isDigit c || ('a' ≤ c && c ≤ 'f') || ('A' ≤ c && c ≤ 'F') || c == '_')
      rest
  | ['0'] => true
  | '0' :: rest => isRun (fun c => ('0' ≤ c && c ≤ '7') || c == '_') rest
  | body =>
    match parts body with
    | [] => false
    | first :: rest => isDigitRun first && rest.all isSixtieth

/-- Nothing, or an exponent with its sign. -/
def isExponent : List Char → Bool
  | [] => true
  | e :: sign :: digits =>
    (e == 'e' || e == 'E') && (sign == '+' || sign == '-') && isRun Numeral.isDigit digits
  | _ => false

/-- The text is a number with a point. -/
def isFloat (cs : List Char) : Bool :=
  let body := unsigned cs
  let (whole, rest) := body.span (· != '.')
  let fraction := rest.drop 1
  let (digits, tail) := fraction.span isDigitOrMark
  if rest.isEmpty then false
  else if whole.isEmpty then
    ["inf", "Inf", "INF"].contains (String.ofList fraction) ||
      (cs.head? == some '.' &&
        (["nan", "NaN", "NAN"].contains (String.ofList fraction) ||
          (isDigitRun digits && isExponent tail)))
  else
    match parts whole with
    | [] => false
    | [only] => isDigitRun only && isExponent tail
    | first :: more => isDigitRun first && more.all isSixtieth && tail.isEmpty

/-- What remains behind at least `least` and at most `most` digits. -/
def dropDigits? (least most : Nat) (cs : List Char) : Option (List Char) :=
  let run := (cs.takeWhile Numeral.isDigit).take most
  if run.length < least then none else some (cs.drop run.length)

/-- What remains behind a character. -/
def dropChar? (c : Char) : List Char → Option (List Char)
  | d :: rest => if c == d then some rest else none
  | [] => none

/-- Nothing, or the offset of a time zone. -/
def isZone (cs : List Char) : Bool :=
  match cs.dropWhile fun c => c == ' ' || c == '\t' with
  | [] => cs.isEmpty
  | ['Z'] => true
  | sign :: rest =>
    (sign == '+' || sign == '-') &&
      match dropDigits? 1 2 rest with
      | some [] => true
      | some tail => ((dropChar? ':' tail).bind (dropDigits? 2 2)) == some []
      | none => false

/-- The text is a date. -/
def isDate (cs : List Char) : Bool :=
  (do
    let cs ← dropChar? '-' (← dropDigits? 4 4 cs)
    let cs ← dropChar? '-' (← dropDigits? 2 2 cs)
    dropDigits? 2 2 cs) == some []

/-- The text is a date with a time of day. -/
def isMoment (cs : List Char) : Bool :=
  let clock : Option (List Char) := do
    let cs ← dropChar? '-' (← dropDigits? 4 4 cs)
    let cs ← dropChar? '-' (← dropDigits? 1 2 cs)
    let cs ← dropDigits? 1 2 cs
    let cs ←
      match cs with
      | 'T' :: rest => some rest
      | 't' :: rest => some rest
      | ' ' :: _ => some (cs.dropWhile fun c => c == ' ' || c == '\t')
      | '\t' :: _ => some (cs.dropWhile fun c => c == ' ' || c == '\t')
      | _ => none
    let cs ← dropChar? ':' (← dropDigits? 1 2 cs)
    let cs ← dropChar? ':' (← dropDigits? 2 2 cs)
    let cs ← dropDigits? 2 2 cs
    return match cs with
      | '.' :: rest => rest.dropWhile Numeral.isDigit
      | _ => cs
  clock.any isZone

/-- The kind of a plain scalar. -/
def kind (text : String) : PlainKind :=
  let cs := text.toList
  if nullWords.contains text then .null
  else if trueWords.contains text then .bool true
  else if falseWords.contains text then .bool false
  else if isFloat cs then .float
  else if isInt cs then .int
  else if text == "<<" then .merge
  else if text == "=" then .assign
  else if isDate cs || isMoment cs then .time
  else .text

end Plain

end DecisionTables.Yaml
