import DecisionTables.Nesting
import DecisionTables.Numeral.Reader
import DecisionTables.Text.Unit
import DecisionTables.Value.Mapping

/-!
# Reading JSON

Values in JavaScript object notation.  Besides the standard, the names of the
numbers without digits are read.  Every reader gives its result and the characters
behind it; `room` is how many levels further down it may go.
-/

namespace DecisionTables.Json

/-- The text is not in the notation. -/
def malformed : Except Fault α := .error .malformedJson

/-- A character that may stand between tokens. -/
def isSpace (c : Char) : Bool :=
  c == ' ' || c == '\t' || c == '\n' || c == '\r'

/-- Skip what may stand between tokens. -/
def skip (cs : List Char) : List Char :=
  cs.dropWhile isSpace

/-- The character behind a backslash that is one letter. -/
def simpleEscape? : Char → Option Char
  | '"' => some '"'
  | '\\' => some '\\'
  | '/' => some '/'
  | 'b' => some '\x08'
  | 'f' => some '\x0c'
  | 'n' => some '\n'
  | 'r' => some '\r'
  | 't' => some '\t'
  | _ => none

/-- The rest of a string behind its opening quote; the code units read so far are kept backwards. -/
def stringRest (done : List Nat) : List Char → Except Fault (String × List Char)
  | [] => malformed
  | '"' :: rest => .ok (String.ofList (Text.ofUnits done.reverse), rest)
  | '\\' :: 'u' :: a :: b :: c :: d :: rest =>
    match Text.hexNumber? [a, b, c, d] with
    | some n => stringRest (n :: done) rest
    | none => malformed
  | '\\' :: c :: rest =>
    match simpleEscape? c with
    | some plain => stringRest (plain.toNat :: done) rest
    | none => malformed
  | c :: rest => if c.toNat < 0x20 then malformed else stringRest (c.toNat :: done) rest

/-- The fraction of a number: a point and at least one digit. -/
def spanFraction : List Char → List Char × List Char
  | '.' :: rest =>
    let (digits, tail) := Numeral.spanDigits rest
    if digits.isEmpty then ([], '.' :: rest) else ('.' :: digits, tail)
  | cs => ([], cs)

/-- The exponent of a number: a letter, perhaps a sign, and at least one digit. -/
def spanExponent : List Char → List Char × List Char
  | e :: rest =>
    let (sign, body) :=
      match rest with
      | '+' :: more => (['+'], more)
      | '-' :: more => (['-'], more)
      | more => ([], more)
    let (digits, tail) := Numeral.spanDigits body
    if (e == 'e' || e == 'E') && !digits.isEmpty then (e :: sign ++ digits, tail)
    else ([], e :: rest)
  | [] => ([], [])

/-- A number with its sign already read. -/
def number (negative : Bool) (cs : List Char) : Except Fault (Value × List Char) :=
  let (run, _) := Numeral.spanDigits cs
  let whole := if run.head? == some '0' then ['0'] else run
  let rest := cs.drop whole.length
  let (fraction, rest) := spanFraction rest
  let (exponent, rest) := spanExponent rest
  if whole.isEmpty then malformed
  else if fraction.isEmpty && exponent.isEmpty then
    if Numeral.integerLimit < whole.length then .error .wrongValue
    else
      let n : Int := Numeral.natOfDigits whole
      .ok (.scalar (.int (if negative then -n else n)), rest)
  else
    match Numeral.decimal? negative (whole ++ fraction ++ exponent) with
    | some x => .ok (.scalar (.float x), rest)
    | none => malformed

/-- The words of the notation and their values. -/
def words : List (String × Scalar) := [
  ("null", .null), ("true", .bool true), ("false", .bool false), ("NaN", .float .nan),
  ("Infinity", .float (.infinite false)), ("-Infinity", .float (.infinite true))]

/-- A word at the start of the text. -/
def word? (cs : List Char) : Option (Value × List Char) :=
  words.findSome? fun entry =>
    let name := entry.1.toList
    if name.isPrefixOf cs then some (.scalar entry.2, cs.drop name.length) else none

mutual

/-- A value at the start of the text. -/
def value : Nat → Nat → List Char → Except Fault (Value × List Char)
  | 0, _, _ => malformed
  | fuel + 1, room, cs =>
    match cs with
    | '"' :: rest => do
      let (s, rest) ← stringRest [] rest
      return (.text s, rest)
    | '[' :: rest => Nesting.descend room fun room => do
      match skip rest with
      | ']' :: rest => return (.list [], rest)
      | rest =>
        let (items, rest) ← listRest fuel room [] rest
        return (.list items, rest)
    | '\x7b' :: rest => Nesting.descend room fun room => do
      match skip rest with
      | '\x7d' :: rest => return (.mapping [], rest)
      | rest =>
        let (entries, rest) ← mappingRest fuel room [] rest
        return (.mapping entries, rest)
    | cs =>
      match word? cs with
      | some found => .ok found
      | none =>
        match cs with
        | '-' :: rest => number true rest
        | cs => number false cs
termination_by structural fuel => fuel

/-- The items of a list from an item on; what was read is kept backwards. -/
def listRest : Nat → Nat → List Value → List Char → Except Fault (List Value × List Char)
  | 0, _, _, _ => malformed
  | fuel + 1, room, done, cs => do
    let (item, rest) ← value fuel room cs
    match skip rest with
    | ']' :: rest => return ((item :: done).reverse, rest)
    | ',' :: rest => listRest fuel room (item :: done) (skip rest)
    | _ => malformed
termination_by structural fuel => fuel

/-- The entries of a mapping from a key on. -/
def mappingRest :
    Nat → Nat → Assoc Scalar Value → List Char → Except Fault (Assoc Scalar Value × List Char)
  | 0, _, _, _ => malformed
  | fuel + 1, room, done, cs => do
    match cs with
    | '"' :: rest =>
      let (key, rest) ← stringRest [] rest
      match skip rest with
      | ':' :: rest =>
        let (item, rest) ← value fuel room (skip rest)
        let done := done.insert (.text key) item
        match skip rest with
        | '\x7d' :: rest => return (done, rest)
        | ',' :: rest => mappingRest fuel room done (skip rest)
        | _ => malformed
      | _ => malformed
    | _ => malformed
termination_by structural fuel => fuel

end

/-- The value that a text of so many levels denotes. -/
def parseWithin (room : Nat) (text : String) : Except Fault Value := do
  let cs := text.toList
  let (v, rest) ← value (cs.length + 1) room (skip cs)
  if (skip rest).isEmpty then return v else malformed

/-- The value that a text denotes. -/
def parse (text : String) : Except Fault Value :=
  parseWithin Nesting.jsonRoom text

end DecisionTables.Json
