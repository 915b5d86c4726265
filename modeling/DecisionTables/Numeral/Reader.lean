import DecisionTables.Numeral.Binary64
import DecisionTables.Text.Blank
import DecisionTables.Text.Digit

/-!
# Reading numbers

A number is an optional sign and either a special name or decimal digits with an
optional point and exponent.  Digits of every script count, single underscores
may separate digits, and blanks around the number are ignored.
-/

namespace DecisionTables.Numeral

/-- An ASCII digit. -/
def isDigit (c : Char) : Bool :=
  '0' ≤ c && c ≤ '9'

/-- The number that a list of ASCII digits denotes. -/
def natOfDigits (cs : List Char) : Nat :=
  cs.foldl (fun n c => 10 * n + (c.toNat - 0x30)) 0

/-- The most digits that an integer may have. -/
def integerLimit : Nat := 4300

/-- The longest run of digits and what follows it. -/
def spanDigits (cs : List Char) : List Char × List Char :=
  cs.span isDigit

/-- The sign before a number, and the rest. -/
def takeSign : List Char → Bool × List Char
  | '-' :: rest => (true, rest)
  | '+' :: rest => (false, rest)
  | rest => (false, rest)

/-- The exponent after the digits: nothing at all, or a letter, a sign and digits. -/
def exponent? : List Char → Option Int
  | [] => some 0
  | e :: rest =>
    if e == 'e' || e == 'E' then
      let (negative, body) := takeSign rest
      let (digits, junk) := spanDigits body
      if digits.isEmpty || !junk.isEmpty then none
      else some (if negative then -(natOfDigits digits : Int) else natOfDigits digits)
    else none

/-- The unsigned decimal number that a text denotes. -/
def decimal? (negative : Bool) (cs : List Char) : Option Binary64 :=
  let (whole, rest) := spanDigits cs
  let (part, tail) :=
    match rest with
    | '.' :: more => spanDigits more
    | _ => ([], rest)
  if whole.isEmpty && part.isEmpty then none
  else (exponent? tail).map fun e =>
    Binary64.ofDecimal negative (natOfDigits (whole ++ part)) (e - part.length)

/-- The names of the numbers that have no digits. -/
def special? (negative : Bool) (cs : List Char) : Option Binary64 :=
  let name := cs.map Char.toLower
  if name == "inf".toList || name == "infinity".toList then some (.infinite negative)
  else if name == "nan".toList then some .nan
  else none

/-- A character as it counts in a number: digits of all scripts become ASCII digits. -/
def plainChar (c : Char) : Char :=
  if c.toNat < 0x7F then c
  else if Text.isBlank c then ' '
  else
    match Text.digitValue? c with
    | some n => Text.digitChar n
    | none => '?'

/-- A blank that may stand before or after a number. -/
def isPad (c : Char) : Bool :=
  c == ' ' || (0x09 ≤ c.toNat && c.toNat ≤ 0x0D)

/-- Every underscore stands between two digits. -/
def underscoresBetweenDigits : Char → List Char → Bool
  | previous, [] => previous != '_'
  | previous, c :: rest =>
    (if c == '_' then isDigit previous else previous != '_' || isDigit c) &&
      underscoresBetweenDigits c rest

/-- The text without underscores, if they all separate digits. -/
def dropUnderscores? (cs : List Char) : Option (List Char) :=
  if underscoresBetweenDigits ' ' cs then some (cs.filter (· != '_')) else none

/-- The number that a text denotes. -/
def read? (s : String) : Option Binary64 := do
  let cs ← dropUnderscores? (Text.trim isPad (s.toList.map plainChar))
  let (negative, body) := takeSign cs
  (special? negative body).or (decimal? negative body)

end DecisionTables.Numeral
