import DecisionTables.Numeral.Binary64

/-!
# Shortest decimal digits

The fewest decimal digits that are read back as the same number; of several
candidates the nearest, and of two equally near the even one.  How the digits are
laid out is described by a record of its own.
-/

namespace DecisionTables

/-- A decimal number `digits * 10 ^ exponent`. -/
structure Decimal where
  digits : Nat
  exponent : Int
  deriving DecidableEq, Repr

namespace Decimal

/-- Ten to the exponent as a fraction: what a whole number is multiplied and divided by. -/
def powerOfTen (exponent : Int) : Nat × Nat :=
  (Nat.pow 10 exponent.toNat, Nat.pow 10 (-exponent).toNat)

/-- Move trailing zeros of the digits into the exponent. -/
def normalize : Nat → Decimal → Decimal
  | 0, d => d
  | fuel + 1, d =>
    if d.digits ≠ 0 ∧ d.digits % 10 = 0 then normalize fuel ⟨d.digits / 10, d.exponent + 1⟩ else d

/-- The digits as text. -/
def digitText (d : Decimal) : List Char :=
  Nat.toDigits 10 d.digits

/-- The exponent of the leading digit. -/
def magnitude (d : Decimal) : Int :=
  d.exponent + d.digitText.length - 1

end Decimal

namespace Binary64

/-- The real numbers that round to a count of units, in quarters of a unit. -/
structure Span where
  low : Nat
  high : Nat
  closed : Bool
  deriving Repr

/-- The span of a positive count of units; below a power of two the neighbours are twice as near. -/
def spanOf (units : Nat) : Span :=
  let grid := spacing units
  let below := if units == Nat.pow 2 52 * grid && grid > 1 then grid else 2 * grid
  ⟨4 * units - below, 4 * units + 2 * grid, (units / grid) % 2 == 0⟩

/-- A quotient of quarters of a unit lies in the span. -/
def Span.contains (span : Span) (num den : Nat) : Bool :=
  if span.closed then span.low * den ≤ num && num ≤ span.high * den
  else span.low * den < num && num < span.high * den

/-- The largest exponent of ten that is not above a positive count of units. -/
def leadingExponent (units : Nat) : Int :=
  go 4 ((((Nat.log2 units : Nat) : Int) - 1074) * 30103 / 100000 - 1)
where
  go : Nat → Int → Int
    | 0, e => e
    | fuel + 1, e =>
      let (up, down) := Decimal.powerOfTen (e + 1)
      if up * unitsPerOne ≤ units * down then go fuel (e + 1) else e

/-- The best decimal with the given exponent that reads back, if there is one. -/
def decimalAt? (units : Nat) (exponent : Int) : Option Decimal :=
  let span := spanOf units
  let (up, down) := Decimal.powerOfTen exponent
  let den := up * unitsPerOne
  let value := units * down
  let quarters (d : Nat) : Nat := 4 * d * den
  let floor := value / den
  let lowHit := span.contains (quarters floor) down
  let highHit := span.contains (quarters (floor + 1)) down
  let toFloor := value - floor * den
  let toCeiling := (floor + 1) * den - value
  let nearer :=
    if toFloor < toCeiling then floor
    else if toCeiling < toFloor then floor + 1
    else if floor % 2 == 0 then floor else floor + 1
  match lowHit, highHit with
  | true, true => some ⟨nearer, exponent⟩
  | true, false => some ⟨floor, exponent⟩
  | false, true => some ⟨floor + 1, exponent⟩
  | false, false => none

/-- The shortest decimal of a count of units. -/
def shortest (units : Nat) : Decimal :=
  if units = 0 then ⟨0, 0⟩
  else
    let lead := leadingExponent units
    let found := (List.range 17).findSome? fun (n : Nat) => decimalAt? units (lead - (n : Int))
    Decimal.normalize 20 (found.getD ⟨units, -1074⟩)

/-- How a number is written: names of the special numbers and the shape of an exponent. -/
structure Layout where
  nan : String
  infinity : String
  /-- Powers of ten below this are written with an exponent. -/
  leastPositional : Int
  /-- Powers of ten from this on are written with an exponent. -/
  leastScientific : Int
  /-- A single digit before an exponent is followed by a point and a zero. -/
  pointBeforeExponent : Bool

/-- The layout of numbers in values and messages. -/
def plainLayout : Layout := ⟨"nan", "inf", -4, 16, false⟩

/-- The exponent with its sign and at least two digits. -/
def exponentText (e : Int) : List Char :=
  let digits := Nat.toDigits 10 e.natAbs
  let padded := if digits.length < 2 then '0' :: digits else digits
  'e' :: (if e < 0 then '-' else '+') :: padded

/-- A positive decimal in a layout. -/
def layDecimal (layout : Layout) (d : Decimal) : List Char :=
  let ds := d.digitText
  let lead := d.magnitude
  if layout.leastPositional ≤ lead && lead < layout.leastScientific then
    if lead < 0 then '0' :: '.' :: List.replicate (-lead - 1).toNat '0' ++ ds
    else
      let whole := lead.toNat + 1
      if ds.length ≤ whole then ds ++ List.replicate (whole - ds.length) '0' ++ ['.', '0']
      else ds.take whole ++ '.' :: ds.drop whole
  else
    match ds with
    | [] => exponentText lead
    | [one] => one :: (if layout.pointBeforeExponent then ['.', '0'] else []) ++ exponentText lead
    | one :: rest => one :: '.' :: rest ++ exponentText lead

/-- The text of a number in a layout. -/
def render (layout : Layout) : Binary64 → String
  | nan => layout.nan
  | infinite negative => if negative then "-" ++ layout.infinity else layout.infinity
  | finite negative units =>
    let body := if units = 0 then ['0', '.', '0'] else layDecimal layout (shortest units)
    String.ofList (if negative then '-' :: body else body)

end Binary64

end DecisionTables
