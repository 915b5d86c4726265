/-!
# Binary floating point numbers of 64 bits

A finite number is counted in units of `2 ^ (-1074)`, the smallest positive
number of the format, so that comparison and rounding are exact arithmetic on
natural numbers.
-/

namespace DecisionTables

/-- A number of the 64 bit binary format; the two zeros differ in their sign. -/
inductive Binary64 where
  | nan
  | infinite (negative : Bool)
  | finite (negative : Bool) (units : Nat)
  deriving DecidableEq, Repr, Inhabited

namespace Binary64

/-- The units that make up the number one. -/
def unitsPerOne : Nat := Nat.pow 2 1074

/-- The least count of units that is too large to be finite. -/
def unitsLimit : Nat := Nat.pow 2 2098

/-- The number of binary digits. -/
def bitLength (n : Nat) : Nat :=
  if n = 0 then 0 else Nat.log2 n + 1

/-- The distance between neighbouring numbers at a count of units: 53 binary digits are kept. -/
def spacing (units : Nat) : Nat :=
  Nat.pow 2 (bitLength units - 53)

/-- The quotient as a whole number: the nearest one, and of two the even one. -/
def roundHalfEven (num den : Nat) : Nat :=
  let q := num / den
  let r := num % den
  if den < 2 * r || (den == 2 * r && q % 2 == 1) then q + 1 else q

/-- The finite or infinite number nearest to a quotient of units. -/
def ofQuotient (negative : Bool) (num den : Nat) : Binary64 :=
  let grid := spacing (num / den)
  let units := roundHalfEven num (den * grid) * grid
  if unitsLimit ≤ units then infinite negative else finite negative units

/-- The decimal exponent of the leading digit, to within one. -/
def roughMagnitude (digits : Nat) (exponent : Int) : Int :=
  exponent + (Nat.log2 digits * 30103 / 100000 : Nat)

/-- The number nearest to `digits * 10 ^ exponent`. -/
def ofDecimal (negative : Bool) (digits : Nat) (exponent : Int) : Binary64 :=
  if digits = 0 then finite negative 0
  else if roughMagnitude digits exponent > 400 then infinite negative
  else if roughMagnitude digits exponent < -400 then finite negative 0
  else if 0 ≤ exponent then
    ofQuotient negative (digits * Nat.pow 10 exponent.toNat * unitsPerOne) 1
  else
    ofQuotient negative (digits * unitsPerOne) (Nat.pow 10 (-exponent).toNat)

/-- The sign and the units of a finite number as one integer. -/
def signedUnits (negative : Bool) (units : Nat) : Int :=
  if negative then -(units : Int) else units

/-- The numeric order; a number that is not one is never less nor greater. -/
def lt : Binary64 → Binary64 → Bool
  | nan, _ => false
  | _, nan => false
  | infinite true, infinite true => false
  | infinite true, _ => true
  | infinite false, _ => false
  | finite _ _, infinite negative => !negative
  | finite s m, finite t n => signedUnits s m < signedUnits t n

/-- Numeric equality: the two zeros are equal, and no number equals `nan`. -/
def same : Binary64 → Binary64 → Bool
  | infinite s, infinite t => s == t
  | finite s m, finite t n => signedUnits s m == signedUnits t n
  | _, _ => false

/-- An integer as a count of units, whether or not the format can hold it. -/
def exactly (i : Int) : Binary64 :=
  finite (i < 0) (i.natAbs * unitsPerOne)

/-- One of the two zeros. -/
def isZero : Binary64 → Bool
  | finite _ units => units == 0
  | _ => false

theorem lt_irrefl (x : Binary64) : lt x x = false := by
  match x with
  | nan => rfl
  | infinite true => rfl
  | infinite false => rfl
  | finite s m => simp [lt]

theorem lt_asymm {x y : Binary64} (h : lt x y = true) : lt y x = false := by
  match x, y with
  | nan, _ => simp [lt] at h
  | infinite true, nan => rfl
  | infinite true, infinite true => rfl
  | infinite true, infinite false => rfl
  | infinite true, finite _ _ => rfl
  | infinite false, nan => simp [lt] at h
  | infinite false, infinite _ => simp [lt] at h
  | infinite false, finite _ _ => simp [lt] at h
  | finite _ _, nan => simp [lt] at h
  | finite _ _, infinite true => simp [lt] at h
  | finite _ _, infinite false => rfl
  | finite s m, finite t n =>
    simp only [lt, decide_eq_true_eq, decide_eq_false_iff_not] at h ⊢
    omega

theorem same_symm {x y : Binary64} (h : same x y = true) : same y x = true := by
  cases x <;> cases y <;> simp_all [same]

theorem same_trans {x y z : Binary64} (h : same x y = true) (k : same y z = true) :
    same x z = true := by
  cases x <;> cases y <;> cases z <;> simp_all [same]

end Binary64

end DecisionTables
