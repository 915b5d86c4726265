import Mathlib
import DecisionTables.Numeral.Shortest

/-!
# Rounding

Every quotient in the span of a number of the format rounds to this number, in whatever way the
quotient is written.  Seventeen digits are enough to hit the span of a number, so the
decimal that is found for it is read as the same number.
-/

namespace DecisionTables.Binary64

/-- A number that the format holds: finite units are below the limit and on the grid. -/
def Proper : Binary64 → Prop
  | finite _ units => units < unitsLimit ∧ spacing units ∣ units
  | _ => True

/-! ## The grid -/

section

variable {u num den : Nat} {negative : Bool}

theorem spacing_of_lt (small : u < 2 ^ 53) : spacing u = 1 := by
  have short : bitLength u ≤ 53 := by
    unfold bitLength
    split
    · exact Nat.zero_le _
    · rename_i positive
      exact Nat.succ_le_of_lt ((Nat.log2_lt positive).mpr small)
  rw [spacing, Nat.sub_eq_zero_of_le short, Nat.pow_eq, Nat.pow_zero]

theorem spacing_of_le {g : Nat} (lower : 2 ^ (52 + g) ≤ u) (upper : u < 2 ^ (53 + g)) :
    spacing u = 2 ^ g := by
  have positive : u ≠ 0 := (Nat.lt_of_lt_of_le (Nat.two_pow_pos _) lower).ne'
  have log : Nat.log2 u = 52 + g :=
    (Nat.log2_eq_iff positive).mpr ⟨lower, by rwa [show 52 + g + 1 = 53 + g by omega]⟩
  rw [spacing, bitLength, if_neg positive, log, show 52 + g + 1 - 53 = g by omega]
  rfl

theorem spacing_le (positive : 0 < u) : spacing u ≤ u := by
  have log := Nat.log2_self_le positive.ne'
  rw [spacing, bitLength, if_neg positive.ne']
  exact (Nat.pow_le_pow_right Nat.two_pos (by omega)).trans log

/-- A whole number lies between two powers of two, from which its spacing can be told. -/
theorem exists_spacing (n : Nat) :
    ∃ g, spacing n = 2 ^ g ∧ n < 2 ^ (53 + g) ∧ (g ≠ 0 → 2 ^ (52 + g) ≤ n) := by
  by_cases small : n < 2 ^ 53
  · exact ⟨0, spacing_of_lt small, small, fun zero => (zero rfl).elim⟩
  · have positive : n ≠ 0 := by
      rintro rfl
      exact small (Nat.two_pow_pos 53)
    have high : 53 ≤ Nat.log2 n := (Nat.le_log2 positive).mpr (Nat.le_of_not_lt small)
    obtain ⟨g, log⟩ := Nat.exists_eq_add_of_le high
    have lower : 2 ^ (52 + (g + 1)) ≤ n := by
      rw [show 52 + (g + 1) = Nat.log2 n by omega]
      exact Nat.log2_self_le positive
    have upper : n < 2 ^ (53 + (g + 1)) := by
      rw [show 53 + (g + 1) = Nat.log2 n + 1 by omega]
      exact Nat.lt_log2_self
    exact ⟨g + 1, spacing_of_le lower upper, upper, fun _ => lower⟩

/-- A positive number on the grid: a small one, or one with 53 binary digits. -/
inductive OnGrid : Nat → Nat → Nat → Prop where
  | small {m} (positive : 0 < m) (small : m < 2 ^ 53) : OnGrid m 0 m
  | normal {g m} (lower : 2 ^ 52 ≤ m) (upper : m < 2 ^ 53) : OnGrid m (g + 1) (m * 2 ^ (g + 1))

theorem exists_onGrid (positive : 0 < u) (proper : spacing u ∣ u) : ∃ m g, OnGrid m g u := by
  obtain ⟨g, space, upper, lower⟩ := exists_spacing u
  rw [space] at proper
  obtain ⟨m, rfl⟩ := proper
  rw [Nat.pow_add 2 53, Nat.mul_comm (2 ^ 53)] at upper
  have small := Nat.lt_of_mul_lt_mul_left upper
  cases g with
  | zero =>
      rw [Nat.pow_zero, Nat.one_mul] at positive ⊢
      exact ⟨m, 0, .small positive small⟩
  | succ g =>
      have lower := lower (Nat.succ_ne_zero g)
      rw [Nat.pow_add 2 52, Nat.mul_comm (2 ^ 52)] at lower
      refine ⟨m, g + 1, ?_⟩
      rw [Nat.mul_comm]
      exact .normal (Nat.le_of_mul_le_mul_left lower (Nat.two_pow_pos _)) small

theorem OnGrid.spacing_eq {m g : Nat} (grid : OnGrid m g u) : spacing u = 2 ^ g := by
  cases grid with
  | small _ small => exact spacing_of_lt small
  | @normal g m lower upper =>
      refine spacing_of_le ?_ ?_
      · rw [Nat.pow_add 2 52]
        exact Nat.mul_le_mul_right _ lower
      · rw [Nat.pow_add 2 53]
        exact Nat.mul_lt_mul_of_pos_right upper (Nat.two_pow_pos _)

theorem OnGrid.eq {m g : Nat} (grid : OnGrid m g u) : u = m * 2 ^ g := by
  cases grid <;> simp

/-! ## Rounding to the nearest -/

/-- What is at most half away from a whole number, and not exactly half unless the number is even,
rounds to it. -/
theorem roundHalfEven_eq {m : Nat} (positive : 0 < den) (lower : 2 * m * den ≤ 2 * num + den)
    (upper : 2 * num ≤ (2 * m + 1) * den)
    (strict : m % 2 = 1 → 2 * m * den < 2 * num + den ∧ 2 * num < (2 * m + 1) * den) :
    roundHalfEven num den = m := by
  have whole : den * (num / den) + num % den = num := Nat.div_add_mod num den
  have part : num % den < den := Nat.mod_lt num positive
  rw [roundHalfEven]
  generalize num / den = q at whole ⊢
  generalize num % den = r at whole part ⊢
  subst whole
  have below : m ≤ q + 1 := by
    have : m * den < (q + 2) * den := by linarith
    exact Nat.le_of_lt_succ (Nat.lt_of_mul_lt_mul_right this)
  have above : q ≤ m := by
    have : q * den < (m + 1) * den := by linarith
    exact Nat.le_of_lt_succ (Nat.lt_of_mul_lt_mul_right this)
  rcases Nat.eq_or_lt_of_le above with rfl | less
  · have half : 2 * r ≤ den := by linarith
    rw [if_neg]
    simp only [Bool.or_eq_true, Bool.and_eq_true, decide_eq_true_eq, beq_iff_eq, not_or, not_and]
    refine ⟨Nat.not_lt.mpr half, fun tie odd => ?_⟩
    have := (strict odd).2
    linarith
  · obtain rfl : m = q + 1 := Nat.le_antisymm below less
    have half : den ≤ 2 * r := by linarith
    rw [if_pos]
    simp only [Bool.or_eq_true, Bool.and_eq_true, decide_eq_true_eq, beq_iff_eq]
    rcases Nat.eq_or_lt_of_le half with tie | more
    · refine .inr ⟨tie, ?_⟩
      by_contra even
      have := (strict (by omega)).1
      linarith
    · exact .inl more

/-! ## Spans -/

/-- How far the span of a number reaches below it, in quarters of a unit. -/
def below (units : Nat) : Nat :=
  if units == Nat.pow 2 52 * spacing units && spacing units > 1 then spacing units
  else 2 * spacing units

/-- A quotient lies in the span of a number when it is at most so far away, and not exactly so far
unless the number is even. -/
theorem contains_iff (positive : 0 < u) {a b : Nat} :
    (spanOf u).contains a b = true ↔
      4 * u * b ≤ a + below u * b ∧ a ≤ (4 * u + 2 * spacing u) * b ∧
        (u / spacing u % 2 = 1 → 4 * u * b < a + below u * b ∧ a < (4 * u + 2 * spacing u) * b) := by
  have low : (spanOf u).low = 4 * u - below u := rfl
  have high : (spanOf u).high = 4 * u + 2 * spacing u := rfl
  have closed : (spanOf u).closed = (u / spacing u % 2 == 0) := rfl
  have reach : below u * b ≤ 4 * u * b := by
    refine Nat.mul_le_mul_right b ?_
    have := spacing_le positive
    unfold below
    split <;> omega
  rw [Span.contains, low, high, closed, Nat.sub_mul]
  revert reach
  generalize u / spacing u = m
  generalize 4 * u * b = l
  generalize below u * b = w
  generalize (4 * u + 2 * spacing u) * b = h
  intro reach
  cases even : m % 2 == 0 with
  | true =>
      rw [if_pos rfl, Bool.and_eq_true, decide_eq_true_eq, decide_eq_true_eq]
      have := beq_iff_eq.mp even
      omega
  | false =>
      rw [if_neg Bool.false_ne_true, Bool.and_eq_true, decide_eq_true_eq, decide_eq_true_eq]
      have := beq_eq_false_iff_ne.mp even
      omega

theorem below_mul_le (u b : Nat) : below u * b ≤ 2 * (b * spacing u) := by
  have reach : below u ≤ 2 * spacing u := by
    unfold below
    split <;> omega
  calc below u * b ≤ 2 * spacing u * b := Nat.mul_le_mul_right b reach
    _ = 2 * (b * spacing u) := by ring

/-- Where a quotient lies on the grid of a number in whose span it is, it rounds to the number. -/
theorem rounds_on_grid {m g : Nat} (grid : OnGrid m g u) (positive : 0 < u) (whole : 0 < den)
    (inside : (spanOf u).contains (4 * num) den = true) (same : spacing (num / den) = 2 ^ g) :
    roundHalfEven num (den * spacing (num / den)) * spacing (num / den) = u := by
  obtain ⟨lower, upper, strict⟩ := (contains_iff positive).mp inside
  have reach := below_mul_le u den
  have quotient : u / spacing u = m := by
    rw [grid.spacing_eq, grid.eq, Nat.mul_div_cancel _ (Nat.two_pow_pos g)]
  have units : 4 * u * den = 4 * m * (den * 2 ^ g) := by
    rw [grid.eq]
    ring
  have top : (4 * u + 2 * 2 ^ g) * den = (4 * m + 2) * (den * 2 ^ g) := by
    rw [grid.eq]
    ring
  rw [quotient, grid.spacing_eq, units, top] at strict
  rw [units] at lower
  rw [grid.spacing_eq, top] at upper
  rw [grid.spacing_eq] at reach
  rw [same, grid.eq]
  refine congrArg (· * 2 ^ g) (roundHalfEven_eq (Nat.mul_pos whole (Nat.two_pow_pos g)) ?_ ?_ ?_)
  · linarith
  · linarith
  · intro odd
    obtain ⟨lower, upper⟩ := strict odd
    constructor <;> linarith

/-- Below the least number of a grid the grid is twice as fine.  A quotient there that is at most a quarter
of the wider spacing away from the number rounds to it. -/
theorem rounds_to_least {g : Nat} (whole : 0 < den)
    (lower : 4 * (2 ^ 52 * 2 ^ (g + 1)) * den ≤ 4 * num + 2 ^ (g + 1) * den)
    (short : num < 2 ^ 52 * 2 ^ (g + 1) * den) :
    roundHalfEven num (den * spacing (num / den)) * spacing (num / den) = 2 ^ 52 * 2 ^ (g + 1) := by
  have half : 2 ^ (g + 1) = 2 * 2 ^ g := by ring
  have part : 0 < den * 2 ^ g := Nat.mul_pos whole (Nat.two_pow_pos _)
  rw [half] at lower short ⊢
  have finer : spacing (num / den) = 2 ^ g := by
    refine spacing_of_le ((Nat.le_div_iff_mul_le whole).mpr ?_) ((Nat.div_lt_iff_lt_mul whole).mpr ?_)
    · rw [Nat.pow_add 2 52]
      linarith
    · rw [Nat.pow_add 2 53]
      linarith
  rw [finer, show 2 ^ 52 * (2 * 2 ^ g) = 2 ^ 53 * 2 ^ g by ring]
  refine congrArg (· * 2 ^ g) (roundHalfEven_eq part ?_ ?_ fun odd => ?_)
  · linarith
  · linarith
  · exact absurd odd (by decide)

/-- What lies in the span of a number of the format rounds to it. -/
theorem ofQuotient_eq (positive : 0 < u) (proper : (finite negative u).Proper) (whole : 0 < den)
    (inside : (spanOf u).contains (4 * num) den = true) :
    ofQuotient negative num den = finite negative u := by
  obtain ⟨m, g, grid⟩ := exists_onGrid positive proper.2
  suffices rounds : roundHalfEven num (den * spacing (num / den)) * spacing (num / den) = u by
    rw [ofQuotient]
    simp only [rounds]
    rw [if_neg (Nat.not_le.mpr proper.1)]
  have on_grid := rounds_on_grid grid positive whole inside
  have space := grid.spacing_eq
  obtain ⟨lower, upper, _⟩ := (contains_iff positive).mp inside
  have reach := below_mul_le u den
  rw [space] at upper reach
  cases grid with
  | small positive small =>
      refine on_grid (spacing_of_lt ((Nat.div_lt_iff_lt_mul whole).mpr ?_))
      have : (u + 1) * den ≤ 2 ^ 53 * den := Nat.mul_le_mul_right _ small
      linarith
  | @normal g m least most =>
      have top : (m + 1) * (den * 2 ^ (g + 1)) ≤ 2 ^ 53 * (den * 2 ^ (g + 1)) :=
        Nat.mul_le_mul_right _ most
      have part : 0 < den * 2 ^ (g + 1) := Nat.mul_pos whole (Nat.two_pow_pos _)
      have short : num / den < 2 ^ (53 + (g + 1)) := by
        rw [Nat.div_lt_iff_lt_mul whole, Nat.pow_add 2 53]
        linarith
      by_cases high : 2 ^ (52 + (g + 1)) ≤ num / den
      · exact on_grid (spacing_of_le high short)
      · -- then the quotient is below the number, which is the least one with this grid
        rw [Nat.not_le, Nat.div_lt_iff_lt_mul whole, Nat.pow_add 2 52] at high
        have units : 4 * (m * 2 ^ (g + 1)) * den = 4 * m * (den * 2 ^ (g + 1)) := by ring
        have least : m = 2 ^ 52 := by
          refine Nat.le_antisymm (Nat.le_of_not_lt fun more => ?_) least
          have : (2 ^ 52 + 1) * (den * 2 ^ (g + 1)) ≤ m * (den * 2 ^ (g + 1)) :=
            Nat.mul_le_mul_right _ more
          linarith
        subst least
        have fine : below (2 ^ 52 * 2 ^ (g + 1)) = 2 ^ (g + 1) := by
          rw [below, space, if_pos]
          rw [Bool.and_eq_true, beq_iff_eq, decide_eq_true_eq]
          exact ⟨rfl, Nat.one_lt_two_pow (Nat.succ_ne_zero g)⟩
        rw [fine] at lower
        exact rounds_to_least whole lower high

/-- A quotient lies in a span however it is written. -/
theorem contains_congr {span : Span} {a b c d : Nat} (left : 0 < b) (right : 0 < d)
    (same : a * d = c * b) : span.contains a b = span.contains c d := by
  have le : ∀ l, l * b ≤ a ↔ l * d ≤ c := by
    intro l
    have scaled : l * b * d ≤ a * d ↔ l * d * b ≤ c * b := by rw [same, Nat.mul_right_comm]
    rwa [Nat.mul_le_mul_right_iff right, Nat.mul_le_mul_right_iff left] at scaled
  have ge : ∀ h, a ≤ h * b ↔ c ≤ h * d := by
    intro h
    have scaled : a * d ≤ h * b * d ↔ c * b ≤ h * d * b := by rw [same, Nat.mul_right_comm]
    rwa [Nat.mul_le_mul_right_iff right, Nat.mul_le_mul_right_iff left] at scaled
  have lt : ∀ l, l * b < a ↔ l * d < c := fun l => by rw [← Nat.not_le, ge, Nat.not_le]
  have gt : ∀ h, a < h * b ↔ c < h * d := fun h => by rw [← Nat.not_le, le, Nat.not_le]
  rw [Span.contains, Span.contains]
  simp only [le, ge, lt, gt]

end

end DecisionTables.Binary64

/-! ## Decimals -/

namespace DecisionTables.Decimal

theorem powerOfTen_pos (e : Int) : 0 < (powerOfTen e).2 :=
  Nat.pow_pos (by decide)

theorem powerOfTen_of_nonneg {e : Int} (up : 0 ≤ e) : powerOfTen e = (10 ^ e.toNat, 1) := by
  rw [powerOfTen, show (-e).toNat = 0 by omega]
  rfl

theorem powerOfTen_of_nonpos {e : Int} (down : e ≤ 0) : powerOfTen e = (1, 10 ^ (-e).toNat) := by
  rw [powerOfTen, show e.toNat = 0 by omega]
  rfl

theorem pow_le_up {e : Int} {n : Nat} (le : n ≤ e) : 10 ^ n ≤ (powerOfTen e).1 :=
  Nat.pow_le_pow_right (by decide) (by omega)

theorem pow_le_down {e : Int} {n : Nat} (le : n ≤ -e) : 10 ^ n ≤ (powerOfTen e).2 :=
  Nat.pow_le_pow_right (by decide) (by omega)

/-- Ten to a greater exponent is the product. -/
theorem powerOfTen_add (e : Int) (k : Nat) :
    (powerOfTen (e + k)).1 * (powerOfTen e).2 = 10 ^ k * (powerOfTen e).1 * (powerOfTen (e + k)).2 := by
  simp only [powerOfTen, Nat.pow_eq, ← Nat.pow_add]
  refine congrArg (10 ^ ·) ?_
  omega

/-- The decimal lies in the span of a number. -/
def Hits (d : Decimal) (units : Nat) : Prop :=
  (Binary64.spanOf units).contains (4 * d.digits * (powerOfTen d.exponent).1 * Binary64.unitsPerOne)
    (powerOfTen d.exponent).2 = true

/-- Zeros at the end of the digits can be moved into the exponent. -/
theorem hits_shift {digits units : Nat} {e : Int} (k : Nat) :
    Hits ⟨digits * 10 ^ k, e⟩ units ↔ Hits ⟨digits, e + k⟩ units := by
  have same : 4 * (digits * 10 ^ k) * (powerOfTen e).1 * Binary64.unitsPerOne * (powerOfTen (e + k)).2 =
      4 * digits * (powerOfTen (e + k)).1 * Binary64.unitsPerOne * (powerOfTen e).2 := by
    calc _ = 4 * digits * Binary64.unitsPerOne *
          (10 ^ k * (powerOfTen e).1 * (powerOfTen (e + k)).2) := by ring
      _ = 4 * digits * Binary64.unitsPerOne * ((powerOfTen (e + k)).1 * (powerOfTen e).2) := by
        rw [powerOfTen_add]
      _ = _ := by ring
  rw [Hits, Hits, Binary64.contains_congr (powerOfTen_pos _) (powerOfTen_pos _) same]

/-- Moving zeros into the exponent changes neither the number nor makes the digits more. -/
theorem normalize_hits {units : Nat} (fuel : Nat) {d : Decimal} (positive : 0 < d.digits)
    (hits : d.Hits units) :
    0 < (normalize fuel d).digits ∧ (normalize fuel d).digits ≤ d.digits ∧
      (normalize fuel d).Hits units := by
  induction fuel generalizing d with
  | zero => exact ⟨positive, Nat.le_refl _, hits⟩
  | succ fuel ih =>
      rw [normalize]
      split
      · rename_i zero
        have whole : d.digits / 10 * 10 ^ 1 = d.digits := by omega
        have moved : Hits ⟨d.digits / 10 * 10 ^ 1, d.exponent⟩ units ↔
            Hits ⟨d.digits / 10, d.exponent + 1⟩ units := hits_shift 1
        rw [whole] at moved
        obtain ⟨some, less, hits'⟩ := ih (d := ⟨d.digits / 10, d.exponent + 1⟩)
          (show 0 < d.digits / 10 by omega) (moved.mp hits)
        exact ⟨some, less.trans (Nat.div_le_self _ _), hits'⟩
      · exact ⟨positive, Nat.le_refl _, hits⟩

end DecisionTables.Decimal

namespace DecisionTables.Binary64

open Decimal (powerOfTen powerOfTen_add powerOfTen_pos powerOfTen_of_nonneg powerOfTen_of_nonpos)

/-- The most digits that are ever needed. -/
def digitLimit : Nat := 10 ^ 17

section

variable {units : Nat} {negative : Bool} {d : Decimal}

/-- A decimal in the span of a number of the format is not too large. -/
theorem exponent_lt (positive : 0 < units) (proper : (finite negative units).Proper)
    (some : 0 < d.digits) (hits : d.Hits units) : d.exponent < 385 := by
  by_contra large
  obtain ⟨_, upper, _⟩ := (contains_iff positive).mp hits
  obtain ⟨n, least, limit⟩ : ∃ n, n = 385 ∧ 2 * unitsLimit < 10 ^ n * unitsPerOne :=
    ⟨385, rfl, by decide +kernel⟩
  have power : 10 ^ n ≤ (powerOfTen d.exponent).1 := Decimal.pow_le_up (by omega)
  have product := Nat.mul_le_mul_right unitsPerOne (Nat.mul_le_mul some power)
  have space := spacing_le positive
  have small := proper.1
  rw [powerOfTen_of_nonneg (by omega)] at upper power product
  linarith

/-- A decimal of not too many digits in the span of a number of the format is not too small. -/
theorem lt_exponent (positive : 0 < units) (few : d.digits ≤ digitLimit) (hits : d.Hits units) :
    -400 < d.exponent := by
  by_contra small
  obtain ⟨lower, _, _⟩ := (contains_iff positive).mp hits
  obtain ⟨n, least, limit⟩ : ∃ n, n = 400 ∧ 2 * digitLimit * unitsPerOne < 10 ^ n :=
    ⟨400, rfl, by decide +kernel⟩
  have power : 10 ^ n ≤ (powerOfTen d.exponent).2 := Decimal.pow_le_down (by omega)
  have reach := (below_mul_le units (powerOfTen d.exponent).2).trans
    (Nat.mul_le_mul_left 2 (Nat.mul_le_mul_left _ (spacing_le positive)))
  have product := Nat.mul_le_mul_right unitsPerOne few
  have whole := Nat.mul_le_mul_right (powerOfTen d.exponent).2 positive
  rw [powerOfTen_of_nonpos (by omega)] at lower reach whole power
  linarith

/-- A decimal of not too many digits that lies in the span of a number is read as this number. -/
theorem ofDecimal_eq (positive : 0 < units) (proper : (finite negative units).Proper)
    (some : 0 < d.digits) (few : d.digits ≤ digitLimit) (hits : d.Hits units) :
    ofDecimal negative d.digits d.exponent = finite negative units := by
  have log : Nat.log2 d.digits < 57 :=
    (Nat.log2_lt some.ne').mpr (few.trans_lt (by decide))
  have large := exponent_lt positive proper some hits
  have small := lt_exponent positive few hits
  have rough : d.exponent ≤ roughMagnitude d.digits d.exponent ∧
      roughMagnitude d.digits d.exponent ≤ d.exponent + 16 := by
    unfold roughMagnitude
    omega
  rw [ofDecimal, if_neg some.ne', if_neg (by omega), if_neg (by omega)]
  have quotient : ofQuotient negative (d.digits * (powerOfTen d.exponent).1 * unitsPerOne)
      (powerOfTen d.exponent).2 = finite negative units := by
    refine ofQuotient_eq positive proper (powerOfTen_pos _) ?_
    rw [← Nat.mul_assoc, ← Nat.mul_assoc]
    exact hits
  split
  · rename_i up
    rw [powerOfTen_of_nonneg up] at quotient
    exact quotient
  · rename_i down
    rw [powerOfTen_of_nonpos (by omega), Nat.mul_one] at quotient
    exact quotient

end

/-! ## The shortest decimal -/

/-- A count of units is at least a power of ten. -/
def AtLeast (units : Nat) (e : Int) : Prop :=
  (powerOfTen e).1 * unitsPerOne ≤ units * (powerOfTen e).2

theorem leadingExponent_go {units : Nat} (fuel : Nat) {e : Int} (least : AtLeast units e)
    (most : ¬ AtLeast units (e + fuel + 1)) :
    AtLeast units (leadingExponent.go units fuel e) ∧
      ¬ AtLeast units (leadingExponent.go units fuel e + 1) := by
  induction fuel generalizing e with
  | zero =>
      rw [Nat.cast_zero, add_zero] at most
      exact ⟨least, most⟩
  | succ fuel ih =>
      have step : leadingExponent.go units (fuel + 1) e =
          if (powerOfTen (e + 1)).1 * unitsPerOne ≤ units * (powerOfTen (e + 1)).2 then
            leadingExponent.go units fuel (e + 1) else e := rfl
      rw [step]
      by_cases next : AtLeast units (e + 1)
      · have most : ¬ AtLeast units (e + 1 + fuel + 1) := by
          rw [show e + 1 + fuel + 1 = e + (fuel + 1 : Nat) + 1 by omega]
          exact most
        rw [if_pos (show _ ≤ _ from next)]
        exact ih next most
      · rw [if_neg (show ¬ _ ≤ _ from next)]
        exact ⟨least, next⟩

/-- The exponent from which the search starts, for a number of so many binary digits. -/
def firstExponent (log : Nat) : Int :=
  ((log : Int) - 1074) * 30103 / 100000 - 1

/-- The search starts from an exponent that is not too large, and ends before it is. -/
theorem firstExponent_bounds {log : Nat} (small : log < 2098) :
    (powerOfTen (firstExponent log)).1 * unitsPerOne ≤ 2 ^ log * (powerOfTen (firstExponent log)).2 ∧
      2 ^ (log + 1) * (powerOfTen (firstExponent log + 5)).2 ≤
        (powerOfTen (firstExponent log + 5)).1 * unitsPerOne := by
  have all : (List.range 2098).all (fun log => decide
      ((powerOfTen (firstExponent log)).1 * unitsPerOne ≤
          2 ^ log * (powerOfTen (firstExponent log)).2 ∧
        2 ^ (log + 1) * (powerOfTen (firstExponent log + 5)).2 ≤
          (powerOfTen (firstExponent log + 5)).1 * unitsPerOne)) = true := by
    decide +kernel
  exact of_decide_eq_true (List.all_eq_true.mp all log (List.mem_range.mpr small))

/-- The leading exponent is the largest one that is not above the number. -/
theorem leadingExponent_spec {units : Nat} (positive : 0 < units) (small : units < unitsLimit) :
    AtLeast units (leadingExponent units) ∧ ¬ AtLeast units (leadingExponent units + 1) := by
  have log : Nat.log2 units < 2098 := by
    obtain ⟨n, length, limit⟩ : ∃ n, n = 2098 ∧ unitsLimit = 2 ^ n := ⟨2098, rfl, by decide +kernel⟩
    rw [limit] at small
    exact length ▸ (Nat.log2_lt positive.ne').mpr small
  obtain ⟨first, last⟩ := firstExponent_bounds log
  have least : AtLeast units (firstExponent (Nat.log2 units)) :=
    first.trans (Nat.mul_le_mul_right _ (Nat.log2_self_le positive.ne'))
  have most : ¬ AtLeast units (firstExponent (Nat.log2 units) + (4 : Nat) + 1) := by
    have less := Nat.mul_lt_mul_of_pos_right (@Nat.lt_log2_self units)
      (powerOfTen_pos (firstExponent (Nat.log2 units) + 5))
    rw [add_assoc]
    exact Nat.not_le.mpr (less.trans_le last)
  exact leadingExponent_go 4 least most

section

variable {units : Nat} {e : Int} {d : Decimal}

/-- How often a power of ten goes into a number. -/
def wholeTimes (units : Nat) (e : Int) : Nat :=
  units * (powerOfTen e).2 / ((powerOfTen e).1 * unitsPerOne)

theorem hits_iff {digits : Nat} :
    Decimal.Hits ⟨digits, e⟩ units ↔
      (spanOf units).contains (4 * digits * ((powerOfTen e).1 * unitsPerOne)) (powerOfTen e).2 = true := by
  rw [← Nat.mul_assoc]
  exact Iff.rfl

/-- The decimal with an exponent that is found has one of two counts of digits, and it lies in the
span; there is one if one of the two does. -/
theorem decimalAt?_spec (units : Nat) (e : Int) :
    (∀ d, decimalAt? units e = some d → d.exponent = e ∧
        (d.digits = wholeTimes units e ∨ d.digits = wholeTimes units e + 1) ∧ d.Hits units) ∧
      (Decimal.Hits ⟨wholeTimes units e, e⟩ units ∨ Decimal.Hits ⟨wholeTimes units e + 1, e⟩ units →
        ∃ d, decimalAt? units e = some d) := by
  rw [hits_iff, hits_iff]
  have low := @hits_iff units e (wholeTimes units e)
  have high := @hits_iff units e (wholeTimes units e + 1)
  unfold decimalAt?
  dsimp only
  rw [← wholeTimes]
  revert low high
  generalize (spanOf units).contains (4 * wholeTimes units e * _) _ = lowHit
  generalize (spanOf units).contains (4 * (wholeTimes units e + 1) * _) _ = highHit
  intro low high
  cases lowHit <;> cases highHit
  · refine ⟨fun d impossible => (by cases impossible), fun either => ?_⟩
    rcases either with impossible | impossible <;> cases impossible
  · refine ⟨fun d found => ?_, fun _ => ⟨_, rfl⟩⟩
    cases found
    exact ⟨rfl, .inr rfl, high.mpr rfl⟩
  · refine ⟨fun d found => ?_, fun _ => ⟨_, rfl⟩⟩
    cases found
    exact ⟨rfl, .inl rfl, low.mpr rfl⟩
  · refine ⟨fun d found => ?_, fun _ => ⟨_, rfl⟩⟩
    cases found
    refine ⟨rfl, ?_⟩
    split
    · exact ⟨.inl rfl, low.mpr rfl⟩
    · split
      · exact ⟨.inr rfl, high.mpr rfl⟩
      · split
        · exact ⟨.inl rfl, low.mpr rfl⟩
        · exact ⟨.inr rfl, high.mpr rfl⟩

theorem unitsPerOne_pos : 0 < unitsPerOne := by
  decide +kernel

/-- How a number compares with a power of ten can be seen at a smaller power. -/
theorem atLeast_add (e : Int) (n : Nat) :
    AtLeast units (e + n) ↔ 10 ^ n * ((powerOfTen e).1 * unitsPerOne) ≤ units * (powerOfTen e).2 := by
  have left : (powerOfTen (e + n)).1 * unitsPerOne * (powerOfTen e).2 =
      10 ^ n * ((powerOfTen e).1 * unitsPerOne) * (powerOfTen (e + n)).2 := by
    calc (powerOfTen (e + n)).1 * unitsPerOne * (powerOfTen e).2
        = (powerOfTen (e + n)).1 * (powerOfTen e).2 * unitsPerOne := by ring
      _ = 10 ^ n * ((powerOfTen e).1 * unitsPerOne) * (powerOfTen (e + n)).2 := by
        rw [powerOfTen_add]
        ring
  rw [AtLeast, ← Nat.mul_le_mul_right_iff (powerOfTen_pos e), left, Nat.mul_right_comm units,
    Nat.mul_le_mul_right_iff (powerOfTen_pos (e + n))]

/-- A power of ten below the leading one goes into the number at least once, and not too often. -/
theorem wholeTimes_bounds {n : Nat} (least : AtLeast units (e + n))
    (most : ¬ AtLeast units (e + n + 1)) :
    0 < wholeTimes units e ∧ wholeTimes units e < 10 ^ (n + 1) := by
  have whole : 0 < (powerOfTen e).1 * unitsPerOne :=
    Nat.mul_pos (Nat.pow_pos (by decide)) unitsPerOne_pos
  rw [atLeast_add] at least
  rw [add_assoc, ← Nat.cast_succ, atLeast_add] at most
  constructor
  · refine (Nat.le_div_iff_mul_le whole).mpr ?_
    exact (Nat.mul_le_mul_right _ (Nat.one_le_pow n 10 (by decide))).trans least
  · exact (Nat.div_lt_iff_lt_mul whole).mpr (Nat.not_le.mp most)

theorem le_mul_spacing (positive : 0 < units) (proper : spacing units ∣ units) :
    units ≤ 2 ^ 53 * spacing units := by
  obtain ⟨m, g, grid⟩ := exists_onGrid positive proper
  rw [grid.spacing_eq, grid.eq]
  refine Nat.mul_le_mul_right _ ?_
  cases grid with
  | small _ small => exact small.le
  | normal _ upper => exact upper.le

/-- With seventeen digits one of the two neighbouring decimals lies in the span. -/
theorem hits_of_atLeast (positive : 0 < units) (proper : spacing units ∣ units)
    (least : AtLeast units (e + 16)) :
    Decimal.Hits ⟨wholeTimes units e, e⟩ units ∨ Decimal.Hits ⟨wholeTimes units e + 1, e⟩ units := by
  have fine : 10 ^ 16 * ((powerOfTen e).1 * unitsPerOne) ≤ units * (powerOfTen e).2 :=
    (atLeast_add e 16).mp least
  have coarse := Nat.mul_le_mul_right (powerOfTen e).2 (le_mul_spacing positive proper)
  have step : 0 < (powerOfTen e).1 * unitsPerOne :=
    Nat.mul_pos (Nat.pow_pos (by decide)) unitsPerOne_pos
  have some := Nat.zero_le (below units * (powerOfTen e).2)
  have divided := Nat.div_add_mod (units * (powerOfTen e).2) ((powerOfTen e).1 * unitsPerOne)
  have rest := Nat.mod_lt (units * (powerOfTen e).2) step
  have reach : below units * (powerOfTen e).2 = 2 * spacing units * (powerOfTen e).2 ∨
      below units * (powerOfTen e).2 = spacing units * (powerOfTen e).2 ∧
        units * (powerOfTen e).2 = 2 ^ 52 * spacing units * (powerOfTen e).2 := by
    unfold below
    split
    · rename_i least
      rw [Bool.and_eq_true, beq_iff_eq] at least
      exact .inr ⟨rfl, congrArg (· * _) least.1⟩
    · exact .inl rfl
  rw [← wholeTimes] at divided
  rw [hits_iff, hits_iff, contains_iff positive, contains_iff positive]
  generalize units * (powerOfTen e).2 % _ = rest' at divided rest
  generalize (powerOfTen e).1 * unitsPerOne = step' at fine step divided rest ⊢
  generalize wholeTimes units e = times at divided ⊢
  -- the upper neighbour is near enough, or the lower one is
  by_cases near : 2 * step' < spacing units * (powerOfTen e).2 + 2 * rest'
  · refine .inr ⟨?_, ?_, fun _ => ⟨?_, ?_⟩⟩ <;> linarith
  · rcases reach with reach | ⟨reach, power⟩
    · rw [reach]
      refine .inl ⟨?_, ?_, fun _ => ⟨?_, ?_⟩⟩ <;> linarith
    · linarith

/-- The shortest decimal of a positive number of the format has at most seventeen digits and lies in
the span of the number. -/
theorem shortest_spec {negative : Bool} (positive : 0 < units)
    (proper : (finite negative units).Proper) :
    0 < (shortest units).digits ∧ (shortest units).digits ≤ digitLimit ∧
      (shortest units).Hits units := by
  obtain ⟨least, most⟩ := leadingExponent_spec positive proper.1
  obtain ⟨last, lastFound⟩ := (decimalAt?_spec units (leadingExponent units - 16)).2
    (hits_of_atLeast positive proper.2 (by rwa [sub_add_cancel]))
  obtain ⟨d, found⟩ : ∃ d, (List.range 17).findSome? (fun (n : Nat) =>
      decimalAt? units (leadingExponent units - (n : Int))) = some d := by
    rw [← Option.isSome_iff_exists, List.findSome?_isSome_iff]
    exact ⟨16, by decide, Option.isSome_of_eq_some lastFound⟩
  obtain ⟨n, few, there⟩ := List.exists_of_findSome?_eq_some found
  obtain ⟨_, digits, hits⟩ := (decimalAt?_spec units _).1 d there
  rw [List.mem_range] at few
  have bounds : 0 < d.digits ∧ d.digits ≤ digitLimit := by
    have size : 10 ^ (n + 1) ≤ digitLimit := Nat.pow_le_pow_right (by decide) few
    have lead : leadingExponent units - (n : Int) + n = leadingExponent units := sub_add_cancel _ _
    rw [← lead] at least most
    obtain ⟨once, short⟩ := wholeTimes_bounds least most
    rcases digits with same | same <;> omega
  obtain ⟨positive', fewer, hits⟩ := Decimal.normalize_hits 20 bounds.1 hits
  rw [shortest, if_neg positive.ne']
  dsimp only
  rw [found, Option.getD_some]
  exact ⟨positive', fewer.trans bounds.2, hits⟩

end

end DecisionTables.Binary64
