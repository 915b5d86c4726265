import Mathlib
import DecisionTables.Numeral.Reader
import DecisionTables.Proofs.Rounding
import DecisionTables.Value

/-!
# Numbers in digits

The digits of a number are read as this number, and a positive decimal that is laid out with a
point or an exponent is read as the same decimal, perhaps with zeros moved from its
exponent into its digits.
-/

namespace DecisionTables.Numeral

/-! ## Digits -/

/-- The characters are digits. -/
def AllDigits (cs : List Char) : Prop :=
  ∀ c ∈ cs, isDigit c = true

/-- What follows a number: it does not go on with the number. -/
def Stops (cs : List Char) : Prop :=
  ∀ c ∈ cs.head?, isDigit c = false ∧ c ≠ '.' ∧ c ≠ 'e' ∧ c ≠ 'E'

/-- A number that starts with a zero has no further digits. -/
def Leads (cs : List Char) : Prop :=
  AllDigits cs ∧ cs ≠ [] ∧ (cs.head? = some '0' → cs = ['0'])

section

variable {cs ds rest : List Char}

theorem AllDigits.append (left : AllDigits cs) (right : AllDigits ds) : AllDigits (cs ++ ds) :=
  List.forall_mem_append.mpr ⟨left, right⟩

theorem spanDigits_append (digits : AllDigits cs) (stops : ∀ c ∈ rest.head?, isDigit c = false) :
    spanDigits (cs ++ rest) = (cs, rest) := by
  rw [spanDigits, List.span_eq_takeWhile_dropWhile, List.takeWhile_append_of_pos digits,
    List.dropWhile_append_of_pos digits]
  cases rest with
  | nil => simp
  | cons c rest =>
      have other : isDigit c = false := stops c rfl
      rw [List.takeWhile_cons_of_neg (by rw [other]; exact Bool.false_ne_true),
        List.dropWhile_cons_of_neg (by rw [other]; exact Bool.false_ne_true), List.append_nil]

theorem spanDigits_all (digits : AllDigits cs) : spanDigits cs = (cs, []) := by
  have whole : spanDigits (cs ++ []) = (cs, []) :=
    spanDigits_append digits fun _ impossible => by cases impossible
  rwa [List.append_nil] at whole

theorem natOfDigits_eq (cs : List Char) : natOfDigits cs = Nat.ofDigitChars 10 cs 0 := rfl

theorem natOfDigits_append (cs ds : List Char) :
    natOfDigits (cs ++ ds) = natOfDigits cs * 10 ^ ds.length + natOfDigits ds := by
  rw [natOfDigits_eq, Nat.ofDigitChars_append, Nat.ofDigitChars_eq_ofDigitChars_zero, Nat.mul_comm]
  rfl

theorem natOfDigits_zeros (n : Nat) : natOfDigits (List.replicate n '0') = 0 := by
  rw [natOfDigits_eq, Nat.ofDigitChars_replicate_zero, Nat.mul_zero]

theorem natOfDigits_toDigits (n : Nat) : natOfDigits (Nat.toDigits 10 n) = n :=
  Nat.ofDigitChars_ten_toDigits

theorem isDigit_iff {c : Char} : isDigit c = true ↔ c.isDigit = true := by
  rw [isDigit, Bool.and_eq_true, decide_eq_true_eq, decide_eq_true_eq, Char.isDigit_iff_toNat]
  exact Iff.rfl

theorem allDigits_zeros (n : Nat) : AllDigits (List.replicate n '0') := by
  intro c member
  rw [List.eq_of_mem_replicate member]
  rfl

theorem allDigits_toDigits (n : Nat) : AllDigits (Nat.toDigits 10 n) :=
  fun _ member => isDigit_iff.mpr (Nat.isDigit_of_mem_toDigits (by decide) (by decide) member)

theorem head?_toDigits {n : Nat} (positive : 0 < n) : (Nat.toDigits 10 n).head? ≠ some '0' := by
  induction n using Nat.strong_induction_on with
  | _ n ih =>
      by_cases short : n < 10
      · rw [Nat.toDigits_of_lt_base short, List.head?_cons]
        exact fun same => positive.ne' (Nat.digitChar_eq_zero.mp (Option.some.inj same))
      · rw [Nat.toDigits_of_base_le (by decide) (Nat.le_of_not_lt short), List.head?_append]
        have shorter := ih (n / 10) (by omega) (by omega)
        cases first : (Nat.toDigits 10 (n / 10)).head? with
        | none => exact absurd (List.head?_eq_none_iff.mp first) Nat.toDigits_ne_nil
        | some c =>
            rw [first] at shorter
            exact shorter

theorem leads_toDigits (n : Nat) : Leads (Nat.toDigits 10 n) := by
  refine ⟨allDigits_toDigits n, Nat.toDigits_ne_nil, fun zero => ?_⟩
  rcases Nat.eq_zero_or_pos n with rfl | positive
  · rfl
  · exact absurd zero (head?_toDigits positive)

end

/-! ## Layouts -/

/-- A point and digits, or nothing. -/
def fractionText (part : List Char) : List Char :=
  if part.isEmpty then [] else '.' :: part

/-- Digits with a point or with an exponent, and the decimal that they stand for. -/
inductive Laid : List Char → Decimal → Prop where
  | point {whole part} (leads : Leads whole) (digits : AllDigits part) (nonempty : part ≠ []) :
      Laid (whole ++ '.' :: part) ⟨natOfDigits (whole ++ part), -part.length⟩
  | power {c part} (digit : isDigit c = true) (digits : AllDigits part) (e : Int) :
      Laid (c :: fractionText part ++ Binary64.exponentText e)
        ⟨natOfDigits (c :: part), e - part.length⟩

section

variable {ds : List Char}

/-- Digits behind a point and zeros. -/
theorem laid_below (digits : AllDigits ds) (nonempty : ds ≠ []) (z : Nat) :
    Laid ('0' :: '.' :: List.replicate z '0' ++ ds) ⟨natOfDigits ds, -((z + ds.length : Nat) : Int)⟩ := by
  have laid : Laid (['0'] ++ '.' :: (List.replicate z '0' ++ ds))
      ⟨natOfDigits (['0'] ++ (List.replicate z '0' ++ ds)), -(List.replicate z '0' ++ ds).length⟩ :=
    .point ⟨allDigits_zeros 1, List.cons_ne_nil _ _, fun _ => rfl⟩ ((allDigits_zeros z).append digits)
      (List.append_ne_nil_of_right_ne_nil _ nonempty)
  have zero : natOfDigits ['0'] = 0 := rfl
  rw [natOfDigits_append, zero, natOfDigits_append, natOfDigits_zeros, Nat.zero_mul, Nat.zero_mul,
    Nat.zero_add, Nat.zero_add, List.length_append, List.length_replicate] at laid
  exact laid

/-- Digits and zeros before a point. -/
theorem laid_above (digits : AllDigits ds) (nonempty : ds ≠ []) (head : ds.head? ≠ some '0') (z : Nat) :
    Laid (ds ++ List.replicate z '0' ++ ['.', '0']) ⟨natOfDigits ds * 10 ^ (z + 1), -1⟩ := by
  have first : (ds ++ List.replicate z '0').head? = ds.head? := by
    cases ds with
    | nil => exact absurd rfl nonempty
    | cons c rest => rfl
  have laid : Laid (ds ++ List.replicate z '0' ++ '.' :: ['0'])
      ⟨natOfDigits (ds ++ List.replicate z '0' ++ ['0']), -1⟩ :=
    .point ⟨digits.append (allDigits_zeros z), List.append_ne_nil_of_left_ne_nil nonempty _,
      fun zero => absurd (first ▸ zero) head⟩ (allDigits_zeros 1) (List.cons_ne_nil _ _)
  have zero : natOfDigits ['0'] = 0 := rfl
  rw [natOfDigits_append, zero, natOfDigits_append, natOfDigits_zeros, Nat.add_zero, Nat.add_zero,
    List.length_replicate, Nat.mul_assoc, List.length_singleton, ← Nat.pow_add] at laid
  exact laid

/-- Digits on both sides of a point. -/
theorem laid_around (digits : AllDigits ds) (head : ds.head? ≠ some '0') {n : Nat} (positive : 0 < n)
    (short : n < ds.length) :
    Laid (ds.take n ++ '.' :: ds.drop n) ⟨natOfDigits ds, -((ds.length - n : Nat) : Int)⟩ := by
  have whole : AllDigits (ds.take n ++ ds.drop n) := by rwa [List.take_append_drop]
  obtain ⟨left, right⟩ := List.forall_mem_append.mp whole
  have first : (ds.take n).head? = ds.head? := by
    rw [List.head?_take, if_neg positive.ne']
  have nonempty : ds.take n ≠ [] := by
    rw [← List.length_pos_iff, List.length_take]
    omega
  have laid : Laid (ds.take n ++ '.' :: ds.drop n)
      ⟨natOfDigits (ds.take n ++ ds.drop n), -((ds.drop n).length : Int)⟩ := by
    refine .point ⟨left, nonempty, fun zero => absurd (first ▸ zero) head⟩ right ?_
    rw [← List.length_pos_iff, List.length_drop]
    omega
  rw [List.take_append_drop, List.length_drop] at laid
  exact laid

end

end DecisionTables.Numeral

namespace DecisionTables.Binary64

open Numeral

/-- The characters are digits with a point or with an exponent, for a decimal in the span of a number. -/
def Lays (units : Nat) (cs : List Char) : Prop :=
  ∃ d, Laid cs d ∧ 0 < d.digits ∧ d.digits ≤ digitLimit ∧ d.Hits units

section

variable {units : Nat} {exponent : Int} {cs ds : List Char}

/-- Digits with zeros behind them are in the span where the digits alone are, if these are few. -/
theorem Lays.of_shift {k : Nat} (laid : Laid cs ⟨natOfDigits ds * 10 ^ k, exponent - k⟩)
    (positive : 0 < natOfDigits ds) (size : natOfDigits ds < 10 ^ ds.length)
    (short : ds.length + k ≤ 17) (hits : Decimal.Hits ⟨natOfDigits ds, exponent⟩ units) :
    Lays units cs := by
  have moved : Decimal.Hits ⟨natOfDigits ds * 10 ^ k, exponent - k⟩ units ↔
      Decimal.Hits ⟨natOfDigits ds, exponent - k + (k : Nat)⟩ units := Decimal.hits_shift k
  rw [sub_add_cancel] at moved
  refine ⟨_, laid, Nat.mul_pos positive (Nat.pow_pos (by decide)), ?_, moved.mpr hits⟩
  calc natOfDigits ds * 10 ^ k ≤ 10 ^ ds.length * 10 ^ k := Nat.mul_le_mul_right _ size.le
    _ = 10 ^ (ds.length + k) := (Nat.pow_add ..).symm
    _ ≤ digitLimit := Nat.pow_le_pow_right (by decide) short

/-- A decimal is laid out with a point by the place of its first digit. -/
theorem lays_positional (digits : AllDigits ds) (nonempty : ds ≠ []) (head : ds.head? ≠ some '0')
    (positive : 0 < natOfDigits ds) (few : natOfDigits ds ≤ digitLimit)
    (size : natOfDigits ds < 10 ^ ds.length)
    (hits : Decimal.Hits ⟨natOfDigits ds, exponent⟩ units) {lead : Int}
    (place : lead = exponent + ds.length - 1) (within : lead < 16) :
    Lays units (if lead < 0 then '0' :: '.' :: List.replicate (-lead - 1).toNat '0' ++ ds
      else if ds.length ≤ lead.toNat + 1 then
        ds ++ List.replicate (lead.toNat + 1 - ds.length) '0' ++ ['.', '0']
      else ds.take (lead.toNat + 1) ++ '.' :: ds.drop (lead.toNat + 1)) := by
  split
  case isTrue small =>
    have laid := laid_below digits nonempty (-lead - 1).toNat
    have power : -(((-lead - 1).toNat + ds.length : Nat) : Int) = exponent := by omega
    rw [power] at laid
    exact ⟨_, laid, positive, few, hits⟩
  case isFalse large =>
    split
    case isTrue short =>
      have laid := laid_above digits nonempty head (lead.toNat + 1 - ds.length)
      have power : (-1 : Int) = exponent - (lead.toNat + 1 - ds.length + 1 : Nat) := by omega
      rw [power] at laid
      exact .of_shift laid positive size (by omega) hits
    case isFalse long =>
      have laid := laid_around digits head (Nat.succ_pos lead.toNat) (Nat.lt_of_not_le long)
      have power : -((ds.length - (lead.toNat + 1) : Nat) : Int) = exponent := by omega
      rw [power] at laid
      exact ⟨_, laid, positive, few, hits⟩

/-- One digit is laid out with an exponent, and with a point or without. -/
theorem lays_digit {one : Char} (digit : isDigit one = true) (positive : 0 < natOfDigits [one])
    (few : natOfDigits [one] ≤ digitLimit) (size : natOfDigits [one] < 10 ^ [one].length)
    (hits : Decimal.Hits ⟨natOfDigits [one], exponent⟩ units) (point : Bool) :
    Lays units (one :: (if point then ['.', '0'] else []) ++ exponentText exponent) := by
  cases point with
  | false =>
      have laid := Laid.power digit (fun _ impossible => absurd impossible List.not_mem_nil) exponent
      rw [List.length_nil, Nat.cast_zero, sub_zero] at laid
      exact ⟨_, laid, positive, few, hits⟩
  | true =>
      have laid := Laid.power digit (allDigits_zeros 1) exponent
      have digits : natOfDigits (one :: List.replicate 1 '0') = natOfDigits [one] * 10 ^ 1 := by
        rw [show one :: List.replicate 1 '0' = [one] ++ ['0'] from rfl, natOfDigits_append]
        rfl
      rw [digits] at laid
      exact .of_shift laid positive size (Nat.le_of_ble_eq_true rfl) hits

/-- Several digits are laid out with a point behind the first one and an exponent. -/
theorem lays_power {one : Char} {rest : List Char} (digits : AllDigits (one :: rest))
    (several : rest ≠ []) (positive : 0 < natOfDigits (one :: rest))
    (few : natOfDigits (one :: rest) ≤ digitLimit)
    (hits : Decimal.Hits ⟨natOfDigits (one :: rest), exponent⟩ units) :
    Lays units (one :: '.' :: rest ++ exponentText (exponent + (one :: rest).length - 1)) := by
  have laid := Laid.power (digits one List.mem_cons_self)
    (fun c member => digits c (List.mem_cons_of_mem _ member)) (exponent + (one :: rest).length - 1)
  have power : exponent + ((one :: rest).length : Int) - 1 - rest.length = exponent := by
    rw [List.length_cons]
    omega
  have point : fractionText rest = '.' :: rest := if_neg fun empty => several (List.isEmpty_iff.mp empty)
  rw [power, point] at laid
  exact ⟨_, laid, positive, few, hits⟩

end

/-- However a decimal in the span of a number is laid out, what is written is a decimal in the span. -/
theorem exists_laid {layout : Layout} (positional : layout.leastScientific ≤ 16) {units : Nat}
    {d : Decimal} (positive : 0 < d.digits) (few : d.digits ≤ digitLimit) (hits : d.Hits units) :
    ∃ d', Laid (layDecimal layout d) d' ∧ 0 < d'.digits ∧ d'.digits ≤ digitLimit ∧
      d'.Hits units := by
  obtain ⟨digits, exponent⟩ := d
  have lead : Decimal.magnitude ⟨digits, exponent⟩ = exponent + (Nat.toDigits 10 digits).length - 1 := rfl
  have allDigits := allDigits_toDigits digits
  have number := natOfDigits_toDigits digits
  have nonzero := head?_toDigits positive
  have nonempty : Nat.toDigits 10 digits ≠ [] := Nat.toDigits_ne_nil
  have length := List.length_pos_iff.mpr nonempty
  have size : digits < 10 ^ (Nat.toDigits 10 digits).length :=
    (Nat.length_toDigits_le_iff (by decide) length).mp (Nat.le_refl _)
  unfold layDecimal
  dsimp only
  rw [lead, show Decimal.digitText ⟨digits, exponent⟩ = Nat.toDigits 10 digits from rfl]
  generalize Nat.toDigits 10 digits = ds at allDigits number nonzero nonempty size length ⊢
  subst number
  split
  case isTrue range =>
    rw [Bool.and_eq_true, decide_eq_true_eq, decide_eq_true_eq] at range
    exact lays_positional allDigits nonempty nonzero positive few size hits rfl
      (Int.lt_of_lt_of_le range.2 positional)
  case isFalse outside =>
    split
    · exact absurd rfl nonempty
    · rename_i one
      have power : exponent + ([one].length : Int) - 1 = exponent := by
        rw [List.length_singleton]
        omega
      rw [power]
      exact lays_digit (allDigits one List.mem_cons_self) positive few size hits _
    · rename_i one rest several
      exact lays_power allDigits several positive few hits

end DecisionTables.Binary64

/-! ## Reading what is laid out -/

namespace DecisionTables.Numeral

theorem toList_integerText (i : Int) : (Scalar.integerText i).toList =
    if decide (i < 0) then '-' :: Nat.toDigits 10 i.natAbs else Nat.toDigits 10 i.natAbs := by
  rw [Scalar.integerText, Nat.toString_eq_ofList_toDigits]
  by_cases negative : i < 0
  · rw [if_pos negative, if_pos (decide_eq_true negative), String.toList_append, String.toList_ofList,
      String.toList_ofList]
    rfl
  · rw [if_neg negative, decide_eq_false negative, if_neg Bool.false_ne_true, String.toList_ofList]

theorem head?_digit {ds : List Char} (digits : AllDigits ds) : ∀ c ∈ ds.head?, isDigit c = true :=
  fun c first => digits c (List.mem_of_mem_head? first)

theorem Laid.head?_digit {cs : List Char} {d : Decimal} (laid : Laid cs d) :
    cs ≠ [] ∧ ∀ c ∈ cs.head?, isDigit c = true := by
  cases laid with
  | @point whole part leads digits nonempty =>
      refine ⟨by simp, fun c first => ?_⟩
      obtain ⟨digits, nonempty, _⟩ := leads
      cases whole with
      | nil => exact absurd rfl nonempty
      | cons y ys =>
          cases first
          exact digits _ List.mem_cons_self
  | power digit digits e =>
      refine ⟨by simp, fun c first => ?_⟩
      cases first
      exact digit

theorem exponentText_eq (e : Int) : ∃ ds, AllDigits ds ∧ ds ≠ [] ∧ natOfDigits ds = e.natAbs ∧
    Binary64.exponentText e = 'e' :: (if e < 0 then '-' else '+') :: ds := by
  have digits := allDigits_toDigits e.natAbs
  have number := natOfDigits_toDigits e.natAbs
  rw [Binary64.exponentText]
  generalize Nat.toDigits 10 e.natAbs = ds at digits number
  by_cases short : ds.length < 2
  · refine ⟨'0' :: ds, (allDigits_zeros 1).append digits, List.cons_ne_nil _ _, ?_, by rw [if_pos short]⟩
    rw [show '0' :: ds = List.replicate 1 '0' ++ ds from rfl, natOfDigits_append, natOfDigits_zeros,
      Nat.zero_mul, Nat.zero_add, number]
  · refine ⟨ds, digits, ?_, number, by rw [if_neg short]⟩
    rintro rfl
    exact short (by decide)

theorem exponent?_exponentText (e : Int) : exponent? (Binary64.exponentText e) = some e := by
  obtain ⟨ds, digits, nonempty, number, text⟩ := exponentText_eq e
  have filled : ds.isEmpty = false := by rwa [List.isEmpty_eq_false_iff]
  have letter : ('e' == 'e' || 'e' == 'E') = true := rfl
  rw [text, exponent?, if_pos letter]
  by_cases negative : e < 0
  · simp only [if_pos negative, takeSign, spanDigits_all digits, filled, number, if_true]
    exact congrArg some (by omega)
  · simp only [if_neg negative, takeSign, spanDigits_all digits, filled, number, Bool.false_eq_true,
      if_false]
    exact congrArg some (by omega)

theorem decimal?_point {cs whole more part tail : List Char} {negative : Bool} (nonempty : whole ≠ [])
    (first : spanDigits cs = (whole, '.' :: more)) (second : spanDigits more = (part, tail)) :
    decimal? negative cs = (exponent? tail).map fun e =>
      Binary64.ofDecimal negative (natOfDigits (whole ++ part)) (e - part.length) := by
  have filled : whole.isEmpty = false := by rwa [List.isEmpty_eq_false_iff]
  rw [decimal?, first]
  simp only [second, filled, Bool.false_and, Bool.false_eq_true, if_false]

theorem decimal?_whole {cs whole tail : List Char} {negative : Bool} (nonempty : whole ≠ [])
    (first : spanDigits cs = (whole, tail)) (pointless : ∀ more, tail ≠ '.' :: more) :
    decimal? negative cs = (exponent? tail).map fun e =>
      Binary64.ofDecimal negative (natOfDigits whole) e := by
  have filled : whole.isEmpty = false := by rwa [List.isEmpty_eq_false_iff]
  rw [decimal?, first]
  simp [filled]

/-- What is laid out is read as the decimal that it stands for. -/
theorem decimal?_of_laid {cs : List Char} {d : Decimal} (laid : Laid cs d) (negative : Bool) :
    decimal? negative cs = some (Binary64.ofDecimal negative d.digits d.exponent) := by
  cases laid with
  | @point whole part leads digits nonempty =>
      rw [decimal?_point leads.2.1 (spanDigits_append leads.1 (by simp [isDigit])) (spanDigits_all digits),
        exponent?, Option.map_some, zero_sub]
  | @power c part digit digits e =>
      obtain ⟨ds, _, _, _, text⟩ := exponentText_eq e
      have one : AllDigits [c] := List.forall_mem_singleton.mpr digit
      have power := exponent?_exponentText e
      have letter : ∀ c ∈ (Binary64.exponentText e).head?, isDigit c = false := by
        rw [text]
        simp [isDigit]
      cases part with
      | nil =>
          have first : spanDigits ([c] ++ Binary64.exponentText e) = ([c], Binary64.exponentText e) :=
            spanDigits_append one letter
          have pointless : ∀ more, Binary64.exponentText e ≠ '.' :: more := by
            rw [text]
            simp
          rw [show c :: fractionText [] ++ Binary64.exponentText e = [c] ++ Binary64.exponentText e from rfl,
            decimal?_whole (List.cons_ne_nil _ _) first pointless, power, Option.map_some, List.length_nil,
            Nat.cast_zero, sub_zero]
      | cons x xs =>
          have first : spanDigits ([c] ++ '.' :: (x :: xs ++ Binary64.exponentText e)) =
              ([c], '.' :: (x :: xs ++ Binary64.exponentText e)) :=
            spanDigits_append one (by simp [isDigit])
          rw [show c :: fractionText (x :: xs) ++ Binary64.exponentText e =
            [c] ++ '.' :: (x :: xs ++ Binary64.exponentText e) from rfl,
            decimal?_point (List.cons_ne_nil _ _) first (spanDigits_append digits letter), power,
            Option.map_some]
          rfl

end DecisionTables.Numeral

namespace DecisionTables.Binary64

open Numeral

/-- The digits of a number of the format are laid out as a decimal that is read as the number. -/
theorem exists_laid_finite (layout : Layout) (positional : layout.leastScientific ≤ 16) {negative : Bool}
    {units : Nat} (proper : (finite negative units).Proper) :
    ∃ cs d, Laid cs d ∧ ofDecimal negative d.digits d.exponent = finite negative units ∧
      (finite negative units).render layout = String.ofList (if negative then '-' :: cs else cs) := by
  rw [render]
  by_cases zero : units = 0
  · have laid : Laid (['0'] ++ '.' :: ['0']) ⟨natOfDigits (['0'] ++ ['0']), -(['0'].length : Int)⟩ :=
      .point ⟨allDigits_zeros 1, by simp, fun _ => rfl⟩ (allDigits_zeros 1) (by simp)
    refine ⟨_, _, laid, ?_, by rw [if_pos zero]; rfl⟩
    rw [zero]
    rfl
  · have positive := Nat.pos_of_ne_zero zero
    obtain ⟨some, few, hits⟩ := shortest_spec positive proper
    obtain ⟨d, laid, some, few, hits⟩ := exists_laid positional some few hits
    exact ⟨_, d, laid, ofDecimal_eq positive proper some few hits, by rw [if_neg zero]⟩

end DecisionTables.Binary64
