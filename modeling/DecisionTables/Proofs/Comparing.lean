import DecisionTables.Proofs.Laying
import DecisionTables.Proofs.Retaining
import DecisionTables.Proofs.Running

/-!
# Integers in comparisons

A comparison reads both of its sides as numbers of 53 binary digits.  So integers are compared as
they are seen through that many digits: in the right order, but two large ones may look alike,
and beyond the largest number of the format all do.  A comparison therefore never holds of
integers of which it should not, and it fails to hold only of integers that look alike.
-/

namespace DecisionTables

namespace Binary64

/-! ## What is kept of a whole number -/

/-- The multiple of the spacing at a whole number that is nearest to it, and of two the even one. -/
def kept (n : Nat) : Nat :=
  roundHalfEven n (spacing n) * spacing n

/-- The least whole number that is too large for the format. -/
def wholeLimit : Nat := Nat.pow 2 1024

/-- An integer as a comparison sees it: 53 binary digits of it are kept, and all that are too large
for the format look alike. -/
def seen (i : Int) : Int :=
  signedUnits (i < 0) (min (kept i.natAbs) wholeLimit)

section

variable {m n num num' den k : Nat}

theorem roundHalfEven_mono (den : Nat) (less : num ≤ num') :
    roundHalfEven num den ≤ roundHalfEven num' den := by
  rcases Nat.eq_zero_or_pos den with rfl | positive
  · simp only [roundHalfEven, Nat.div_zero, Nat.mod_zero]
    split <;> split <;> simp_all
  have quotients : num / den ≤ num' / den := Nat.div_le_div_right less
  have whole := Nat.div_add_mod num den
  have whole' := Nat.div_add_mod num' den
  unfold roundHalfEven
  dsimp only
  generalize num / den = q at quotients whole ⊢
  generalize num' / den = q' at quotients whole' ⊢
  generalize num % den = r at whole ⊢
  generalize num' % den = r' at whole' ⊢
  rcases Nat.eq_or_lt_of_le quotients with rfl | later
  · have rests : r ≤ r' := by omega
    by_cases up : (den < 2 * r || (den == 2 * r && q % 2 == 1)) = true
    · have up' : (den < 2 * r' || (den == 2 * r' && q % 2 == 1)) = true := by
        simp only [Bool.or_eq_true, Bool.and_eq_true, decide_eq_true_eq, beq_iff_eq] at up ⊢
        omega
      simp [up, up']
    · simp only [up, Bool.false_eq_true, if_false]
      split <;> omega
  · split <;> split <;> omega

theorem roundHalfEven_mul (positive : 0 < den) : roundHalfEven (k * den) den = k := by
  simp [roundHalfEven, Nat.mul_div_cancel _ positive, positive.ne']

/-- Rounding keeps to the side of a whole number. -/
theorem le_roundHalfEven (positive : 0 < den) (least : k * den ≤ num) : k ≤ roundHalfEven num den := by
  have step := roundHalfEven_mono den least
  rwa [roundHalfEven_mul positive] at step

theorem roundHalfEven_le (positive : 0 < den) (most : num ≤ k * den) : roundHalfEven num den ≤ k := by
  have step := roundHalfEven_mono den most
  rwa [roundHalfEven_mul positive] at step

theorem roundHalfEven_scale (positive : 0 < k) : roundHalfEven (num * k) (den * k) = roundHalfEven num den := by
  have quotient : num * k / (den * k) = num / den := Nat.mul_div_mul_right _ _ positive
  have rest : num * k % (den * k) = num % den * k := Nat.mul_mod_mul_right _ _ _
  have less : den * k < 2 * (num % den * k) ↔ den < 2 * (num % den) := by
    rw [← Nat.mul_assoc]
    exact Nat.mul_lt_mul_right positive
  have same : den * k = 2 * (num % den * k) ↔ den = 2 * (num % den) := by
    rw [← Nat.mul_assoc]
    exact Nat.mul_left_inj positive.ne'
  simp only [roundHalfEven, quotient, rest, less, beq_eq_decide, same]

/-- What is kept of a larger number is not smaller. -/
theorem kept_mono (less : m ≤ n) : kept m ≤ kept n := by
  obtain ⟨g, space, upper, lower⟩ := exists_spacing m
  obtain ⟨g', space', upper', lower'⟩ := exists_spacing n
  rcases Nat.lt_trichotomy g g' with finer | rfl | coarser
  · -- a power of two lies between the two numbers, and both are rounded to its own side
    have kept_le : kept m ≤ 2 ^ 53 * 2 ^ g := by
      rw [kept, space]
      refine Nat.mul_le_mul_right _ (roundHalfEven_le (Nat.two_pow_pos g) ?_)
      rw [← Nat.pow_add]
      exact upper.le
    have le_kept : 2 ^ 52 * 2 ^ g' ≤ kept n := by
      rw [kept, space']
      refine Nat.mul_le_mul_right _ (le_roundHalfEven (Nat.two_pow_pos g') ?_)
      rw [← Nat.pow_add]
      exact lower' (Nat.ne_of_gt (Nat.zero_lt_of_lt finer))
    have power : 2 ^ 53 * 2 ^ g ≤ 2 ^ 52 * 2 ^ g' := by
      rw [← Nat.pow_add, ← Nat.pow_add]
      exact Nat.pow_le_pow_right Nat.two_pos (by omega)
    exact kept_le.trans (power.trans le_kept)
  · rw [kept, kept, space, space']
    exact Nat.mul_le_mul_right _ (roundHalfEven_mono _ less)
  · have between := (lower (Nat.ne_of_gt (Nat.zero_lt_of_lt coarser))).trans_lt (less.trans_lt upper')
    exact absurd ((Nat.pow_lt_pow_iff_right Nat.one_lt_two).mp between) (by omega)

/-- All of a number that is not too large is kept. -/
theorem kept_of_le (small : n ≤ 2 ^ 53) : kept n = n := by
  rcases Nat.eq_or_lt_of_le small with rfl | less
  · decide +kernel
  · have whole := roundHalfEven_mul (k := n) Nat.one_pos
    rw [Nat.mul_one] at whole
    rw [kept, spacing_of_lt less, whole, Nat.mul_one]

/-- Binary zeros behind a number are kept. -/
theorem kept_mul_two_pow (n k : Nat) : kept (n * 2 ^ k) = kept n * 2 ^ k := by
  obtain ⟨g, space, upper, lower⟩ := exists_spacing n
  by_cases fine : g = 0
  · subst fine
    obtain ⟨g', space', _, lower'⟩ := exists_spacing (n * 2 ^ k)
    have less : g' ≤ k := by
      by_contra more
      have bounds : 2 ^ (52 + g') < 2 ^ (53 + 0) * 2 ^ k :=
        (lower' (by omega)).trans_lt (Nat.mul_lt_mul_of_pos_right upper (Nat.two_pow_pos k))
      rw [← Nat.pow_add] at bounds
      exact absurd ((Nat.pow_lt_pow_iff_right Nat.one_lt_two).mp bounds) (by omega)
    obtain ⟨d, rfl⟩ := Nat.exists_eq_add_of_le' less
    have multiple : n * 2 ^ (d + g') = n * 2 ^ d * 2 ^ g' := by rw [Nat.pow_add, Nat.mul_assoc]
    rw [kept_of_le upper.le, kept, space', multiple, roundHalfEven_mul (Nat.two_pow_pos g')]
  · have lower' : 2 ^ (52 + (g + k)) ≤ n * 2 ^ k := by
      rw [← Nat.add_assoc, Nat.pow_add _ (52 + g)]
      exact Nat.mul_le_mul_right _ (lower fine)
    have upper' : n * 2 ^ k < 2 ^ (53 + (g + k)) := by
      rw [← Nat.add_assoc, Nat.pow_add _ (53 + g)]
      exact Nat.mul_lt_mul_of_pos_right upper (Nat.two_pow_pos k)
    rw [kept, kept, space, spacing_of_le lower' upper', Nat.pow_add, roundHalfEven_scale (Nat.two_pow_pos k),
      Nat.mul_assoc]

/-- The limits as powers of two with exponents that stay names: the numbers are too long to be
written out. -/
theorem exists_limits :
    ∃ k l, k = 1024 ∧ wholeLimit = 2 ^ k ∧ unitsPerOne = 2 ^ l ∧ unitsLimit = wholeLimit * unitsPerOne :=
  ⟨1024, 1074, rfl, by decide +kernel, by decide +kernel, by decide +kernel⟩

theorem wholeLimit_pos : 0 < wholeLimit := by
  decide +kernel

theorem kept_wholeLimit : kept wholeLimit = wholeLimit := by
  obtain ⟨k, _, _, power, _⟩ := exists_limits
  have one : kept 1 = 1 := kept_of_le (by decide)
  have zeros := kept_mul_two_pow 1 k
  rwa [one, Nat.one_mul, ← power] at zeros

/-- Digits without a point are read as what is kept of their number. -/
theorem ofDecimal_whole (negative : Bool) (n : Nat) : ofDecimal negative n 0 =
    if wholeLimit ≤ kept n then infinite negative else finite negative (kept n * unitsPerOne) := by
  obtain ⟨k, l, large, whole, one, limits⟩ := exists_limits
  rcases Nat.eq_zero_or_pos n with rfl | positive
  · rw [kept_of_le (Nat.zero_le _), Nat.zero_mul, if_neg (Nat.not_le.mpr wholeLimit_pos)]
    rfl
  have rough : roughMagnitude n 0 = (Nat.log2 n * 30103 / 100000 : Nat) := Int.zero_add _
  rw [ofDecimal, if_neg positive.ne', rough]
  by_cases far : ((Nat.log2 n * 30103 / 100000 : Nat) : Int) > 400
  · have high : k ≤ Nat.log2 n := by omega
    have beyond : wholeLimit ≤ n := whole ▸ (Nat.le_log2 positive.ne').mp high
    rw [if_pos far, if_pos (kept_wholeLimit ▸ kept_mono beyond)]
  · have units : kept (n * unitsPerOne) = kept n * unitsPerOne := one ▸ kept_mul_two_pow n l
    have limit : unitsLimit ≤ kept n * unitsPerOne ↔ wholeLimit ≤ kept n := by
      rw [limits]
      exact Nat.mul_le_mul_right_iff unitsPerOne_pos
    have quotient : ofQuotient negative (n * unitsPerOne) 1 =
        if unitsLimit ≤ kept (n * unitsPerOne) then infinite negative
        else finite negative (kept (n * unitsPerOne)) := by
      rw [ofQuotient, Nat.div_one, Nat.one_mul]
      rfl
    have power : n * Nat.pow 10 (Int.toNat 0) * unitsPerOne = n * unitsPerOne := by
      rw [Int.toNat_zero, Nat.pow_eq, Nat.pow_zero, Nat.mul_one]
    rw [if_neg far, if_neg (by omega), if_pos (Int.le_refl 0), power, quotient, units]
    simp only [limit]

/-! ## The order of integers -/

theorem signedUnits_mul (negative : Bool) (n k : Nat) :
    signedUnits negative (n * k) = signedUnits negative n * k := by
  cases negative <;> simp [signedUnits]

/-- The order of numbers that are as large as whole numbers, or too large. -/
theorem lt_whole (negative negative' : Bool) (m n : Nat) :
    lt (if wholeLimit ≤ m then infinite negative else finite negative (m * unitsPerOne))
        (if wholeLimit ≤ n then infinite negative' else finite negative' (n * unitsPerOne)) =
      decide (signedUnits negative (min m wholeLimit) < signedUnits negative' (min n wholeLimit)) := by
  have limited := wholeLimit_pos
  have one : (0 : Int) < unitsPerOne := Int.natCast_pos.mpr unitsPerOne_pos
  generalize wholeLimit = limit at limited ⊢
  by_cases far : limit ≤ m
  · rw [if_pos far, Nat.min_eq_right far]
    by_cases far' : limit ≤ n
    · rw [if_pos far', Nat.min_eq_right far']
      cases negative <;> cases negative' <;> simp [lt, signedUnits, limited]
    · rw [if_neg far', Nat.min_eq_left (Nat.le_of_not_le far')]
      cases negative <;> cases negative' <;> simp [lt, signedUnits] <;> omega
  · rw [if_neg far, Nat.min_eq_left (Nat.le_of_not_le far)]
    by_cases far' : limit ≤ n
    · rw [if_pos far', Nat.min_eq_right far']
      cases negative <;> cases negative' <;> simp [lt, signedUnits] <;> omega
    · rw [if_neg far', Nat.min_eq_left (Nat.le_of_not_le far'), lt, signedUnits_mul, signedUnits_mul]
      exact decide_eq_decide.mpr (Int.mul_lt_mul_right one)

theorem seen_mono {i j : Int} (less : i ≤ j) : seen i ≤ seen j := by
  have magnitudes : ∀ {m n : Nat}, m ≤ n → min (kept m) wholeLimit ≤ min (kept n) wholeLimit :=
    fun le => min_le_min_right _ (kept_mono le)
  unfold seen signedUnits
  by_cases left : i < 0
  · by_cases right : j < 0
    · have shrunk := magnitudes (show j.natAbs ≤ i.natAbs by omega)
      rw [decide_eq_true left, decide_eq_true right, if_pos rfl, if_pos rfl]
      exact Int.neg_le_neg (Int.ofNat_le.mpr shrunk)
    · rw [decide_eq_true left, decide_eq_false right, if_pos rfl, if_neg Bool.false_ne_true]
      exact (Int.neg_nonpos_of_nonneg (Int.natCast_nonneg _)).trans (Int.natCast_nonneg _)
  · have grown := magnitudes (show i.natAbs ≤ j.natAbs by omega)
    rw [decide_eq_false left, decide_eq_false (by omega : ¬ j < 0), if_neg Bool.false_ne_true,
      if_neg Bool.false_ne_true]
    exact Int.ofNat_le.mpr grown

theorem seen_of_natAbs_le {i : Int} (small : i.natAbs ≤ 2 ^ 53) : seen i = i := by
  have short : 2 ^ 53 ≤ wholeLimit := by decide +kernel
  rw [seen, kept_of_le small, Nat.min_eq_left (small.trans short), signedUnits]
  by_cases negative : i < 0
  · rw [decide_eq_true negative, if_pos rfl]
    omega
  · rw [decide_eq_false negative, if_neg Bool.false_ne_true]
    omega

/-- The first integer of which not everything is seen. -/
example : seen 9007199254740993 = 9007199254740992 := by
  decide +kernel

/-- One integer is seen below another where it is below it, unless they look alike. -/
theorem seen_lt_seen_iff {i j : Int} : seen i < seen j ↔ i < j ∧ seen i ≠ seen j := by
  constructor
  · intro below
    refine ⟨?_, Int.ne_of_lt below⟩
    by_contra above
    exact absurd (seen_mono (Int.not_lt.mp above)) (Int.not_le.mpr below)
  · rintro ⟨below, differ⟩
    exact lt_of_le_of_ne (seen_mono (Int.le_of_lt below)) differ

theorem natAbs_of_seen_eq {i j : Int} (differ : i ≠ j) (alike : seen i = seen j) : 2 ^ 53 ≤ i.natAbs := by
  by_contra small
  have itself := seen_of_natAbs_le (i := i) (by omega)
  rcases Int.lt_or_gt_of_ne differ with below | above
  · have next := seen_of_natAbs_le (i := i + 1) (by omega)
    have := seen_mono (show i + 1 ≤ j by omega)
    omega
  · have next := seen_of_natAbs_le (i := i - 1) (by omega)
    have := seen_mono (show j ≤ i - 1 by omega)
    omega

end

end Binary64

/-! ## Integers as texts -/

namespace Numeral

/-- A character that counts in a number as it is: it is ASCII, no blank and no underscore. -/
def Bare (c : Char) : Prop :=
  c.toNat < 0x7F ∧ isPad c = false ∧ c ≠ '_'

theorem underscoresBetweenDigits_bare {cs : List Char} (bare : ∀ c ∈ cs, Bare c) {previous : Char}
    (other : previous ≠ '_') : underscoresBetweenDigits previous cs = true := by
  induction cs generalizing previous with
  | nil => simp [underscoresBetweenDigits, other]
  | cons c cs ih =>
      obtain ⟨⟨_, _, here⟩, bare⟩ := List.forall_mem_cons.mp bare
      simp [underscoresBetweenDigits, other, here, ih bare here]

theorem dropUnderscores?_bare {cs : List Char} (bare : ∀ c ∈ cs, Bare c) :
    dropUnderscores? (Text.trim isPad (cs.map plainChar)) = some cs := by
  have same : cs.map plainChar = cs := by
    refine (List.map_congr_left fun c member => ?_).trans (List.map_id cs)
    rw [plainChar, if_pos (bare c member).1]
    rfl
  have all : cs.filter (· != '_') = cs :=
    List.filter_eq_self.mpr fun c member => by simpa using (bare c member).2.2
  rw [same, Text.trim_of_forall fun c member => (bare c member).2.1, dropUnderscores?,
    if_pos (underscoresBetweenDigits_bare bare (by decide)), all]

/-- The ASCII digits. -/
def digitList : List Char :=
  ['0', '1', '2', '3', '4', '5', '6', '7', '8', '9']

theorem mem_digitList {c : Char} (digit : isDigit c = true) : c ∈ digitList := by
  have bounds : 48 ≤ c.toNat ∧ c.toNat ≤ 57 := by
    rwa [isDigit_iff, Char.isDigit_iff_toNat] at digit
  have whole : c = Char.ofNat c.toNat := (Char.ofNat_toNat c).symm
  obtain ⟨least, most⟩ := bounds
  generalize c.toNat = n at least most whole
  subst whole
  interval_cases n <;> decide

theorem special?_digits {ds : List Char} (digits : AllDigits ds) (nonempty : ds ≠ []) (negative : Bool) :
    special? negative ds = none := by
  have other : ∀ c ∈ digitList, c.toLower ≠ 'i' ∧ c.toLower ≠ 'n' := by simp [digitList]
  cases ds with
  | nil => exact absurd rfl nonempty
  | cons c ds =>
      obtain ⟨notI, notN⟩ := other c (mem_digitList (digits c List.mem_cons_self))
      simp [special?, notI, notN]

theorem takeSign_digits {ds : List Char} (digits : AllDigits ds) (nonempty : ds ≠ []) :
    takeSign ds = (false, ds) := by
  have other : ∀ c ∈ digitList, c ≠ '-' ∧ c ≠ '+' := by simp [digitList]
  cases ds with
  | nil => exact absurd rfl nonempty
  | cons c ds =>
      obtain ⟨minus, plus⟩ := other c (mem_digitList (digits c List.mem_cons_self))
      unfold takeSign
      split <;> simp_all

/-- An integer in decimal digits is read as the number of the format that is nearest to it. -/
theorem read?_integerText (i : Int) :
    read? (Scalar.integerText i) = some (Binary64.ofDecimal (i < 0) i.natAbs 0) := by
  have digits := allDigits_toDigits i.natAbs
  have nonempty : Nat.toDigits 10 i.natAbs ≠ [] := Nat.toDigits_ne_nil
  have number := natOfDigits_toDigits i.natAbs
  have text := toList_integerText i
  generalize Nat.toDigits 10 i.natAbs = ds at digits nonempty number text
  have bare : ∀ c ∈ ds, Bare c := by
    have each : ∀ c ∈ digitList, Bare c := by simp [digitList, Bare, isPad]
    exact fun c member => each c (mem_digitList (digits c member))
  have decimal : ∀ negative, decimal? negative ds = some (Binary64.ofDecimal negative i.natAbs 0) := by
    intro negative
    rw [decimal?_whole nonempty (spanDigits_all digits) (by simp), number]
    rfl
  by_cases negative : i < 0
  · rw [decide_eq_true negative, if_pos rfl] at text
    have signed : ∀ c ∈ '-' :: ds, Bare c :=
      List.forall_mem_cons.mpr ⟨⟨by decide, by decide, by decide⟩, bare⟩
    rw [read?, text, dropUnderscores?_bare signed, decide_eq_true negative]
    simp [takeSign, special?_digits digits nonempty, decimal]
  · rw [decide_eq_false negative, if_neg Bool.false_ne_true] at text
    rw [read?, text, dropUnderscores?_bare bare, decide_eq_false negative]
    simp [takeSign_digits digits nonempty, special?_digits digits nonempty, decimal]

end Numeral

/-! ## Cells and conditions -/

section

open Binary64 Scalar

variable {a b : Int}

theorem Cell.parse_comparison (b : Int) :
    Cell.parse (">" ++ integerText b) = ⟨.greaterThan, integerText b, false⟩ ∧
      Cell.parse ("<" ++ integerText b) = ⟨.lessThan, integerText b, false⟩ := by
  simp [Cell.parse, Cell.parseBody]

theorem Binary64.lt_ofDecimal (a b : Int) :
    lt (ofDecimal (a < 0) a.natAbs 0) (ofDecimal (b < 0) b.natAbs 0) =
      decide (a < b ∧ seen a ≠ seen b) := by
  rw [ofDecimal_whole, ofDecimal_whole, lt_whole]
  exact decide_eq_decide.mpr seen_lt_seen_iff

/-- A comparison of two integers holds where they are in this order and do not look alike. -/
theorem Cell.accepts_comparison (a b : Int) :
    (Cell.parse (">" ++ integerText b)).accepts (integerText a) =
        .ok (decide (b < a ∧ seen a ≠ seen b)) ∧
      (Cell.parse ("<" ++ integerText b)).accepts (integerText a) =
        .ok (decide (a < b ∧ seen a ≠ seen b)) := by
  obtain ⟨greater, less⟩ := Cell.parse_comparison b
  have read : ∀ (cell : Cell) (i : Int),
      cell.number (integerText i) = .ok (ofDecimal (i < 0) i.natAbs 0) := fun cell i => by
    rw [Cell.number, Numeral.read?_integerText]
  constructor
  · have above : lt (ofDecimal (b < 0) b.natAbs 0) (ofDecimal (a < 0) a.natAbs 0) =
        decide (b < a ∧ seen a ≠ seen b) :=
      (lt_ofDecimal b a).trans (decide_eq_decide.mpr (and_congr_right fun _ => ne_comm))
    rw [greater, ← above, Cell.accepts, Cell.holds]
    simp only [read]
    exact congrArg Except.ok (Bool.bne_false _)
  · rw [less, ← lt_ofDecimal a b, Cell.accepts, Cell.holds]
    simp only [read]
    exact congrArg Except.ok (Bool.bne_false _)

end

namespace ContextId

open Binary64 Scalar

/-- Conditions on a stored integer compare it in the right order, except that integers that look alike
are neither above nor below each other.  Only integers of more than 53 binary digits can look alike. -/
theorem order_of_stored_integers (σ : Store) (ctx : ContextId) (subject : String) {a : Int} {id : SourceId}
    {name : Scalar} {kind : MemoryKind} {values defaults : Assoc Scalar Value}
    (found : Assoc.find? (σ.scope (σ.context ctx).registry) (.text (Coordinate.parse subject).source) =
      some (id, ⟨name, .memory kind values defaults⟩))
    (stored : values.find? (.text (Coordinate.parse subject).fragment) = some (.scalar (.int a))) :
    (Scalar.int a).hasText = true → ∀ b : Int,
      let answer := fun cell => (runFrom (ctx.evaluate fun resolve =>
        (Condition.parse subject cell).evaluate resolve) σ).1
      answer (">" ++ integerText b) = .ok (decide (b < a ∧ seen a ≠ seen b), integerText a) ∧
      answer ("<" ++ integerText b) = .ok (decide (a < b ∧ seen a ≠ seen b), integerText a) ∧
      (a ≠ b → seen a = seen b → 2 ^ 53 ≤ a.natAbs ∧ 2 ^ 53 ≤ b.natAbs) := by
  intro _ b answer
  have direct : (σ.scope (σ.context ctx).registry).direct? (Coordinate.parse subject) =
      some (.ok (integerText a)) := by
    rw [Scope.direct?, found]
    simp only [Source.direct?, stored, Value.fragmentText_int]
  have answered : ∀ (cell : String) (holds : Bool),
      (Cell.parse cell).accepts (integerText a) = .ok holds → answer cell = .ok (holds, integerText a) := by
    intro cell holds accepted
    have read : runFrom (σ.resolver ctx (Condition.parse subject cell).subject) (σ.progress ctx) =
        (.ok (integerText a), σ.progress ctx) := Scope.runFrom_resolve_direct direct _ _
    have evaluated := Condition.runFrom_evaluate_ok read accepted
    simp only [answer]
    rw [ctx.runFrom_evaluate, evaluated]
  obtain ⟨above, below⟩ := Cell.accepts_comparison a b
  refine ⟨answered _ _ above, answered _ _ below, fun differ alike => ?_⟩
  exact ⟨natAbs_of_seen_eq differ alike, natAbs_of_seen_eq differ.symm alike.symm⟩

/-- A stored integer that needs 54 binary digits. -/
def cents : Store :=
  { Store.empty with
    sources := #[.stored (.text "till") [(.text "cents", .scalar (.int 9007199254740993))] []]
    states := #[[(.text "till", ⟨0⟩)]] }

/-- The store with a context over that state. -/
def overCents : Store :=
  (runFrom (ContextId.open ⟨0⟩ (some (.ofList [])) (.requestOf []) none) cents).2

/-- The next integer below is not seen to be below. -/
theorem cents_look_alike :
    (runFrom (ContextId.evaluate ⟨0⟩ fun resolve =>
      (Condition.parse "till::cents" ">9007199254740992").evaluate resolve) overCents).1 =
      .ok (false, "9007199254740993") := by
  decide +kernel

theorem order_of_cents :
    (runFrom (ContextId.evaluate ⟨0⟩ fun resolve =>
      (Condition.parse "till::cents" ">9007199254740991").evaluate resolve) overCents).1 =
      .ok (true, "9007199254740993") := by
  have text : integerText 9007199254740993 = "9007199254740993" := by decide +kernel
  have cell : ">" ++ integerText 9007199254740991 = ">9007199254740991" := by decide +kernel
  have differ : seen 9007199254740993 ≠ seen 9007199254740991 := by decide +kernel
  have above := (order_of_stored_integers overCents ⟨0⟩ "till::cents" rfl rfl
    (by decide +kernel) 9007199254740991).1
  rw [cell, text] at above
  simpa [differ] using above

end ContextId

end DecisionTables
