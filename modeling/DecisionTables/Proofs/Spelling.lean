import Mathlib
import DecisionTables.Proofs.Folding
import DecisionTables.Proofs.Laying
import DecisionTables.Yaml.Reader

/-!
# Scalars without quotes

A scalar is written either without quotes, in characters that are read as one plain scalar of the
same kind and with the same value, or it is a text and written in single quotes.
-/

namespace DecisionTables.Yaml

/-! ## Plain characters -/

/-- Characters that are read as one plain scalar. -/
structure Unquoted (cs : List Char) : Prop where
  ascii : cs.all isPlainAscii = true
  opening : ∃ c rest, cs = c :: rest ∧ c ≠ ' ' ∧ isOpeningSign c (endsWord rest.head?) = false ∧
    hasInnerSign c rest = false
  last : cs.getLast? ≠ some ' '
  mark : startsLikeMark cs = false

/-- A text is written without quotes when its characters and its kind allow that. -/
theorem isBare_iff {s : String} : isBare s = true ↔ Unquoted s.toList ∧ Plain.kind s = .text := by
  rw [isBare]
  constructor
  · intro bare
    split at bare
    case h_1 => cases bare
    case h_2 c rest same =>
      simp only [Bool.and_eq_true, bne_iff_ne, Bool.not_eq_true', beq_iff_eq] at bare
      obtain ⟨⟨⟨⟨⟨⟨ascii, first⟩, last⟩, mark⟩, opening⟩, inner⟩, kind⟩ := bare
      exact ⟨same ▸ ⟨ascii, ⟨c, rest, rfl, first, opening, inner⟩, last, mark⟩, kind⟩
  · rintro ⟨⟨ascii, ⟨c, rest, same, first, opening, inner⟩, last, mark⟩, kind⟩
    rw [same] at ascii last mark ⊢
    simp only [Bool.and_eq_true, bne_iff_ne, Bool.not_eq_true', beq_iff_eq]
    exact ⟨⟨⟨⟨⟨⟨ascii, first⟩, last⟩, mark⟩, opening⟩, inner⟩, kind⟩

/-- The signs that cannot start a plain scalar. -/
def openingSigns : List Char :=
  ['#', ',', '[', ']', '\x7b', '\x7d', '&', '*', '!', '|', '>', '\'', '"', '%', '@', '\x60']

theorem isOpeningSign_eq_false {c : Char} {gap : Bool} : isOpeningSign c gap = false ↔
    c ∉ openingSigns ∧ (gap = true → c ≠ '?' ∧ c ≠ ':' ∧ c ≠ '-') := by
  have signs : "#,[]\x7b\x7d&*!|>'\"%@\x60".toList = openingSigns := rfl
  rw [isOpeningSign, String.contains_char_eq, signs]
  cases gap <;> simp [and_assoc]

/-! ## Words and numbers -/

/-- A character of a number or of a word in small letters. -/
def isWordChar (c : Char) : Bool :=
  Numeral.isDigit c || ('a' ≤ c && c ≤ 'z') || c == '.' || c == '+' || c == '-'

section

variable {c : Char} {cs rest : List Char}

theorem isWordChar_of_digit (digit : Numeral.isDigit c = true) : isWordChar c = true := by
  rw [isWordChar, digit, Bool.true_or, Bool.true_or, Bool.true_or, Bool.true_or]

theorem isPlainAscii_of_word (word : isWordChar c = true) : isPlainAscii c = true := by
  have range (a b : Char) (low : 0x20 ≤ a.toNat) (high : b.toNat ≤ 0x7E) (inside : a ≤ c ∧ c ≤ b) :
      isPlainAscii c = true := by
    have left : a.toNat ≤ c.toNat := inside.1
    have right : c.toNat ≤ b.toNat := inside.2
    rw [isPlainAscii, Bool.and_eq_true, decide_eq_true_eq, decide_eq_true_eq]
    exact ⟨low.trans left, right.trans high⟩
  simp only [isWordChar, Numeral.isDigit, Bool.or_eq_true, Bool.and_eq_true, decide_eq_true_eq,
    beq_iff_eq] at word
  obtain (((digit | letter) | rfl) | rfl) | rfl := word
  · exact range '0' '9' (by decide) (by decide) digit
  · exact range 'a' 'z' (by decide) (by decide) letter
  · rfl
  · rfl
  · rfl

theorem ne_of_word {d : Char} (word : isWordChar c = true) (other : isWordChar d = false) : c ≠ d := by
  rintro rfl
  rw [word] at other
  cases other

theorem not_mem_openingSigns (word : isWordChar c = true) : c ∉ openingSigns := by
  have none : openingSigns.all (fun d => !isWordChar d) = true := rfl
  intro inside
  have other := List.all_eq_true.mp none c inside
  rw [word] at other
  cases other

theorem hasInnerSign_word {before : Char} (word : cs.all isWordChar = true) :
    hasInnerSign before cs = false := by
  induction cs generalizing before with
  | nil => rfl
  | cons c rest ih =>
      rw [List.all_cons, Bool.and_eq_true] at word
      rw [hasInnerSign, beq_false_of_ne (ne_of_word word.1 rfl), beq_false_of_ne (ne_of_word word.1 rfl),
        ih word.2]
      rfl

theorem endsWord_word (word : rest.all isWordChar = true) (nonempty : rest ≠ []) :
    endsWord rest.head? = false := by
  cases rest with
  | nil => exact absurd rfl nonempty
  | cons c rest =>
      rw [List.all_cons, Bool.and_eq_true] at word
      have other (d : Char) (none : isWordChar d = false) : (c == d) = false :=
        beq_false_of_ne (ne_of_word word.1 none)
      rw [List.head?_cons, endsWord, isGap, isBreak, other ' ' rfl, other '\t' rfl, other '\n' rfl,
        other '\r' rfl, other '\x85' (by decide), other '\u2028' (by decide), other '\u2029' (by decide)]
      rfl

/-- A word that is not just a dash or a mark between documents needs no quotes. -/
theorem unquoted_word (word : cs.all isWordChar = true) (nonempty : cs ≠ []) (dash : cs ≠ ['-'])
    (mark : startsLikeMark cs = false) : Unquoted cs := by
  have ascii : cs.all isPlainAscii = true := by
    rw [List.all_eq_true] at word ⊢
    exact fun c inside => isPlainAscii_of_word (word c inside)
  cases cs with
  | nil => exact absurd rfl nonempty
  | cons c rest =>
      have both := word
      rw [List.all_cons, Bool.and_eq_true] at both
      refine ⟨ascii, ⟨c, rest, rfl, ne_of_word both.1 rfl, ?_, hasInnerSign_word both.2⟩, ?_, mark⟩
      · refine isOpeningSign_eq_false.mpr ⟨not_mem_openingSigns both.1, fun gap => ⟨ne_of_word both.1 rfl,
          ne_of_word both.1 rfl, ?_⟩⟩
        rintro rfl
        rw [endsWord_word both.2 fun alone => dash (by rw [alone])] at gap
        cases gap
      · intro last
        exact ne_of_word (List.all_eq_true.mp word ' ' (List.mem_of_getLast? last)) (d := ' ') rfl rfl

/-- A word behind a digit, or behind a dash and a digit, needs no quotes. -/
theorem unquoted_number (negative : Bool) (word : cs.all isWordChar = true) (nonempty : cs ≠ [])
    (leads : ∀ c ∈ cs.head?, Numeral.isDigit c = true) :
    Unquoted (if negative then '-' :: cs else cs) := by
  cases cs with
  | nil => exact absurd rfl nonempty
  | cons c rest =>
      have digit := leads c rfl
      have dash : (c == '-') = false := beq_false_of_ne (by rintro rfl; cases digit)
      have point : (c == '.') = false := beq_false_of_ne (by rintro rfl; cases digit)
      cases negative with
      | false =>
          refine unquoted_word word nonempty ?_ ?_
          · rintro ⟨⟩
            cases digit
          · simp [startsLikeMark, dash, point]
      | true =>
          refine unquoted_word ?_ (List.cons_ne_nil _ _) ?_ ?_
          · rw [if_pos rfl, List.all_cons, word]
            rfl
          · rintro ⟨⟩
          · cases rest <;> simp [startsLikeMark, dash, point]

end

/-! ## Kinds of numbers -/

open Numeral (AllDigits Laid natOfDigits head?_digit)

namespace Plain

section

variable {cs ds : List Char}

/-- A character that a number may start with. -/
def startsNumber (c : Char) : Bool :=
  c == '-' || Numeral.isDigit c

theorem contains_eq_false {words : List String} {text : String}
    (starts : text.toList.head?.any startsNumber = true)
    (none : words.all (fun w => !w.toList.head?.any startsNumber) = true) : words.contains text = false := by
  rw [List.contains_eq_mem, decide_eq_false_iff_not]
  intro inside
  have other := List.all_eq_true.mp none text inside
  rw [starts] at other
  cases other

/-- No word with a meaning of its own starts like a number. -/
theorem kind_number {text : String} (starts : text.toList.head?.any startsNumber = true)
    (integer : isFloat text.toList = false → isInt text.toList = true) :
    kind text = if isFloat text.toList then .float else .int := by
  rw [kind, contains_eq_false starts rfl, contains_eq_false starts rfl, contains_eq_false starts rfl]
  cases float : isFloat text.toList with
  | true => simp
  | false => simp [integer float]

theorem takeSign_number (negative : Bool) (leads : ∀ c ∈ ds.head?, Numeral.isDigit c = true) :
    Numeral.takeSign (if negative then '-' :: ds else ds) = (negative, ds) := by
  cases negative with
  | true => rfl
  | false =>
      rw [if_neg Bool.false_ne_true]
      unfold Numeral.takeSign
      split
      case h_1 rest => exact absurd (leads '-' rfl) (by decide)
      case h_2 rest => exact absurd (leads '+' rfl) (by decide)
      case h_3 => rfl

theorem parts_eq (single : ':' ∉ cs) : parts cs = [cs] :=
  List.splitOn_eq_singleton single

theorem isDigitOrMark_of_digit {c : Char} (digit : Numeral.isDigit c = true) : isDigitOrMark c = true := by
  rw [isDigitOrMark, digit, Bool.true_or]

theorem isDigitRun_digits (digits : AllDigits ds) (nonempty : ds ≠ []) : isDigitRun ds = true := by
  cases ds with
  | nil => exact absurd rfl nonempty
  | cons c rest =>
      obtain ⟨head, tail⟩ := List.forall_mem_cons.mp digits
      rw [isDigitRun, head, Bool.true_and, List.all_eq_true]
      exact fun d inside => isDigitOrMark_of_digit (tail d inside)

theorem isInt_number (negative : Bool) (leads : Numeral.Leads ds) :
    isInt (if negative then '-' :: ds else ds) = true := by
  obtain ⟨digits, nonempty, zero⟩ := leads
  have single : ':' ∉ ds := fun inside => absurd (digits ':' inside) (by decide)
  rw [isInt, unsigned, takeSign_number negative (head?_digit digits)]
  dsimp only
  split
  case h_1 | h_2 => exact absurd (zero rfl) (by simp)
  case h_3 => rfl
  case h_4 rest alone =>
    rw [List.cons_eq_cons] at zero
    exact absurd (zero rfl).2 alone
  case h_5 =>
    simp only [parts_eq single, isDigitRun_digits digits nonempty, List.all_nil, Bool.and_self]

/-- Without a point there is no number with a point. -/
theorem isFloat_integer (negative : Bool) (digits : AllDigits ds) :
    isFloat (if negative then '-' :: ds else ds) = false := by
  have pointless : ∀ c ∈ ds, (c != '.') = true := by
    intro c inside
    rw [bne_iff_ne]
    rintro rfl
    exact absurd (digits _ inside) (by decide)
  have behind : ds.dropWhile (· != '.') = [] := List.dropWhile_eq_nil_iff.mpr pointless
  rw [isFloat, unsigned, takeSign_number negative (head?_digit digits)]
  simp only [List.span_eq_takeWhile_dropWhile, behind, List.isEmpty_nil, if_true]

theorem isFloat_point (negative : Bool) {whole part tail : List Char} (digits : AllDigits whole)
    (nonempty : whole ≠ []) (digits' : AllDigits part) (behind : ∀ c ∈ tail.head?, isDigitOrMark c = false)
    (exponent : isExponent tail = true) :
    isFloat (if negative then '-' :: (whole ++ '.' :: (part ++ tail)) else whole ++ '.' :: (part ++ tail)) =
      true := by
  have leads : ∀ c ∈ (whole ++ '.' :: (part ++ tail)).head?, Numeral.isDigit c = true := by
    rw [List.head?_append_of_ne_nil _ nonempty]
    exact head?_digit digits
  have pointless : ∀ c ∈ whole, (c != '.') = true := by
    intro c inside
    rw [bne_iff_ne]
    rintro rfl
    exact absurd (digits _ inside) (by decide)
  have first : (whole ++ '.' :: (part ++ tail)).span (· != '.') = (whole, '.' :: (part ++ tail)) := by
    rw [List.span_eq_takeWhile_dropWhile, List.takeWhile_append_of_pos pointless,
      List.dropWhile_append_of_pos pointless, List.takeWhile_cons_of_neg (by simp),
      List.dropWhile_cons_of_neg (by simp), List.append_nil]
  have second : (part ++ tail).span isDigitOrMark = (part, tail) := by
    have marks : ∀ c ∈ part, isDigitOrMark c = true :=
      fun c inside => isDigitOrMark_of_digit (digits' c inside)
    rw [List.span_eq_takeWhile_dropWhile, List.takeWhile_append_of_pos marks,
      List.dropWhile_append_of_pos marks]
    cases tail with
    | nil => simp
    | cons c rest =>
        have other : isDigitOrMark c = false := behind c rfl
        rw [List.takeWhile_cons_of_neg (by simp [other]), List.dropWhile_cons_of_neg (by simp [other]),
          List.append_nil]
  have single : ':' ∉ whole := fun inside => absurd (digits ':' inside) (by decide)
  rw [isFloat, unsigned, takeSign_number negative leads]
  simp only [first, List.drop_one, List.tail_cons, second, List.isEmpty_cons, Bool.false_eq_true, if_false,
    List.isEmpty_eq_false_iff.mpr nonempty, parts_eq single, isDigitRun_digits digits nonempty, exponent,
    Bool.and_self]

theorem isExponent_exponentText (e : Int) : isExponent (Binary64.exponentText e) = true := by
  obtain ⟨digits, allDigits, nonempty, _, text⟩ := Numeral.exponentText_eq e
  have run : isRun Numeral.isDigit digits = true := by
    rw [isRun, List.isEmpty_eq_false_iff.mpr nonempty, List.all_eq_true.mpr allDigits]
    rfl
  rw [text, isExponent, run]
  split <;> rfl

/-- What is laid out with a point is a number with a point. -/
theorem isFloat_laid (negative : Bool) {d : Decimal} (laid : Laid ds d) (point : '.' ∈ ds) :
    isFloat (if negative then '-' :: ds else ds) = true := by
  cases laid with
  | @point whole part leads digits nonempty =>
      have last : ∀ c ∈ ([] : List Char).head?, isDigitOrMark c = false := fun _ impossible => by cases impossible
      have float := isFloat_point negative leads.1 leads.2.1 digits last rfl
      rwa [List.append_nil] at float
  | @power c part digit digits e =>
      obtain ⟨rest, restDigits, _, _, text⟩ := Numeral.exponentText_eq e
      cases part with
      | nil =>
          have none : '.' ∉ c :: Binary64.exponentText e := by
            have first : '.' ≠ c := by
              rintro rfl
              cases digit
            have later : '.' ∉ rest := fun inside => absurd (restDigits _ inside) (by decide)
            rw [text]
            split <;> simp [first, later]
          exact absurd point none
      | cons x xs =>
          have letter : ∀ c ∈ (Binary64.exponentText e).head?, isDigitOrMark c = false := by
            rw [text]
            rintro c ⟨⟩
            rfl
          exact isFloat_point negative (List.forall_mem_singleton.mpr digit)
            (List.cons_ne_nil _ _) digits letter (isExponent_exponentText e)

end

end Plain

/-! ## Values of numbers -/

section

variable {cs ds : List Char}

theorem words_digits (digits : AllDigits ds) : ds.all isWordChar = true :=
  List.all_eq_true.mpr fun c inside => isWordChar_of_digit (digits c inside)

theorem words_laid {d : Decimal} (laid : Laid ds d) : ds.all isWordChar = true := by
  cases laid with
  | @point whole part leads digits nonempty =>
      rw [List.all_append, List.all_cons, words_digits leads.1, words_digits digits]
      rfl
  | @power c part digit digits e =>
      obtain ⟨rest, restDigits, _, _, text⟩ := Numeral.exponentText_eq e
      have fraction : (Numeral.fractionText part).all isWordChar = true := by
        rw [Numeral.fractionText]
        split
        · rfl
        · rw [List.all_cons, words_digits digits]
          rfl
      rw [text, List.cons_append, List.all_cons, List.all_append, fraction, List.all_cons, List.all_cons,
        words_digits restDigits, isWordChar_of_digit digit]
      split <;> rfl

theorem words_sign (negative : Bool) (words : ds.all isWordChar = true) :
    (if negative then '-' :: ds else ds).all isWordChar = true := by
  cases negative with
  | false => exact words
  | true =>
      rw [if_pos rfl, List.all_cons, words]
      rfl

theorem filter_words (words : cs.all isWordChar = true) : cs.filter (· != '_') = cs :=
  List.filter_eq_self.mpr fun c inside =>
    bne_iff_ne.mpr (ne_of_word (List.all_eq_true.mp words c inside) rfl)

theorem toLower_word {c : Char} (word : isWordChar c = true) : c.toLower = c := by
  refine dif_neg fun capital => ?_
  have low : 65 ≤ c.toNat := capital.1
  have high : c.toNat ≤ 90 := capital.2
  simp only [isWordChar, Numeral.isDigit, Bool.or_eq_true, Bool.and_eq_true, decide_eq_true_eq,
    beq_iff_eq] at word
  obtain (((digit | letter) | rfl) | rfl) | rfl := word
  · have digit : c.toNat ≤ 57 := digit.2
    omega
  · have letter : 97 ≤ c.toNat := letter.1
    omega
  · cases high
    contradiction
  · contradiction
  · contradiction

theorem map_toLower_words (words : cs.all isWordChar = true) : cs.map Char.toLower = cs :=
  (List.map_congr_left fun c inside => toLower_word (List.all_eq_true.mp words c inside)).trans
    (List.map_id cs)

theorem hexValue?_digit {c : Char} (digit : Numeral.isDigit c = true) :
    Text.hexValue? c = some (c.toNat - 0x30) :=
  if_pos digit

theorem numberInBase_digits (digits : AllDigits ds) : numberInBase 10 ds = some (natOfDigits ds) := by
  rw [numberInBase, natOfDigits]
  generalize 0 = n
  induction ds generalizing n with
  | nil => rfl
  | cons c rest ih =>
      obtain ⟨head, tail⟩ := List.forall_mem_cons.mp digits
      rw [List.foldlM_cons, hexValue?_digit head, List.foldl_cons]
      exact ih tail _

theorem decimalDigits_digits (digits : AllDigits ds) (nonempty : ds ≠ [])
    (short : ds.length ≤ Numeral.integerLimit) : decimalDigits ds = .ok (natOfDigits ds) := by
  rw [decimalDigits, if_neg (Nat.not_lt.mpr short), digitsInBase, numberInBase_digits digits]
  simp only [List.isEmpty_eq_false_iff.mpr nonempty, Bool.false_eq_true, if_false]

/-- An integer in digits is read as this integer. -/
theorem intOfPlain_number (negative : Bool) (leads : Numeral.Leads ds)
    (short : ds.length ≤ Numeral.integerLimit) :
    intOfPlain (String.ofList (if negative then '-' :: ds else ds)) =
      .ok (if negative then -(natOfDigits ds : Int) else natOfDigits ds) := by
  obtain ⟨digits, nonempty, zero⟩ := leads
  have single : ':' ∉ ds := fun inside => absurd (digits ':' inside) (by decide)
  rw [intOfPlain, String.toList_ofList, filter_words (words_sign negative (words_digits digits)),
    Plain.takeSign_number negative (head?_digit digits)]
  dsimp only
  split
  case h_1 => rfl
  case h_2 | h_3 => exact absurd (zero rfl) (by simp)
  case h_4 rest alone _ _ =>
    rw [List.cons_eq_cons] at zero
    exact absurd (zero rfl).2 alone
  case h_5 =>
    rw [Plain.parts_eq single, List.mapM_cons, decimalDigits_digits digits nonempty short]
    simp [ofSixtieths, bind, Except.bind, pure, Except.pure]

theorem signed_ofDecimal (negative : Bool) (digits : Nat) (exponent : Int) :
    (if negative then negated (Binary64.ofDecimal false digits exponent)
      else Binary64.ofDecimal false digits exponent) = Binary64.ofDecimal negative digits exponent := by
  cases negative with
  | false => rw [if_neg Bool.false_ne_true]
  | true =>
      simp only [Binary64.ofDecimal, Binary64.ofQuotient, if_true]
      split_ifs <;> rfl

/-- A number that is laid out is read as the decimal that it stands for. -/
theorem floatOfPlain_laid (negative : Bool) {d : Decimal} (laid : Laid ds d) :
    floatOfPlain (String.ofList (if negative then '-' :: ds else ds)) =
      .ok (Binary64.ofDecimal negative d.digits d.exponent) := by
  have words := words_laid laid
  have all := words_sign negative words
  obtain ⟨nonempty, leads⟩ := laid.head?_digit
  have single : ':' ∉ ds := fun inside =>
    ne_of_word (List.all_eq_true.mp words ':' inside) (d := ':') rfl rfl
  have special (name : String) (first : name.toList.head? = some '.') : (ds == name.toList) = false := by
    refine beq_false_of_ne ?_
    rintro rfl
    exact absurd (leads '.' first) (by decide)
  rw [floatOfPlain, String.toList_ofList, filter_words all, map_toLower_words all,
    Plain.takeSign_number negative leads]
  dsimp only
  rw [special ".inf" rfl, special ".nan" rfl, Plain.parts_eq single]
  simp only [List.mapM_cons, List.mapM_nil, Numeral.decimal?_of_laid laid]
  rw [← signed_ofDecimal negative]
  generalize Binary64.ofDecimal false d.digits d.exponent = x
  rfl

end

/-! ## Scalars on one line -/

/-- The point is always there. -/
theorem point_mem_layDecimal {layout : Binary64.Layout} (point : layout.pointBeforeExponent = true)
    (d : Decimal) : '.' ∈ Binary64.layDecimal layout d := by
  have nonempty : d.digitText ≠ [] := Nat.toDigits_ne_nil
  unfold Binary64.layDecimal
  dsimp only
  split
  case isTrue =>
    split
    · simp
    · split <;> simp
  case isFalse =>
    split
    case h_1 empty => exact absurd empty nonempty
    case h_2 => simp
    case h_3 => simp

theorem point_mem_render (negative : Bool) (units : Nat) :
    '.' ∈ ((Binary64.finite negative units).render numberLayout).toList := by
  have inside : '.' ∈ if units = 0 then ['0', '.', '0'] else
      Binary64.layDecimal numberLayout (Binary64.shortest units) := by
    split
    · simp
    · exact point_mem_layDecimal rfl _
  rw [Binary64.render, String.toList_ofList]
  cases negative with
  | false => exact inside
  | true => exact List.mem_cons_of_mem _ inside

/-- The token that a scalar on one line is read as. -/
def scalarToken : Scalar → Token
  | .text s => if isBare s then .plain s else .literal (.text s)
  | s => .plain (writeScalar s)

/-- How a scalar is written and read. -/
inductive Spells : Scalar → List Char → Token → Prop where
  | plain {s cs} (unquoted : Unquoted cs) (value : scalarOf (String.ofList cs) = .ok s) :
      Spells s cs (.plain (String.ofList cs))
  | quoted {s} (printable : IsPrintable s) : Spells (.text s) (quotedLine s) (.literal (.text s))

theorem Spells.nonempty {s : Scalar} {cs : List Char} {t : Token} (spells : Spells s cs t) : cs ≠ [] := by
  cases spells with
  | plain unquoted _ =>
      obtain ⟨c, rest, same, _⟩ := unquoted.opening
      rw [same]
      exact List.cons_ne_nil c rest
  | quoted _ => exact List.cons_ne_nil _ _

theorem spells_text {s : String} (printable : IsPrintable s) :
    Spells (.text s) (writeScalar (.text s)).toList (scalarToken (.text s)) := by
  rw [writeScalar_text printable, String.toList_ofList, lineOf, scalarToken]
  by_cases bare : isBare s = true
  · obtain ⟨unquoted, kind⟩ := isBare_iff.mp bare
    have value : scalarOf (String.ofList s.toList) = .ok (.text s) := by
      rw [String.ofList_toList, scalarOf, kind]
    have plain := Spells.plain unquoted value
    rw [String.ofList_toList] at plain
    rwa [if_pos bare, if_pos bare]
  · rw [if_neg bare, if_neg bare]
    exact .quoted printable

theorem spells_plain {s : Scalar} {line : String} (unquoted : Unquoted line.toList)
    (value : scalarOf line = .ok s) : Spells s line.toList (.plain line) := by
  have plain := Spells.plain unquoted (s := s) (String.ofList_toList.symm ▸ value)
  rwa [String.ofList_toList] at plain

theorem startsNumber_sign (negative : Bool) {ds : List Char} (nonempty : ds ≠ [])
    (leads : ∀ c ∈ ds.head?, Numeral.isDigit c = true) :
    (if negative then '-' :: ds else ds).head?.any Plain.startsNumber = true := by
  cases ds with
  | nil => exact absurd rfl nonempty
  | cons c rest =>
      cases negative with
      | true => rfl
      | false =>
          change Plain.startsNumber c = true
          rw [Plain.startsNumber, leads c rfl, Bool.or_true]

theorem spells_integer {i : Int} (short : Scalar.hasText (.int i) = true) :
    Spells (.int i) (Scalar.integerText i).toList (.plain (Scalar.integerText i)) := by
  have leads := Numeral.leads_toDigits i.natAbs
  have head := head?_digit leads.1
  have text := Numeral.toList_integerText i
  have starts := startsNumber_sign (decide (i < 0)) leads.2.1 head
  rw [Scalar.hasText, decide_eq_true_eq, Nat.pow_eq,
    ← Nat.length_toDigits_le_iff (by decide) (by decide)] at short
  have number := intOfPlain_number (decide (i < 0)) leads short
  rw [← text, String.ofList_toList, Numeral.natOfDigits_toDigits] at number
  refine spells_plain (text ▸ unquoted_number (decide (i < 0)) (words_digits leads.1) leads.2.1 head) ?_
  rw [scalarOf, Plain.kind_number (text ▸ starts) fun _ => text ▸ Plain.isInt_number _ leads, text,
    Plain.isFloat_integer _ leads.1]
  change (intOfPlain (Scalar.integerText i)).map Scalar.int = _
  rw [number]
  by_cases negative : i < 0
  · rw [if_pos (decide_eq_true negative), show -(i.natAbs : Int) = i by omega]
    rfl
  · rw [decide_eq_false negative, if_neg Bool.false_ne_true, show (i.natAbs : Int) = i by omega]
    rfl

theorem spells_finite {negative : Bool} {units : Nat} (proper : (Binary64.finite negative units).Proper) :
    Spells (.float (.finite negative units)) ((Binary64.finite negative units).render numberLayout).toList
      (.plain ((Binary64.finite negative units).render numberLayout)) := by
  obtain ⟨cs, d, laid, number, text⟩ := Binary64.exists_laid_finite numberLayout (by decide) proper
  obtain ⟨nonempty, head⟩ := laid.head?_digit
  have starts := startsNumber_sign negative nonempty head
  have point : '.' ∈ cs := by
    have inside := point_mem_render negative units
    rw [text, String.toList_ofList] at inside
    cases negative with
    | false => exact inside
    | true => exact (List.mem_cons.mp inside).resolve_left (by decide)
  rw [text]
  refine spells_plain ?_ ?_
  · rw [String.toList_ofList]
    exact unquoted_number negative (words_laid laid) nonempty head
  · have float := Plain.isFloat_laid negative laid point
    rw [scalarOf, Plain.kind_number] <;> rw [String.toList_ofList]
    · rw [float]
      change (floatOfPlain _).map Scalar.float = _
      rw [floatOfPlain_laid negative laid, number]
      rfl
    · exact starts
    · rw [float]
      exact fun impossible => absurd impossible.symm Bool.false_ne_true

/-- A scalar on one line is read as the scalar. -/
theorem spells_writeScalar {s : Scalar} (printable : s.Printable) (short : s.hasText = true) :
    Spells s (writeScalar s).toList (scalarToken s) := by
  have alone (line : String) : String.join [line] = line := String.empty_append
  cases s with
  | text s => exact spells_text printable
  | units us => exact printable.elim
  | null => exact spells_plain (unquoted_word rfl (by decide) (by decide) rfl) rfl
  | bool b =>
      cases b with
      | false => exact spells_plain (unquoted_word rfl (by decide) (by decide) rfl) rfl
      | true => exact spells_plain (unquoted_word rfl (by decide) (by decide) rfl) rfl
  | int i =>
      simp only [scalarToken, writeScalar, scalarLines, alone]
      exact spells_integer short
  | float x =>
      simp only [scalarToken, writeScalar, scalarLines, alone]
      cases x with
      | nan => exact spells_plain (unquoted_word rfl (by decide) (by decide) rfl) rfl
      | infinite negative =>
          cases negative with
          | false => exact spells_plain (unquoted_word rfl (by decide) (by decide) rfl) rfl
          | true => exact spells_plain (unquoted_word rfl (by decide) (by decide) rfl) rfl
      | finite negative units => exact spells_finite printable

/-- An integer on a line does not have too many digits. -/
theorem hasText_of_length {s : Scalar} (short : (writeScalar s).length ≤ Numeral.integerLimit) :
    s.hasText = true := by
  cases s with
  | int i =>
      have line : writeScalar (.int i) = Scalar.integerText i := String.empty_append
      rw [line, ← String.length_toList, Numeral.toList_integerText] at short
      rw [Scalar.hasText, decide_eq_true_eq, Nat.pow_eq, ← Nat.length_toDigits_le_iff (by decide) (by decide)]
      split at short
      · exact Nat.le_of_succ_le short
      · exact short
  | _ => rfl

end DecisionTables.Yaml
