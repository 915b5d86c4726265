import Mathlib
import DecisionTables.Json.Reader
import DecisionTables.Json.Writer

/-!
# Escaped texts

A text in quotes is read as the text again: every character stands for itself, is escaped by a
letter, or is escaped by the hexadecimal digits of its code units, two of them beyond the
first plane.
-/

namespace DecisionTables

namespace Text

/-! ## Hexadecimal digits -/

theorem hexValue?_hexDigit {n : Nat} (small : n < 16) : hexValue? (hexDigit n) = some n := by
  have all : ∀ m : Fin 16, hexValue? (hexDigit m) = some m.val := by decide
  exact all ⟨n, small⟩

theorem hexDigits_four (n : Nat) :
    hexDigits 4 n = [hexDigit (n / 16 / 16 / 16 % 16), hexDigit (n / 16 / 16 % 16),
      hexDigit (n / 16 % 16), hexDigit (n % 16)] := rfl

/-- Four hexadecimal digits are read as the code unit that they are written for. -/
theorem hexNumber?_hexDigits {n : Nat} (small : n < 0x10000) : hexNumber? (hexDigits 4 n) = some n := by
  have digit : ∀ m, hexValue? (hexDigit (m % 16)) = some (m % 16) :=
    fun m => hexValue?_hexDigit (Nat.mod_lt m (by decide))
  simp only [hexDigits_four, hexNumber?, List.foldlM_cons, List.foldlM_nil, digit, Option.map_some,
    Option.bind_eq_bind, Option.bind_some, pure]
  congr 1
  omega

/-! ## Code units -/

/-- The code units of a character: one, or a pair of surrogates beyond the first plane. -/
def charUnits (c : Char) : List Nat :=
  if c.toNat < 0x10000 then [c.toNat]
  else [0xD800 + (c.toNat - 0x10000) / 0x400, 0xDC00 + (c.toNat - 0x10000) % 0x400]

theorem pairChar_charUnits {c : Char} (large : ¬ c.toNat < 0x10000) :
    pairChar (0xD800 + (c.toNat - 0x10000) / 0x400) (0xDC00 + (c.toNat - 0x10000) % 0x400) = c := by
  rw [pairChar]
  have whole : 0x10000 + (0xD800 + (c.toNat - 0x10000) / 0x400 - 0xD800) * 0x400 +
      (0xDC00 + (c.toNat - 0x10000) % 0x400 - 0xDC00) = c.toNat := by omega
  rw [whole, Char.ofNat_toNat]

theorem toNat_lt (c : Char) : c.toNat < 0x110000 := by
  rcases c.valid with low | high
  · exact Nat.lt_trans low (by decide)
  · exact high.2

/-- The code units of a text are read as the text again. -/
theorem ofUnits_flatMap (cs : List Char) : ofUnits (cs.flatMap charUnits) = cs := by
  induction cs with
  | nil => rfl
  | cons c rest ih =>
      rw [List.flatMap_cons, charUnits]
      split
      case isTrue small =>
        rw [List.singleton_append]
        generalize rest.flatMap charUnits = units at ih ⊢
        cases units with
        | nil => rw [ofUnits, unitChar_toNat, ← ih, ofUnits]
        | cons n units =>
            rw [ofUnits, (not_surrogate c).1, Bool.false_and, if_neg Bool.false_ne_true, unitChar_toNat, ih]
      case isFalse large =>
        have bound := toNat_lt c
        have high : isHighSurrogate (0xD800 + (c.toNat - 0x10000) / 0x400) = true := by
          rw [isHighSurrogate, Bool.and_eq_true, decide_eq_true_eq, decide_eq_true_eq]
          omega
        have low : isLowSurrogate (0xDC00 + (c.toNat - 0x10000) % 0x400) = true := by
          rw [isLowSurrogate, Bool.and_eq_true, decide_eq_true_eq, decide_eq_true_eq]
          omega
        rw [List.cons_append, List.singleton_append, ofUnits, high, low, Bool.and_true, if_pos rfl,
          pairChar_charUnits large, ih]

end Text

namespace Json

open Text

/-- An escaped code unit is read as the unit. -/
theorem stringRest_unitEscape {n : Nat} (small : n < 0x10000) (done : List Nat) (rest : List Char) :
    stringRest done (unitEscape n ++ rest) = stringRest (n :: done) rest := by
  have read := hexNumber?_hexDigits small
  rw [hexDigits_four] at read
  rw [unitEscape, hexDigits_four]
  change stringRest done ('\\' :: 'u' :: _ :: _ :: _ :: _ :: rest) = _
  rw [stringRest, read]

/-- A character behind a backslash is read as what it stands for. -/
theorem stringRest_simple {c plain : Char} (escape : simpleEscape? c = some plain) (done : List Nat)
    (rest : List Char) :
    stringRest done ('\\' :: c :: rest) = stringRest (plain.toNat :: done) rest := by
  have other : c ≠ 'u' := by
    rintro rfl
    cases escape
  rw [stringRest, escape]
  exact fun _ _ _ _ _ impossible => absurd impossible other

/-- A character that needs no escape is read as itself. -/
theorem stringRest_plain {c : Char} (quote : c ≠ '"') (backslash : c ≠ '\\') (visible : 0x20 ≤ c.toNat)
    (done : List Nat) (rest : List Char) :
    stringRest done (c :: rest) = stringRest (c.toNat :: done) rest := by
  rw [stringRest, if_neg (Nat.not_lt.mpr visible)]
  all_goals simp_all

/-- A character that is written is read by its code units. -/
theorem stringRest_writeChar (c : Char) (done : List Nat) (rest : List Char) :
    stringRest done (writeChar c ++ rest) = stringRest ((charUnits c).reverse ++ done) rest := by
  have single : c.toNat < 0x10000 → stringRest ((charUnits c).reverse ++ done) rest =
      stringRest (c.toNat :: done) rest := by
    intro small
    rw [charUnits, if_pos small]
    rfl
  rw [writeChar]
  split_ifs with quoted newline carriage tab feed back visible small
  · rw [Bool.or_eq_true, beq_iff_eq, beq_iff_eq] at quoted
    rcases quoted with rfl | rfl <;> exact stringRest_simple rfl done rest
  · rw [eq_of_beq newline]
    exact stringRest_simple rfl done rest
  · rw [eq_of_beq carriage]
    exact stringRest_simple rfl done rest
  · rw [eq_of_beq tab]
    exact stringRest_simple rfl done rest
  · rw [eq_of_beq feed]
    exact stringRest_simple rfl done rest
  · rw [eq_of_beq back]
    exact stringRest_simple rfl done rest
  · simp only [Bool.and_eq_true, decide_eq_true_eq] at visible
    simp only [Bool.or_eq_true, beq_iff_eq, not_or] at quoted
    rw [single (by omega)]
    exact stringRest_plain quoted.1 quoted.2 visible.1 done rest
  · rw [single small]
    exact stringRest_unitEscape small done rest
  · have bound := toNat_lt c
    rw [charUnits, if_neg small, List.append_assoc, stringRest_unitEscape (by omega),
      stringRest_unitEscape (by omega)]
    rfl

/-- A text in quotes is read as the text. -/
theorem stringRest_flatMap (cs : List Char) (rest : List Char) :
    stringRest [] (cs.flatMap writeChar ++ '"' :: rest) = .ok (String.ofList cs, rest) := by
  have general : ∀ done, stringRest done (cs.flatMap writeChar ++ '"' :: rest) =
      .ok (String.ofList (ofUnits (done.reverse ++ cs.flatMap charUnits)), rest) := by
    induction cs with
    | nil =>
        intro done
        rw [List.flatMap_nil, List.flatMap_nil, List.append_nil]
        rfl
    | cons c rest' ih =>
        intro done
        rw [List.flatMap_cons, List.flatMap_cons, List.append_assoc, stringRest_writeChar, ih,
          List.reverse_append, List.reverse_reverse, List.append_assoc]
  rw [general, List.reverse_nil, List.nil_append, ofUnits_flatMap]

end Json

end DecisionTables
