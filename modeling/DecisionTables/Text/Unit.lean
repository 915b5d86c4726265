/-!
# Code units and hexadecimal digits

Some formats escape a character by the hexadecimal digits of its code unit.  A
character beyond the first plane may be given by a pair of surrogates, which only
together stand for it.
-/

namespace DecisionTables.Text

/-- The value of a hexadecimal digit. -/
def hexValue? (c : Char) : Option Nat :=
  if '0' ≤ c && c ≤ '9' then some (c.toNat - 0x30)
  else if 'a' ≤ c && c ≤ 'f' then some (c.toNat - 0x61 + 10)
  else if 'A' ≤ c && c ≤ 'F' then some (c.toNat - 0x41 + 10)
  else none

/-- The number that hexadecimal digits denote. -/
def hexNumber? (cs : List Char) : Option Nat :=
  cs.foldlM (fun n c => (hexValue? c).map (16 * n + ·)) 0

/-- A code unit that opens a surrogate pair. -/
def isHighSurrogate (n : Nat) : Bool := 0xD800 ≤ n && n ≤ 0xDBFF

/-- A code unit that closes a surrogate pair. -/
def isLowSurrogate (n : Nat) : Bool := 0xDC00 ≤ n && n ≤ 0xDFFF

/-- A code unit that is half of a surrogate pair. -/
def isSurrogate (n : Nat) : Bool := isHighSurrogate n || isLowSurrogate n

/-- The character of a code unit that stands alone; for half of a pair the replacement character. -/
def unitChar (n : Nat) : Char :=
  if isSurrogate n then '\uFFFD' else Char.ofNat n

/-- The character of a surrogate pair. -/
def pairChar (high low : Nat) : Char :=
  Char.ofNat (0x10000 + (high - 0xD800) * 0x400 + (low - 0xDC00))

/-- The text of code units in which neighbouring surrogates form pairs. -/
def ofUnits : List Nat → List Char
  | [] => []
  | [n] => [unitChar n]
  | n :: m :: rest =>
    if isHighSurrogate n && isLowSurrogate m then pairChar n m :: ofUnits rest
    else unitChar n :: ofUnits (m :: rest)

/-- A character is no half of a pair. -/
theorem not_surrogate (c : Char) :
    isHighSurrogate c.toNat = false ∧ isLowSurrogate c.toNat = false := by
  have h := c.valid
  simp only [isHighSurrogate, isLowSurrogate, Bool.and_eq_false_iff, decide_eq_false_iff_not]
  simp only [UInt32.isValidChar, Nat.isValidChar] at h
  change c.toNat < 0xD800 ∨ (0xDFFF < c.toNat ∧ c.toNat < 0x110000) at h
  omega

@[simp] theorem unitChar_toNat (c : Char) : unitChar c.toNat = c := by
  simp [unitChar, isSurrogate, (not_surrogate c).1, (not_surrogate c).2, Char.ofNat_toNat]

/-- The code units of characters are read back as these characters. -/
theorem ofUnits_map_toNat (cs : List Char) : ofUnits (cs.map Char.toNat) = cs := by
  induction cs with
  | nil => rfl
  | cons c rest ih =>
    cases rest with
    | nil => simp [ofUnits]
    | cons d rest =>
      simp only [List.map_cons] at ih ⊢
      simp [ofUnits, (not_surrogate c).1, ih]

end DecisionTables.Text
