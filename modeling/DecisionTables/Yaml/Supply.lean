import DecisionTables.Text.Lines
import DecisionTables.Yaml.Cursor

/-!
# The supply of characters

A YAML text is checked before it is read, and it comes either at once or, from a
file, in portions.  Of a file only the portions in front of the first that cannot
be had are read, so a fault in them is met before the end of the supply.
-/

namespace DecisionTables.Yaml.Supply

/-- A text that comes at once. -/
def ofString (text : String) : Supply :=
  if text.toList.all isAllowed then ⟨text.toList, none⟩ else ⟨[], some .malformedYaml⟩

/-- The number of characters in a portion of a file. -/
def portion : Nat := 4096

/-- Of several characters, those in whole portions; the first two portions come together. -/
def wholePortions (n : Nat) : Nat :=
  if n < 2 * portion then 0 else n / portion * portion

/-- The number of bytes of a character that starts with a byte, or zero if none does. -/
def width (b : UInt8) : Nat :=
  if b < 0x80 then 1
  else if b < 0xC2 then 0
  else if b < 0xE0 then 2
  else if b < 0xF0 then 3
  else if b < 0xF5 then 4
  else 0

/-- How many bytes at the end are the start of a character that goes on behind them. -/
def openEnd (bytes : ByteArray) : Nat :=
  let startsOpen (n : Nat) : Bool := n ≤ bytes.size && (bytes[bytes.size - n]?).any (n < width ·)
  ([1, 2, 3].find? startsOpen).getD 0

/-- The text of the first bytes of a file, with every line end written as a line feed; a character
that goes on behind them is left out. -/
def textOf? (content : ByteArray) (count : Nat) : Option (List Char) :=
  let bytes := content.extract 0 count
  (String.fromUTF8? (bytes.extract 0 (bytes.size - openEnd bytes))).map fun text =>
    (Text.unifyLineEnds text).toList

/-- How far a file has been decoded. -/
structure Decoding where
  /-- The number of bytes so far. -/
  bytes : Nat
  chars : List Char
  /-- The number of bytes in the last block. -/
  lastBytes : Nat
  /-- The number of characters in the last block. -/
  lastChars : Nat

namespace Decoding

/-- Nothing has been decoded. -/
def start : Decoding := ⟨0, [], 0, 0⟩

/-- The fewest bytes that are decoded together. -/
def block : Nat := 8192

/-- Decode the next block, which is larger if the wanted characters need that, going by those in the
last block; at the end of the file, or at bytes that stand for no character, there is none. -/
def next? (content : ByteArray) (d : Decoding) (wanted : Nat) : Option Decoding :=
  let bytes := min content.size (d.bytes + max block (d.lastBytes * wanted / d.lastChars))
  if content.size ≤ d.bytes then none
  else (textOf? content bytes).map fun chars =>
    ⟨bytes, chars, bytes - d.bytes, chars.length - d.chars.length⟩

/-- The characters in the portions that can be had of a file with bytes that stand for none, where
`done` characters are in portions already. -/
def portions (content : ByteArray) : Nat → Decoding → Nat → List Char
  | 0, d, done => d.chars.take done
  | fuel + 1, d, done =>
    let wanted := done + portion - d.chars.length
    if wanted = 0 then portions content fuel d (done + portion)
    else
      match d.next? content wanted with
      | some d => portions content fuel d done
      | none => d.chars.take done

end Decoding

/-- The characters of a file that can be had, and whether these are all. -/
def decode (content : ByteArray) : List Char × Bool :=
  match String.fromUTF8? content with
  | some text => ((Text.unifyLineEnds text).toList, true)
  | none =>
    let cs := Decoding.portions content (content.size + 1) .start 0
    (cs.take (wholePortions cs.length), false)

/-- The text of a file, with every line end written as a line feed. -/
def ofBytes (content : ByteArray) : Supply :=
  let (cs, isWhole) := decode content
  let clean := cs.takeWhile isAllowed
  if clean.length < cs.length then
    ⟨cs.take (wholePortions clean.length), some .malformedYaml⟩
  else ⟨cs, if isWhole then none else some .malformedEncoding⟩

/-- Whole portions hold no more characters than there are. -/
theorem wholePortions_le (n : Nat) : wholePortions n ≤ n := by
  unfold wholePortions
  split
  · omega
  · exact Nat.div_mul_le_self n portion

/-- A text of allowed characters comes as a whole. -/
theorem ofString_eq {text : String} (h : text.toList.all isAllowed = true) :
    ofString text = ⟨text.toList, none⟩ := by
  simp only [ofString, h, if_true]

end DecisionTables.Yaml.Supply
