import DecisionTables.Fault

/-!
# Positions in a YAML text

A cursor is the unread part of a text together with the place it starts at.
Indentation and the reach of simple keys depend on the place.
-/

namespace DecisionTables.Yaml

/-- A character that ends a line. -/
def isBreak (c : Char) : Bool :=
  c == '\n' || c == '\r' || c == '\x85' || c == '\u2028' || c == '\u2029'

/-- A character that may end a word. -/
def isGap (c : Char) : Bool :=
  c == ' ' || c == '\t' || isBreak c

/-- The end of the text or a character that may end a word. -/
def endsWord : Option Char → Bool
  | none => true
  | some c => isGap c

/-- A character that a text may hold. -/
def isAllowed (c : Char) : Bool :=
  let n := c.toNat
  n == 0x09 || n == 0x0A || n == 0x0D || (0x20 ≤ n && n ≤ 0x7E) || n == 0x85 ||
    (0xA0 ≤ n && n ≤ 0xD7FF) || (0xE000 ≤ n && n ≤ 0xFFFD) || 0x10000 ≤ n

/-- The characters of a text that can be had, and why there are no more. -/
structure Supply where
  chars : List Char
  /-- What stops a reader behind the last character, if the text does not end there. -/
  ending : Option Fault

/-- A position in a text. -/
structure Cursor where
  rest : List Char
  index : Nat
  line : Nat
  column : Nat
  /-- What stops a reader behind the last character, if the text does not end there. -/
  ending : Option Fault

namespace Cursor

/-- The start of a text. -/
def start (supply : Supply) : Cursor := ⟨supply.chars, 0, 0, 0, supply.ending⟩

/-- The next character. -/
def peek? (c : Cursor) : Option Char :=
  c.rest.head?

/-- The character after the next one. -/
def second? (c : Cursor) : Option Char :=
  c.rest[1]?

/-- The position behind the next character. -/
def advance (c : Cursor) : Cursor :=
  match c.rest with
  | [] => c
  | ch :: rest =>
    if isBreak ch && !(ch == '\r' && rest.head? == some '\n') then
      { c with rest, index := c.index + 1, line := c.line + 1, column := 0 }
    else if ch == '\uFEFF' then { c with rest, index := c.index + 1 }
    else { c with rest, index := c.index + 1, column := c.column + 1 }

/-- What stops a reader here. -/
def stop? (c : Cursor) : Option Fault :=
  if c.rest.isEmpty then c.ending else none

/-- Why something is wanted that is not there because the characters are used up. -/
def unfinished (c : Cursor) : Except Fault α :=
  .error (c.ending.getD .malformedYaml)

/-- The position behind several characters. -/
def advanceBy : Nat → Cursor → Cursor
  | 0, c => c
  | n + 1, c => advanceBy n c.advance

/-- The characters of a class at the position, and the position behind them. -/
def span (c : Cursor) (p : Char → Bool) : List Char × Cursor :=
  let run := c.rest.takeWhile p
  (run, c.advanceBy run.length)

/-- The position behind the characters of a class. -/
def skip (c : Cursor) (p : Char → Bool) : Cursor :=
  (c.span p).2

/-- The position behind the blanks. -/
def skipSpaces (c : Cursor) : Cursor :=
  c.skip (· == ' ')

/-- The position behind a remark, if one starts here. -/
def skipRemark (c : Cursor) : Cursor :=
  if c.peek? == some '#' then c.skip fun ch => !isBreak ch else c

/-- The line break at the position, as the character it counts as, and the position behind it. -/
def lineBreak? (c : Cursor) : Option (Char × Cursor) :=
  match c.rest with
  | '\r' :: '\n' :: _ => some ('\n', c.advanceBy 2)
  | ch :: _ =>
    if ch == '\u2028' || ch == '\u2029' then some (ch, c.advance)
    else if isBreak ch then some ('\n', c.advance)
    else none
  | [] => none

/-- The mark between documents starts here. -/
def atMark (c : Cursor) (mark : Char) : Bool :=
  c.rest.take 3 == [mark, mark, mark] && endsWord c.rest[3]?

/-- A mark that ends a document or starts one starts here. -/
def atDocumentMark (c : Cursor) : Bool :=
  c.atMark '-' || c.atMark '.'

end Cursor

end DecisionTables.Yaml
