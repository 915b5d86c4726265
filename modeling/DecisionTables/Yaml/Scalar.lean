import DecisionTables.Fault
import DecisionTables.Numeral.Reader
import DecisionTables.Text.Unit
import DecisionTables.Yaml.Cursor

/-!
# The texts of YAML scalars

Plain, quoted and block scalars.  Lines are folded: a single line break counts as
a blank, and of several all but the first are kept.  The readers start behind
the first sign of a scalar and give its text and the position behind it.
-/

namespace DecisionTables.Yaml

/-- The text is not well formed. -/
def malformed : Except Fault α := .error .malformedYaml

/-- A line break followed by further ones, folded. -/
def fold (first : Char) (more : List Char) : List Char :=
  if first != '\n' then first :: more
  else if more.isEmpty then [' ']
  else more

/-- Pieces that were read, the last one first, in one. -/
def joinPieces (pieces : List (List α)) : List α :=
  pieces.reverse.flatten

/-! ## Plain scalars -/

/-- The characters of a plain scalar up to a gap or a sign that ends it. -/
def plainRun (inFlow : Bool) : List Char → List Char
  | [] => []
  | c :: rest =>
    let endsHere :=
      isGap c ||
      (c == ':' &&
        (endsWord rest.head? || (inFlow && rest.head?.any (",[]\x7b\x7d".contains ·)))) ||
      (inFlow && ",?[]\x7b\x7d".contains c)
    if endsHere then [] else c :: plainRun inFlow rest

/-- The further line breaks behind a line break in a plain scalar; a document mark ends it. -/
def plainBreaks : Nat → Cursor → Option (List Char) × Cursor
  | 0, c => (some [], c)
  | fuel + 1, c =>
    let c := c.skipSpaces
    match c.lineBreak? with
    | none => (some [], c)
    | some (br, c) =>
      if c.atDocumentMark then (none, c)
      else
        let (more, c) := plainBreaks fuel c
        (more.map (br :: ·), c)

/-- What separates two runs of a plain scalar. -/
structure PlainGap where
  /-- The folded gap; without it the scalar ends. -/
  text : Option (List Char)
  /-- The gap reached a new line. -/
  newLine : Bool
  behind : Cursor

/-- The gap behind a run of a plain scalar. -/
def plainGap (c : Cursor) : PlainGap :=
  let (blanks, c) := c.span (· == ' ')
  match c.lineBreak? with
  | some (br, c) =>
    if c.atDocumentMark then ⟨none, true, c⟩
    else
      let (more, c) := plainBreaks (c.rest.length + 1) c
      ⟨more.map (fold br), true, c⟩
  | none => ⟨if blanks.isEmpty then none else some blanks, false, c⟩

/-- A plain scalar: its text, the position behind it, and whether it ended on a new line. -/
def plainScalar (inFlow : Bool) (indent : Int) (c : Cursor) : List Char × Cursor × Bool :=
  let (pieces, c, newLine) := go (c.rest.length + 1) c [] [] false
  (joinPieces pieces, c, newLine)
where
  go : Nat → Cursor → List (List Char) → List Char → Bool → List (List Char) × Cursor × Bool
    | 0, c, done, _, newLine => (done, c, newLine)
    | fuel + 1, c, done, gap, newLine =>
      let run := if c.peek? == some '#' then [] else plainRun inFlow c.rest
      if run.isEmpty then (done, c, newLine)
      else
        let next := plainGap (c.advanceBy run.length)
        let done := run :: gap :: done
        match next.text with
        | none => (done, next.behind, next.newLine)
        | some text =>
          if next.behind.peek? == some '#' || (!inFlow && (next.behind.column : Int) < indent) then
            (done, next.behind, next.newLine)
          else go fuel next.behind done text next.newLine

/-! ## Quoted scalars -/

/-- The character behind a backslash that is one letter. -/
def simpleEscape? : Char → Option Char
  | '0' => some '\x00'
  | 'a' => some '\x07'
  | 'b' => some '\x08'
  | 't' => some '\t'
  | '\t' => some '\t'
  | 'n' => some '\n'
  | 'v' => some '\x0b'
  | 'f' => some '\x0c'
  | 'r' => some '\r'
  | 'e' => some '\x1b'
  | ' ' => some ' '
  | '"' => some '"'
  | '\\' => some '\\'
  | '/' => some '/'
  | 'N' => some '\x85'
  | '_' => some '\xa0'
  | 'L' => some '\u2028'
  | 'P' => some '\u2029'
  | _ => none

/-- The number of hexadecimal digits behind an escape letter. -/
def escapeWidth? : Char → Option Nat
  | 'x' => some 2
  | 'u' => some 4
  | 'U' => some 8
  | _ => none

/-- The line breaks behind a line break inside quotes; a document mark is an error. -/
def quotedBreaks : Nat → Cursor → Except Fault (List Char × Cursor)
  | 0, _ => malformed
  | fuel + 1, c =>
    if c.atDocumentMark then malformed
    else
      let c := c.skip fun ch => ch == ' ' || ch == '\t'
      match c.lineBreak? with
      | none => .ok ([], c)
      | some (br, c) => do
        let (more, c) ← quotedBreaks fuel c
        return (br :: more, c)

/-- The gap between words inside quotes, folded if it holds a line break. -/
def quotedGap (c : Cursor) : Except Fault (List Char × Cursor) := do
  let (blanks, c) := c.span fun ch => ch == ' ' || ch == '\t'
  match c.peek?, c.lineBreak? with
  | none, _ => c.unfinished
  | _, some (br, c) =>
    let (more, c) ← quotedBreaks (c.rest.length + 1) c
    return (fold br more, c)
  | _, none => return (blanks, c)

/-- The code unit that a number behind a backslash denotes. -/
def escapedUnit (n : Nat) : Except Fault Nat :=
  if n ≤ 0x10FFFF then .ok n
  else if n ≤ 0x7FFFFFFF then .error .wrongValue
  else .error .tooLarge

/-- The code units that an escape stands for, with the position at its backslash. -/
def escape (c : Cursor) : Except Fault (List Nat × Cursor) := do
  let c := c.advance
  match c.rest with
  | [] => c.unfinished
  | letter :: rest =>
    match simpleEscape? letter, escapeWidth? letter with
    | some plain, _ => return ([plain.toNat], c.advance)
    | none, some width =>
      let digits := rest.take width
      match Text.hexNumber? digits with
      | some n =>
        if digits.length < width then c.unfinished
        else return ([← escapedUnit n], c.advanceBy (width + 1))
      | none => malformed
    | none, none =>
      match c.lineBreak? with
      | some (_, c) =>
        let (breaks, c) ← quotedBreaks (c.rest.length + 1) c
        return (breaks.map Char.toNat, c)
      | none => malformed

/-- The code units up to the closing quote, behind the pieces that were read before, and the
position behind the quote. -/
def quotedScalar (double : Bool) : Nat → List (List Nat) → Cursor → Except Fault (List Nat × Cursor)
  | 0, _, _ => malformed
  | fuel + 1, done, c =>
    match c.rest with
    | [] => c.unfinished
    | ch :: rest => do
      if !double && ch == '\'' && rest.head? == some '\'' then
        quotedScalar double fuel (['\''.toNat] :: done) (c.advanceBy 2)
      else if ch == (if double then '"' else '\'') then return (joinPieces done, c.advance)
      else if double && ch == '\\' then
        let (units, c) ← escape c
        quotedScalar double fuel (units :: done) c
      else if isGap ch then
        let (gap, c) ← quotedGap c
        quotedScalar double fuel (gap.map Char.toNat :: done) c
      else
        let (run, c) := c.span fun ch => !(isGap ch || ch == '\'' || ch == '"' || ch == '\\')
        if run.isEmpty then quotedScalar double fuel ([ch.toNat] :: done) c.advance
        else quotedScalar double fuel (run.map Char.toNat :: done) c

/-! ## Block scalars -/

/-- What becomes of the line breaks at the end of a block scalar. -/
inductive Chomping where
  | strip
  | clip
  | keep
  deriving DecidableEq

/-- The chomping that a sign asks for. -/
def chomping? : Char → Option Chomping
  | '+' => some .keep
  | '-' => some .strip
  | _ => none

/-- The indentation that a digit asks for. -/
def increment? (c : Char) : Option Nat :=
  if Numeral.isDigit c then some (c.toNat - 0x30) else none

/-- The signs behind a bar or arrow: chomping and indentation in either order. -/
def blockSigns (c : Cursor) : Chomping × Option Nat × Cursor :=
  match c.peek?.bind chomping? with
  | some chomping =>
    let c := c.advance
    match c.peek?.bind increment? with
    | some n => (chomping, some n, c.advance)
    | none => (chomping, none, c)
  | none =>
    match c.peek?.bind increment? with
    | some n =>
      let c := c.advance
      match c.peek?.bind chomping? with
      | some chomping => (chomping, some n, c.advance)
      | none => (.clip, some n, c)
    | none => (.clip, none, c)

/-- The breaks before the first line of a block scalar, and the deepest column of a blank line. -/
def leadingBreaks : Nat → Nat → Cursor → List Char × Nat × Cursor
  | 0, deepest, c => ([], deepest, c)
  | fuel + 1, deepest, c =>
    match c.lineBreak? with
    | some (br, c) =>
      let (more, deepest, c) := leadingBreaks fuel deepest c
      (br :: more, deepest, c)
    | none =>
      if c.peek? == some ' ' then
        let c := c.skipSpaces
        leadingBreaks fuel (max deepest c.column) c
      else ([], deepest, c)

/-- The position behind the blanks that belong to the indentation. -/
def skipIndent (indent : Nat) (c : Cursor) : Cursor :=
  let blanks := (c.rest.takeWhile (· == ' ')).length
  c.advanceBy (min blanks (indent - c.column))

/-- The blank lines before a line of a block scalar. -/
def blockBreaks (indent : Nat) : Nat → Cursor → List Char × Cursor
  | 0, c => ([], c)
  | fuel + 1, c =>
    let c := skipIndent indent c
    match c.lineBreak? with
    | some (br, c) =>
      let (more, c) := blockBreaks indent fuel c
      (br :: more, c)
    | none => ([], c)

/-- A line of a block scalar starts here. -/
def atBlockLine (indent : Nat) (c : Cursor) : Bool :=
  c.column == indent && c.peek?.isSome

/-- The lines of a block scalar: their text, the break after the last one if any, the blank lines
behind it, and the position there. -/
def blockLines (folded : Bool) (indent : Nat) :
    Nat → List (List Char) → List Char → Cursor → List Char × List Char × List Char × Cursor
  | 0, done, breaks, c => (joinPieces done, [], breaks, c)
  | fuel + 1, done, breaks, c =>
    let startsBlank := c.peek?.any fun ch => ch == ' ' || ch == '\t'
    let (line, c) := c.span fun ch => !isBreak ch
    let done := line :: breaks :: done
    match c.lineBreak? with
    | none => (joinPieces done, [], [], c)
    | some (br, c) =>
      let (breaks, c) := blockBreaks indent (c.rest.length + 1) c
      if atBlockLine indent c then
        let nextBlank := c.peek?.any fun ch => ch == ' ' || ch == '\t'
        let joint :=
          if folded && br == '\n' && !startsBlank && !nextBlank then
            if breaks.isEmpty then [' '] else []
          else [br]
        blockLines folded indent fuel (joint :: done) breaks c
      else (joinPieces done, [br], breaks, c)

/-- A block scalar, with the position behind its bar or arrow. -/
def blockScalar (folded : Bool) (parentIndent : Int) (c : Cursor) :
    Except Fault (List Char × Cursor) :=
  let (chomping, increment, c) := blockSigns c
  if increment == some 0 || !endsWord c.peek? || c.peek? == some '\t' then malformed
  else
    let c := c.skipSpaces.skipRemark
    if !(c.peek?.all isBreak) then malformed
    else
      let c := (c.lineBreak?.map Prod.snd).getD c
      let least := max (parentIndent + 1) 1 |>.toNat
      let fuel := c.rest.length + 1
      let (indent, breaks, c) :=
        match increment with
        | some n =>
          let indent := least + n - 1
          let (breaks, c) := blockBreaks indent fuel c
          (indent, breaks, c)
        | none =>
          let (breaks, deepest, c) := leadingBreaks fuel 0 c
          (max least deepest, breaks, c)
      let (text, lastBreak, breaks, c) :=
        if atBlockLine indent c then blockLines folded indent fuel [] breaks c
        else ([], [], breaks, c)
      match chomping with
      | .strip => .ok (text, c)
      | .clip => .ok (text ++ lastBreak, c)
      | .keep => .ok (text ++ lastBreak ++ breaks, c)

end DecisionTables.Yaml
