import DecisionTables.Yaml.Quoting

/-!
# Folding YAML texts

A text is laid out from some column on.  Behind a word that reaches past the last
column of a line, the rest goes on at the indentation of the next line: in place
of a single blank, or in double quotes behind a backslash.
-/

namespace DecisionTables.Yaml

/-- Where lines end and where the next ones start. -/
structure Margins where
  /-- The last column of a line; without one a text stays on its line. -/
  width : Option Nat
  /-- The indentation of every line but the first. -/
  indent : Nat

namespace Margins

/-- The column lies behind the end of the line. -/
def isPast (m : Margins) (column : Nat) : Bool :=
  m.width.any (· < column)

/-- Without a last column no line is full. -/
theorem isPast_of_width_eq_none {m : Margins} (h : m.width = none) (column : Nat) :
    m.isPast column = false := by
  simp [isPast, h]

end Margins

/-- Lines that are being written, without their indentation. -/
structure Page where
  /-- The finished lines, the last one first. -/
  above : List String
  /-- The line that is written on. -/
  line : String
  /-- The column behind that line. -/
  column : Nat

namespace Page

/-- A page that starts at a column. -/
def start (column : Nat) : Page := ⟨[], "", column⟩

/-- Write on the current line. -/
def write (p : Page) (cs : List Char) : Page :=
  { p with line := p.line ++ String.ofList cs, column := p.column + cs.length }

/-- Go on with the next line. -/
def newLine (p : Page) (m : Margins) : Page :=
  ⟨p.line :: p.above, "", m.indent⟩

/-- Go on several lines below. -/
def newLines (p : Page) (m : Margins) : Nat → Page
  | 0 => p
  | n + 1 => (p.newLine m).newLines m n

/-- All lines. -/
def lines (p : Page) : List String :=
  (p.line :: p.above).reverse

/-- Nothing written leaves a page as it is. -/
@[simp] theorem write_nil (p : Page) : p.write [] = p := by
  simp [write]

/-- Writing one piece behind another is writing both at once. -/
@[simp] theorem write_write (p : Page) (cs ds : List Char) :
    (p.write cs).write ds = p.write (cs ++ ds) := by
  simp [write, String.ofList_append, String.append_assoc, Nat.add_assoc]

end Page

/-- Neighbours that belong to one run: blanks, line breaks or a word. -/
def sameRun (a b : Char) : Bool :=
  (a == ' ') == (b == ' ') && (a == '\n') == (b == '\n')

/-- The runs of a text without quotes. -/
def bareRuns (m : Margins) (p : Page) : List (List Char) → Page
  | [] => p
  | run :: rest =>
    bareRuns m (if run == [' '] && m.isPast p.column then p.newLine m else p.write run) rest

/-- Without a last column a text without quotes stays on its line. -/
theorem bareRuns_of_width_eq_none {m : Margins} (h : m.width = none) (p : Page)
    (runs : List (List Char)) : bareRuns m p runs = p.write runs.flatten := by
  induction runs generalizing p with
  | nil => simp [bareRuns]
  | cons run rest ih => simp [bareRuns, Margins.isPast_of_width_eq_none h, ih]

/-- The runs of a text in single quotes.  Line breaks are written with one more, and a blank at the
start or the end of the text stays where it is. -/
def singleQuotedRuns (m : Margins) (p : Page) (isFirst : Bool) : List (List Char) → Page
  | [] => p
  | run :: rest =>
    let p :=
      if run.head? == some '\n' then p.newLines m (run.length + 1)
      else if run == [' '] && !isFirst && !rest.isEmpty && m.isPast p.column then p.newLine m
      else p.write (run.flatMap singleQuotedChar)
    singleQuotedRuns m p false rest

/-- Fold a text in double quotes in front of some characters; a backslash keeps a blank there. -/
def foldQuoted (m : Margins) (p : Page) (rest : List Char) : Page :=
  let p := (p.write ['\\']).newLine m
  if rest.head? == some ' ' then p.write ['\\'] else p

/-- The characters of a text in double quotes.  It is folded in front of a blank or behind an
escape, but neither at its first character nor at its last one. -/
def doubleQuotedChars (m : Margins) (p : Page) (isFirst afterEscape : Bool) : List Char → Page
  | [] => p
  | c :: rest =>
    let inside := !isFirst && !rest.isEmpty
    if standsForItself c then
      let folds := inside && (c == ' ' || afterEscape) && m.isPast p.column
      let p := if folds then foldQuoted m p (c :: rest) else p
      doubleQuotedChars m (p.write [c]) false false rest
    else
      let p := p.write (doubleQuotedChar c)
      let p := if inside && m.isPast (p.column - 1) then foldQuoted m p rest else p
      doubleQuotedChars m p false true rest

/-- The lines of a text that starts at a column. -/
def textLines (m : Margins) (column : Nat) (s : String) : List String :=
  let p := Page.start column
  let runs := s.toList.splitBy sameRun
  match Style.ofText s with
  | .bare => (bareRuns m p runs).lines
  | .single => ((singleQuotedRuns m (p.write ['\'']) true runs).write ['\'']).lines
  | .double => ((doubleQuotedChars m (p.write ['"']) true false s.toList).write ['"']).lines

end DecisionTables.Yaml
