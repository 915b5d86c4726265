import Mathlib
import DecisionTables.Proofs.Rounding
import DecisionTables.Yaml.Writer

/-!
# Lines that are not folded

A text of printable ASCII characters is written on one line, unless that line reaches past the
last column of a line.
-/

namespace DecisionTables.Yaml

/-! ## Printable characters -/

/-- The text holds nothing but printable ASCII characters. -/
def IsPrintable (s : String) : Prop :=
  s.toList.all isPlainAscii = true

theorem ne_of_ascii {c d : Char} (ascii : isPlainAscii c = true) (other : isPlainAscii d = false) :
    c ≠ d := by
  rintro rfl
  rw [ascii] at other
  cases other

theorem hasBlankAtBreak_eq_false {cs : List Char} (breakless : '\n' ∉ cs) :
    hasBlankAtBreak cs = false := by
  fun_induction hasBlankAtBreak cs with
  | case1 a b rest ih =>
      have first : (a == '\n') = false := beq_false_of_ne fun same => breakless (by simp [same])
      have second : (b == '\n') = false := beq_false_of_ne fun same => breakless (by simp [same])
      rw [first, second, ih fun later => breakless (List.mem_cons_of_mem _ later)]
      simp
  | case2 cs _ => rfl

/-- A printable text is written as it is or in single quotes. -/
theorem ofText_printable {s : String} (printable : IsPrintable s) :
    Style.ofText s = if isBare s then .bare else .single := by
  have ascii := List.all_eq_true.mp printable
  have breakless : '\n' ∉ s.toList := fun inside => ne_of_ascii (ascii _ inside) rfl rfl
  have all : s.toList.all (fun c => isPlainAscii c || c == '\n') = true := by
    rw [List.all_eq_true]
    exact fun c inside => by rw [ascii c inside, Bool.true_or]
  rw [Style.ofText, all, hasBlankAtBreak_eq_false breakless]
  rfl

/-! ## Pages -/

namespace Page

/-- The first line of a page. -/
def opening (p : Page) : String :=
  p.above.getLast?.getD p.line

theorem head?_lines (p : Page) : p.lines.head? = some p.opening := by
  rw [lines, List.head?_reverse, List.getLast?_cons, opening]

/-- Characters are written on a page, where some of them may be left out for a new line behind the
last column. -/
inductive Lays (m : Margins) : Page → List Char → Page → Prop where
  | done {p} : Lays m p [] p
  | write {p q cs ds} (rest : Lays m (p.write cs) ds q) : Lays m p (cs ++ ds) q
  | fold {p q cs ds} (past : m.isPast p.column = true) (rest : Lays m (p.newLine m) ds q) :
      Lays m p (cs ++ ds) q

section

variable {m : Margins} {p q r : Page} {cs ds : List Char}

theorem Lays.trans (first : Lays m p cs q) (second : Lays m q ds r) : Lays m p (cs ++ ds) r := by
  induction first with
  | done => exact second
  | write _ ih => exact List.append_assoc .. ▸ .write (ih second)
  | fold past _ ih => exact List.append_assoc .. ▸ .fold past (ih second)

theorem lays_write (m : Margins) (p : Page) (cs : List Char) : Lays m p cs (p.write cs) := by
  simpa using Lays.write (.done (m := m) (p := p.write cs))

/-- A finished first line stays as it is. -/
theorem Lays.opening_eq (lays : Lays m p cs q) (above : p.above ≠ []) : q.opening = p.opening := by
  induction lays with
  | done => rfl
  | @write p q cs ds _ ih =>
      obtain ⟨first, first_eq⟩ := Option.isSome_iff_exists.mp (List.getLast?_isSome.mpr above)
      rw [ih above, opening, opening, first_eq, Page.write, first_eq, Option.getD_some, Option.getD_some]
  | @fold p q cs ds _ _ ih =>
      rw [ih (List.cons_ne_nil _ _), opening, newLine, List.getLast?_cons, Option.getD_some, opening]

/-- Where the first line does not reach past the last column, all characters are on it. -/
theorem Lays.eq_write {column : Nat} (lays : Lays m p cs q) (above : p.above = [])
    (start : p.column = column + p.line.length) (narrow : m.isPast (column + q.opening.length) = false) :
    q = p.write cs := by
  induction lays with
  | done => rw [write_nil]
  | @write p q cs ds _ ih =>
      rw [ih above ?_ narrow, write_write]
      rw [Page.write, String.length_append, String.length_ofList, start, Nat.add_assoc]
  | @fold p q cs ds past rest _ =>
      rw [rest.opening_eq (List.cons_ne_nil _ _), opening, newLine, List.getLast?_cons, Option.getD_some,
        above, List.getLast?_nil, Option.getD_none, ← start, past] at narrow
      cases narrow

end

end Page

open Page (Lays)

theorem lays_bareRuns (m : Margins) (p : Page) (runs : List (List Char)) :
    Lays m p runs.flatten (bareRuns m p runs) := by
  induction runs generalizing p with
  | nil => exact .done
  | cons run rest ih =>
      rw [bareRuns, List.flatten_cons]
      split
      case isTrue folds => exact .fold (Bool.and_eq_true_iff.mp folds).2 (ih _)
      case isFalse => exact .write (ih _)

theorem lays_singleQuotedRuns (m : Margins) (p : Page) (isFirst : Bool) {runs : List (List Char)}
    (breakless : '\n' ∉ runs.flatten) :
    Lays m p (runs.flatten.flatMap singleQuotedChar) (singleQuotedRuns m p isFirst runs) := by
  induction runs generalizing p isFirst with
  | nil => exact .done
  | cons run rest ih =>
      rw [List.flatten_cons, List.mem_append, not_or] at breakless
      have first : (run.head? == some '\n') = false :=
        beq_false_of_ne fun same => breakless.1 (List.mem_of_head? same)
      rw [singleQuotedRuns, List.flatten_cons, List.flatMap_append, first, if_neg Bool.false_ne_true]
      split
      case isTrue folds => exact .fold (Bool.and_eq_true_iff.mp folds).2 (ih _ _ breakless.2)
      case isFalse => exact .write (ih _ _ breakless.2)

/-! ## Texts on one line -/

/-- The characters of a text in single quotes. -/
def quotedLine (s : String) : List Char :=
  '\'' :: s.toList.flatMap singleQuotedChar ++ ['\'']

/-- The characters of a printable text on one line. -/
def lineOf (s : String) : List Char :=
  if isBare s then s.toList else quotedLine s

/-- A printable text is on one line if its first line does not reach past the last column. -/
theorem textLines_eq {m : Margins} {column : Nat} {s : String} (printable : IsPrintable s)
    (narrow : ∀ first ∈ (textLines m column s).head?, m.isPast (column + first.length) = false) :
    textLines m column s = [String.ofList (lineOf s)] := by
  rw [textLines, ofText_printable printable] at narrow ⊢
  rw [lineOf]
  by_cases bare : isBare s = true
  · rw [if_pos bare] at narrow ⊢
    rw [if_pos bare]
    have lays := lays_bareRuns m (.start column) (s.toList.splitBy sameRun)
    dsimp only at narrow ⊢
    rw [Page.head?_lines] at narrow
    rw [lays.eq_write rfl rfl (narrow _ rfl), List.flatten_splitBy]
    simp [Page.start, Page.write, Page.lines]
  · rw [if_neg bare] at narrow ⊢
    rw [if_neg bare]
    have breakless : '\n' ∉ (s.toList.splitBy sameRun).flatten := by
      rw [List.flatten_splitBy]
      exact fun inside => ne_of_ascii (List.all_eq_true.mp printable _ inside) rfl rfl
    have lays := lays_singleQuotedRuns m ((Page.start column).write ['\'']) true breakless
    have closed : Lays m (.start column)
        (['\''] ++ ((s.toList.splitBy sameRun).flatten.flatMap singleQuotedChar ++ ['\'']))
        ((singleQuotedRuns m ((Page.start column).write ['\'']) true (s.toList.splitBy sameRun)).write ['\'']) := by
      exact (Page.lays_write ..).trans (lays.trans (Page.lays_write ..))
    dsimp only at narrow ⊢
    rw [Page.head?_lines] at narrow
    rw [closed.eq_write rfl rfl (narrow _ rfl), List.flatten_splitBy, quotedLine]
    simp [Page.start, Page.write, Page.lines]

end DecisionTables.Yaml

namespace DecisionTables

/-- A scalar that a line of printable ASCII characters can carry. -/
def Scalar.Printable : Scalar → Prop
  | .float x => x.Proper
  | .text s => Yaml.IsPrintable s
  | .units _ => False
  | _ => True

namespace Yaml

theorem writeScalar_text {s : String} (printable : IsPrintable s) :
    writeScalar (.text s) = String.ofList (lineOf s) := by
  have one : textLines ⟨none, 0⟩ 0 s = [String.ofList (lineOf s)] :=
    textLines_eq printable fun _ _ => Margins.isPast_of_width_eq_none rfl _
  rw [writeScalar, scalarLines, one]
  exact String.empty_append

/-- A scalar is on one line if its first line does not reach past the last column. -/
theorem scalarLines_eq {m : Margins} {column : Nat} {s : Scalar} (printable : s.Printable)
    (narrow : ∀ first ∈ (scalarLines m column s).head?, m.isPast (column + first.length) = false) :
    scalarLines m column s = [writeScalar s] := by
  cases s with
  | text s =>
      rw [scalarLines] at narrow ⊢
      rw [textLines_eq printable narrow, writeScalar_text printable]
  | units us => exact printable.elim
  | bool b => cases b <;> rfl
  | null => rfl
  | int i => exact congrArg (fun line => [line]) String.empty_append.symm
  | float x => exact congrArg (fun line => [line]) String.empty_append.symm

end Yaml

end DecisionTables
