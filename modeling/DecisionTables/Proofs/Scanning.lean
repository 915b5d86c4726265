import Mathlib
import DecisionTables.Proofs.Indenting
import DecisionTables.Yaml.Token

/-!
# Scanning scalars

The characters of a scalar are read as one token, whether a colon follows, as behind a key, or the
end of a line.
-/

namespace DecisionTables.Yaml

/-! ## Positions -/

section

variable {ch : Char}

theorem isBreak_ascii (ascii : isPlainAscii ch = true) : isBreak ch = false := by
  have other (d : Char) (none : isPlainAscii d = false) : (ch == d) = false :=
    beq_false_of_ne (ne_of_ascii ascii none)
  rw [isBreak, other '\n' rfl, other '\r' rfl, other '\x85' (by decide), other '\u2028' (by decide),
    other '\u2029' (by decide)]
  rfl

theorem isGap_ascii (ascii : isPlainAscii ch = true) : isGap ch = (ch == ' ') := by
  rw [isGap, isBreak_ascii ascii, beq_false_of_ne (ne_of_ascii ascii (d := '\t') rfl), Bool.or_false,
    Bool.or_false]

end

namespace Cursor

/-- The position so many columns further, where certain characters are to come. -/
def onward (c : Cursor) (n : Nat) (rest : List Char) : Cursor :=
  { c with rest, index := c.index + n, column := c.column + n }

/-- The start of the next line, where certain characters are to come. -/
def below (c : Cursor) (rest : List Char) : Cursor :=
  { c with rest, index := c.index + 1, line := c.line + 1, column := 0 }

section

variable {c : Cursor} {ch : Char} {cs rest : List Char} {n k : Nat}

@[simp] theorem onward_rest : (c.onward n rest).rest = rest := rfl

@[simp] theorem onward_index : (c.onward n rest).index = c.index + n := rfl

@[simp] theorem onward_line : (c.onward n rest).line = c.line := rfl

@[simp] theorem onward_column : (c.onward n rest).column = c.column + n := rfl

@[simp] theorem onward_ending : (c.onward n rest).ending = c.ending := rfl

@[simp] theorem below_rest : (c.below rest).rest = rest := rfl

@[simp] theorem below_line : (c.below rest).line = c.line + 1 := rfl

@[simp] theorem below_column : (c.below rest).column = 0 := rfl

@[simp] theorem below_ending : (c.below rest).ending = c.ending := rfl

@[simp] theorem onward_onward : (c.onward n cs).onward k rest = c.onward (n + k) rest := by
  simp only [onward, Nat.add_assoc]

theorem onward_zero (rest_eq : c.rest = rest) : c.onward 0 rest = c := by
  rw [← rest_eq]
  rfl

theorem advance_ascii (rest_eq : c.rest = ch :: cs) (ascii : isPlainAscii ch = true) :
    c.advance = c.onward 1 cs := by
  have mark : (ch == '\uFEFF') = false := beq_false_of_ne (ne_of_ascii ascii (by decide))
  unfold advance
  rw [rest_eq]
  simp only [isBreak_ascii ascii, mark, Bool.false_and, Bool.false_eq_true, if_false]
  rfl

theorem advance_newline (rest_eq : c.rest = '\n' :: cs) : c.advance = c.below cs := by
  unfold advance
  rw [rest_eq]
  rfl

theorem advanceBy_ascii (rest_eq : c.rest = cs ++ rest) (ascii : cs.all isPlainAscii = true) :
    c.advanceBy cs.length = c.onward cs.length rest := by
  induction cs generalizing c with
  | nil => exact (onward_zero rest_eq).symm
  | cons ch cs ih =>
      rw [List.all_cons, Bool.and_eq_true] at ascii
      have first : c.advance = c.onward 1 (cs ++ rest) := advance_ascii rest_eq ascii.1
      rw [List.length_cons, advanceBy, first,
        ih onward_rest ascii.2, onward_onward, Nat.add_comm]

/-- The characters of a class. -/
theorem span_ascii {p : Char → Bool} (rest_eq : c.rest = cs ++ rest) (ascii : cs.all isPlainAscii = true)
    (all : ∀ ch ∈ cs, p ch = true) (stop : ∀ ch ∈ rest.head?, p ch = false) :
    c.span p = (cs, c.onward cs.length rest) := by
  have run : (cs ++ rest).takeWhile p = cs := by
    rw [List.takeWhile_append_of_pos all]
    cases rest with
    | nil => simp
    | cons ch rest =>
        have other : p ch = false := stop ch rfl
        rw [List.takeWhile_cons_of_neg (by simp [other]), List.append_nil]
  rw [span, rest_eq, run]
  exact congrArg (cs, ·) (advanceBy_ascii rest_eq ascii)

theorem all_blanks (n : Nat) : (blanks n).all isPlainAscii = true :=
  List.all_eq_true.mpr fun ch inside => by rw [List.eq_of_mem_replicate inside]; rfl

@[simp] theorem length_blanks (n : Nat) : (blanks n).length = n :=
  List.length_replicate

theorem span_blanks (rest_eq : c.rest = blanks n ++ rest) (stop : rest.head? ≠ some ' ') :
    c.span (· == ' ') = (blanks n, c.onward n rest) := by
  have spanned := span_ascii (p := (· == ' ')) rest_eq (all_blanks n)
    (fun ch inside => beq_iff_eq.mpr (List.eq_of_mem_replicate inside))
    fun ch first => beq_false_of_ne fun same => stop (same ▸ first)
  rwa [length_blanks] at spanned

theorem skipSpaces_blanks (rest_eq : c.rest = blanks n ++ rest) (stop : rest.head? ≠ some ' ') :
    c.skipSpaces = c.onward n rest := by
  rw [skipSpaces, skip, span_blanks rest_eq stop]

theorem lineBreak?_newline (rest_eq : c.rest = '\n' :: cs) : c.lineBreak? = some ('\n', c.below cs) := by
  rw [lineBreak?, rest_eq]
  simp [isBreak, advance_newline rest_eq]

theorem lineBreak?_ascii (rest_eq : c.rest = ch :: cs) (ascii : isPlainAscii ch = true) :
    c.lineBreak? = none := by
  have other (d : Char) (none : isPlainAscii d = false) : (ch == d) = false :=
    beq_false_of_ne (ne_of_ascii ascii none)
  have carriage : ch ≠ '\r' := ne_of_ascii ascii rfl
  rw [lineBreak?, rest_eq]
  simp [other '\u2028' (by decide), other '\u2029' (by decide), isBreak_ascii ascii, carriage]

theorem lineBreak?_nil (rest_eq : c.rest = []) : c.lineBreak? = none := by
  rw [lineBreak?, rest_eq]

theorem atDocumentMark_eq_false (mark : startsLikeMark c.rest = false) : c.atDocumentMark = false := by
  rw [startsLikeMark, Bool.or_eq_false_iff] at mark
  have dashes : "---".toList = ['-', '-', '-'] := rfl
  have points : "...".toList = ['.', '.', '.'] := rfl
  rw [dashes, points] at mark
  rw [atDocumentMark, atMark, atMark, mark.1, mark.2]
  rfl

end

end Cursor

/-! ## Lines to come -/

/-- The lines to come start at a column, neither with a remark nor with a mark between documents. -/
inductive Stands : Nat → List Char → Prop where
  | finish : Stands 0 []
  | line {column : Nat} {ch : Char} {cs : List Char} (ascii : isPlainAscii ch = true) (blank : ch ≠ ' ')
      (remark : ch ≠ '#') (mark : startsLikeMark (blanks column ++ ch :: cs) = false) :
      Stands column (blanks column ++ ch :: cs)

section

variable {c : Cursor} {column : Nat} {cs : List Char}

theorem Stands.skipSpaces_eq (stands : Stands column c.rest) :
    c.skipSpaces = c.onward column (c.rest.drop column) := by
  generalize rest_eq : c.rest = rest at stands ⊢
  cases stands with
  | finish => exact Cursor.skipSpaces_blanks rest_eq (by simp)
  | line _ blank _ _ =>
      rw [drop_blanks]
      exact Cursor.skipSpaces_blanks rest_eq (by simpa using blank)

theorem Stands.lineBreak?_eq (stands : Stands column cs) (rest_eq : c.rest = cs.drop column) :
    c.lineBreak? = none := by
  cases stands with
  | finish => exact Cursor.lineBreak?_nil rest_eq
  | line ascii _ _ _ =>
      rw [drop_blanks] at rest_eq
      exact Cursor.lineBreak?_ascii rest_eq ascii

theorem Stands.atDocumentMark_eq (stands : Stands column c.rest) : c.atDocumentMark = false := by
  generalize rest_eq : c.rest = rest at stands
  cases stands with
  | finish => exact Cursor.atDocumentMark_eq_false (rest_eq ▸ rfl)
  | line _ _ _ mark => exact Cursor.atDocumentMark_eq_false (rest_eq ▸ mark)

end

/-! ## Plain scalars -/

/-- What comes behind a key or at the end of a line. -/
inductive Follows : List Char → Prop where
  | colon {cs : List Char} (gap : endsWord cs.head? = true) : Follows (':' :: cs)
  | line (cs : List Char) : Follows ('\n' :: cs)

section

variable {cs run more tail : List Char} {before : Char}

theorem Follows.plainRun_eq (follows : Follows tail) : plainRun false tail = [] := by
  cases follows with
  | colon gap => simp [plainRun, gap]
  | line cs => simp [plainRun, isGap, isBreak]

/-- A run of characters up to a blank or up to what follows the scalar. -/
theorem plainRun_eq (ascii : run.all isPlainAscii = true) (blankless : ' ' ∉ run)
    (inner : hasInnerSign before (run ++ more) = false) (stop : plainRun false (more ++ tail) = []) :
    plainRun false (run ++ (more ++ tail)) = run := by
  induction run generalizing before with
  | nil => exact stop
  | cons ch run ih =>
      rw [List.all_cons, Bool.and_eq_true] at ascii
      rw [List.mem_cons, not_or] at blankless
      rw [List.cons_append, hasInnerSign, Bool.or_eq_false_iff, Bool.or_eq_false_iff] at inner
      have gap : isGap ch = false := by
        rw [isGap_ascii ascii.1]
        exact beq_false_of_ne (Ne.symm blankless.1)
      have sign : (ch == ':' && endsWord (run ++ (more ++ tail)).head?) = false := by
        by_cases last : run ++ more = []
        · have colon := inner.1.1
          rw [last, List.head?_nil, endsWord, Bool.and_true] at colon
          rw [colon, Bool.false_and]
        · rw [← List.append_assoc, List.head?_append_of_ne_nil _ last]
          exact inner.1.1
      rw [List.cons_append, plainRun]
      simp only [gap, sign, Bool.false_and, Bool.or_false, Bool.false_eq_true, if_false,
        ih ascii.2 blankless.2 inner.2]

/-- No sign behind a part of the characters. -/
theorem hasInnerSign_right {last : Char} (inner : hasInnerSign before (run ++ more) = false)
    (behind : run.getLast? = some last) : hasInnerSign last more = false := by
  induction run generalizing before with
  | nil => cases behind
  | cons ch run ih =>
      rw [List.cons_append, hasInnerSign, Bool.or_eq_false_iff] at inner
      cases run with
      | nil =>
          cases behind
          exact inner.2
      | cons d run => exact ih inner.2 (by rwa [List.getLast?_cons_cons] at behind)

/-- Words with blanks between them and no sign that ends a plain scalar. -/
structure Words (before : Char) (cs : List Char) : Prop where
  ascii : cs.all isPlainAscii = true
  first : ∃ ch more, cs = ch :: more ∧ ch ≠ ' ' ∧ ch ≠ '#'
  inner : hasInnerSign before cs = false
  last : cs.getLast? ≠ some ' '

theorem Unquoted.words (unquoted : Unquoted cs) : Words 'a' cs := by
  obtain ⟨ascii, ⟨ch, more, rfl, blank, opening, inner⟩, last, _⟩ := unquoted
  obtain ⟨sign, gaps⟩ := isOpeningSign_eq_false.mp opening
  refine ⟨ascii, ⟨ch, more, rfl, blank, ?_⟩, ?_, last⟩
  · rintro rfl
    exact sign List.mem_cons_self
  · rw [hasInnerSign, inner]
    by_cases gap : endsWord more.head? = true
    · rw [beq_false_of_ne (gaps gap).2.1]
      simp [isGap, isBreak]
    · rw [Bool.eq_false_iff.mpr gap]
      simp [isGap, isBreak]

theorem exists_blanks (cs : List Char) : ∃ k rest, cs = blanks k ++ rest ∧ rest.head? ≠ some ' ' := by
  refine ⟨(cs.takeWhile (· == ' ')).length, cs.dropWhile (· == ' '), ?_, ?_⟩
  · have run : cs.takeWhile (· == ' ') = blanks (cs.takeWhile (· == ' ')).length :=
      List.eq_replicate_iff.mpr ⟨rfl, fun ch inside => beq_iff_eq.mp (List.mem_takeWhile_imp (p := (· == ' ')) inside)⟩
    rw [← run, List.takeWhile_append_dropWhile]
  · intro blank
    have other := List.head?_dropWhile_not (· == ' ') cs
    rw [blank] at other
    cases other

theorem exists_word (cs : List Char) : ∃ run more, cs = run ++ more ∧ ' ' ∉ run ∧
    (more = [] ∨ more.head? = some ' ') := by
  refine ⟨cs.takeWhile (· != ' '), cs.dropWhile (· != ' '), List.takeWhile_append_dropWhile.symm, ?_, ?_⟩
  · exact fun inside => absurd (List.mem_takeWhile_imp inside) (by decide)
  · have blank := List.head?_dropWhile_not (· != ' ') cs
    cases rest : cs.dropWhile (· != ' ') with
    | nil => exact .inl rfl
    | cons ch more =>
        rw [rest, List.head?_cons] at blank
        exact .inr (congrArg some (by simpa using blank))

/-- A single word, or the first word, blanks and the words behind them. -/
theorem Words.split (words : Words before cs) : ' ' ∉ cs ∨ ∃ run k rest, cs = run ++ (blanks k ++ rest) ∧
    0 < k ∧ run ≠ [] ∧ ' ' ∉ run ∧ Words ' ' rest := by
  obtain ⟨ascii, ⟨ch, others, same, blank, _⟩, inner, last⟩ := words
  obtain ⟨run, more, rfl, blankless, empty | head⟩ := exists_word cs
  · rw [empty, List.append_nil]
    exact .inl blankless
  · obtain ⟨k, rest, rfl, stop⟩ := exists_blanks more
    have positive : 0 < k := by
      rcases Nat.eq_zero_or_pos k with rfl | positive
      · exact absurd head stop
      · exact positive
    have nonempty : run ≠ [] := by
      rintro rfl
      rw [List.nil_append] at same
      rw [same] at head
      exact blank (Option.some.inj head)
    have ending : (run ++ blanks k).getLast? = some ' ' := by
      rw [List.getLast?_append_of_ne_nil _ (by rw [← List.length_pos_iff, Cursor.length_blanks]; exact positive)]
      rw [blanks, List.getLast?_replicate, if_neg positive.ne']
    rw [← List.append_assoc] at ascii inner last
    rw [List.all_append, Bool.and_eq_true] at ascii
    have inner := hasInnerSign_right inner ending
    refine .inr ⟨run, k, rest, rfl, positive, nonempty, blankless, ascii.2, ?_, inner, ?_⟩
    · cases rest with
      | nil => exact absurd (List.append_nil _ ▸ ending) last
      | cons d rest =>
          refine ⟨d, rest, rfl, fun same => stop (same ▸ rfl), ?_⟩
          rintro rfl
          simp [hasInnerSign, isGap] at inner
    · cases rest with
      | nil => simp
      | cons d rest => rwa [List.getLast?_append_of_ne_nil _ (List.cons_ne_nil _ _)] at last

end

namespace Cursor

variable {c : Cursor} {ch : Char} {cs : List Char} {k column : Nat}

theorem plainGap_blanks (rest_eq : c.rest = blanks k ++ ch :: cs) (positive : 0 < k)
    (ascii : isPlainAscii ch = true) (blank : ch ≠ ' ') :
    plainGap c = ⟨some (blanks k), false, c.onward k (ch :: cs)⟩ := by
  have nonempty : (blanks k).isEmpty = false := by
    rw [List.isEmpty_eq_false_iff, ← List.length_pos_iff, length_blanks]
    exact positive
  rw [plainGap, span_blanks rest_eq (by simpa using blank)]
  dsimp only
  rw [lineBreak?_ascii (onward_rest) ascii]
  simp [nonempty]

theorem plainGap_colon (rest_eq : c.rest = ':' :: cs) : plainGap c = ⟨none, false, c⟩ := by
  rw [plainGap, span_blanks (n := 0) rest_eq (by simp), onward_zero rest_eq]
  dsimp only
  rw [lineBreak?_ascii rest_eq rfl]
  rfl

theorem plainGap_line (rest_eq : c.rest = '\n' :: cs) (stands : Stands column cs) :
    plainGap c = ⟨some [' '], true, (c.below cs).onward column (cs.drop column)⟩ := by
  have stands : Stands column (c.below cs).rest := stands
  rw [plainGap, span_blanks (n := 0) rest_eq (by simp), onward_zero rest_eq]
  dsimp only
  rw [lineBreak?_newline rest_eq]
  dsimp only
  rw [stands.atDocumentMark_eq, if_neg Bool.false_ne_true, plainBreaks, stands.skipSpaces_eq]
  dsimp only
  rw [stands.lineBreak?_eq onward_rest]
  rfl

end Cursor

section

variable {c : Cursor} {cs tail gap : List Char} {before : Char} {indent : Int}
  {done : List (List Char)} {fuel : Nat} {newLine : Bool}

theorem joinPieces_cons (piece : List α) (pieces : List (List α)) :
    joinPieces (piece :: pieces) = joinPieces pieces ++ piece := by
  simp [joinPieces]

/-- The last piece is read where what follows it is no gap or leads out of the block. -/
theorem plainScalar_go_last (run_eq : plainRun false c.rest = cs) (words : Words before cs)
    (rest_eq : c.rest = cs ++ tail)
    (ends : (plainGap (c.onward cs.length tail)).text ≠ none →
      ((plainGap (c.onward cs.length tail)).behind.column : Int) < indent) :
    plainScalar.go false indent (fuel + 1) c done gap newLine =
      (cs :: gap :: done, (plainGap (c.onward cs.length tail)).behind,
        (plainGap (c.onward cs.length tail)).newLine) := by
  obtain ⟨ch, others, same, _, remark⟩ := words.first
  have peek : c.peek? = some ch := by rw [Cursor.peek?, rest_eq, same]; rfl
  have remark : (some ch == some '#') = false :=
    beq_false_of_ne fun equal => remark (Option.some.inj equal)
  have filled : cs.isEmpty = false := by rw [same]; rfl
  rw [plainScalar.go, peek, remark, if_neg Bool.false_ne_true, run_eq, filled,
    Cursor.advanceBy_ascii rest_eq words.ascii]
  cases text : (plainGap (c.onward cs.length tail)).text with
  | none => simp [text]
  | some text' => simp [text, ends (by rw [text]; exact Option.some_ne_none _)]

/-- A piece is read with the gap behind it where more of the scalar follows. -/
theorem plainScalar_go_on {run text : List Char} {line : Bool} {c' : Cursor} {ch d : Char}
    (peek : c.peek? = some ch) (remark : ch ≠ '#') (run_eq : plainRun false c.rest = run)
    (nonempty : run ≠ []) (gap_eq : plainGap (c.advanceBy run.length) = ⟨some text, line, c'⟩)
    (peek' : c'.peek? = some d) (remark' : d ≠ '#') (inside : indent ≤ c'.column) :
    plainScalar.go false indent (fuel + 1) c done gap newLine =
      plainScalar.go false indent fuel c' (run :: gap :: done) text line := by
  have remark : (some ch == some '#') = false :=
    beq_false_of_ne fun equal => remark (Option.some.inj equal)
  have remark' : (some d == some '#') = false :=
    beq_false_of_ne fun equal => remark' (Option.some.inj equal)
  have filled : run.isEmpty = false := List.isEmpty_eq_false_iff.mpr nonempty
  rw [plainScalar.go, peek, remark, if_neg Bool.false_ne_true, run_eq, filled, gap_eq]
  simp only [Bool.false_eq_true, if_false, peek', remark', not_lt.mpr inside, decide_false,
    Bool.and_false, Bool.or_false]

variable (gap done fuel newLine) in
/-- Words are read up to what follows them, if that ends the scalar. -/
theorem plainScalar_go (words : Words before cs) (follows : Follows tail) (enough : cs.length < fuel)
    (rest_eq : c.rest = cs ++ tail) (inside : indent ≤ c.column + 1)
    (ends : (plainGap (c.onward cs.length tail)).text ≠ none →
      ((plainGap (c.onward cs.length tail)).behind.column : Int) < indent) :
    ∃ pieces, plainScalar.go false indent fuel c done gap newLine =
        (pieces, (plainGap (c.onward cs.length tail)).behind, (plainGap (c.onward cs.length tail)).newLine) ∧
      joinPieces pieces = joinPieces done ++ gap ++ cs := by
  induction fuel generalizing c cs before done gap newLine with
  | zero => exact absurd enough (Nat.not_lt_zero _)
  | succ fuel ih =>
      rcases words.split with blankless | ⟨run, k, rest, rfl, positive, nonempty, blankless, words'⟩
      · have inner : hasInnerSign before (cs ++ []) = false := by rw [List.append_nil]; exact words.inner
        have run_eq := plainRun_eq words.ascii blankless inner follows.plainRun_eq
        rw [List.nil_append, ← rest_eq] at run_eq
        exact ⟨cs :: gap :: done, plainScalar_go_last run_eq words rest_eq ends,
          by rw [joinPieces_cons, joinPieces_cons]⟩
      · obtain ⟨ch, others, same, _, remark⟩ := words.first
        obtain ⟨d, others', rfl, blank', remark'⟩ := words'.first
        have peek : c.peek? = some ch := by rw [Cursor.peek?, rest_eq, same]; rfl
        obtain ⟨run_ascii, _⟩ := Bool.and_eq_true_iff.mp (List.all_append ▸ words.ascii)
        obtain ⟨d_ascii, _⟩ := Bool.and_eq_true_iff.mp (List.all_cons ▸ words'.ascii)
        have stop : plainRun false (blanks k ++ d :: others' ++ tail) = [] := by
          obtain ⟨n, rfl⟩ := Nat.exists_eq_succ_of_ne_zero positive.ne'
          rfl
        have run_eq := plainRun_eq run_ascii blankless words.inner stop
        rw [← List.append_assoc, ← rest_eq] at run_eq
        rw [List.append_assoc] at rest_eq
        have gap_eq : plainGap (c.advanceBy run.length) =
            ⟨some (blanks k), false, c.onward (run.length + k) (d :: (others' ++ tail))⟩ := by
          rw [Cursor.advanceBy_ascii rest_eq run_ascii, Cursor.plainGap_blanks
            (by rw [Cursor.onward_rest, List.append_assoc, List.cons_append]) positive d_ascii blank',
            Cursor.onward_onward]
        have length : run.length + k + (d :: others').length = (run ++ (blanks k ++ d :: others')).length := by
          simp only [List.length_append, Cursor.length_blanks, Nat.add_assoc]
        have some := List.length_pos_iff.mpr nonempty
        have inside' : indent ≤ (c.onward (run.length + k) (d :: (others' ++ tail))).column := by
          rw [Cursor.onward_column]
          push_cast
          omega
        obtain ⟨pieces, read, joined⟩ := ih (c := c.onward (run.length + k) (d :: (others' ++ tail)))
          (blanks k) (run :: gap :: done) false words' (by simp only [List.length_append] at enough; omega) rfl
          (Int.le_add_one inside') (by rw [Cursor.onward_onward, length]; exact ends)
        rw [Cursor.onward_onward, length] at read
        refine ⟨pieces, (plainScalar_go_on peek remark run_eq nonempty gap_eq rfl remark' inside').trans read, ?_⟩
        rw [joined, joinPieces_cons, joinPieces_cons]
        simp only [List.append_assoc]

end

section

variable {c : Cursor} {cs rest : List Char} {indent : Int} {column : Nat}

/-- A plain key. -/
theorem plainScalar_key (unquoted : Unquoted cs) (rest_eq : c.rest = cs ++ ':' :: rest)
    (gap : endsWord rest.head? = true) (inside : indent ≤ c.column + 1) :
    plainScalar false indent c = (cs, c.onward cs.length (':' :: rest), false) := by
  have ending := Cursor.plainGap_colon (c := c.onward cs.length (':' :: rest)) Cursor.onward_rest
  obtain ⟨pieces, read, joined⟩ := plainScalar_go [] [] (c.rest.length + 1) false unquoted.words (.colon gap)
    (by rw [rest_eq, List.length_append]; omega) rest_eq inside (by rw [ending]; simp)
  rw [plainScalar, read]
  dsimp only
  rw [joined, ending]
  rfl

/-- A plain scalar at the end of a line, where the next line does not belong to it. -/
theorem plainScalar_line (unquoted : Unquoted cs) (rest_eq : c.rest = cs ++ '\n' :: rest)
    (stands : Stands column rest) (inside : indent ≤ c.column + 1) (outside : (column : Int) < indent) :
    plainScalar false indent c =
      (cs, ((c.onward cs.length ('\n' :: rest)).below rest).onward column (rest.drop column), true) := by
  have ending := Cursor.plainGap_line (c := c.onward cs.length ('\n' :: rest)) Cursor.onward_rest stands
  obtain ⟨pieces, read, joined⟩ := plainScalar_go [] [] (c.rest.length + 1) false unquoted.words (.line rest)
    (by rw [rest_eq, List.length_append]; omega) rest_eq inside
    (by rw [ending, Cursor.onward_column, Cursor.below_column, Nat.zero_add]; exact fun _ => outside)
  rw [plainScalar, read]
  dsimp only
  rw [joined, ending]
  rfl

end

/-! ## Scalars in single quotes -/

section

variable {cs tail : List Char} {p : Char → Bool}

/-- Inside quotes, a run ends where it ends in the text. -/
theorem takeWhile_quoted (stop : p '\'' = false) (cs tail : List Char) :
    (cs.flatMap singleQuotedChar ++ '\'' :: tail).takeWhile p = cs.takeWhile p := by
  induction cs with
  | nil => simp [stop]
  | cons ch cs ih =>
      by_cases quote : ch = '\''
      · subst quote
        simp [singleQuotedChar, stop]
      · have single : singleQuotedChar ch = [ch] := if_neg (by simpa using quote)
        rw [List.flatMap_cons, single, List.append_assoc, List.singleton_append, List.takeWhile_cons,
          List.takeWhile_cons, ih]

theorem flatMap_run (stop : p '\'' = false) (cs : List Char) :
    (cs.takeWhile p).flatMap singleQuotedChar = cs.takeWhile p := by
  have each : ∀ ch ∈ cs.takeWhile p, singleQuotedChar ch = [ch] := by
    intro ch inside
    refine if_neg fun quote => ?_
    have fits := List.mem_takeWhile_imp inside
    rw [beq_iff_eq.mp quote, stop] at fits
    cases fits
  rw [List.flatMap_congr each]
  exact List.flatMap_singleton' _

theorem flatMap_split (stop : p '\'' = false) (cs : List Char) : cs.flatMap singleQuotedChar =
    cs.takeWhile p ++ (cs.dropWhile p).flatMap singleQuotedChar := by
  conv_lhs => rw [← List.takeWhile_append_dropWhile (p := p) (l := cs)]
  rw [List.flatMap_append, flatMap_run stop]

/-- The characters of a class inside quotes, and the position behind them. -/
theorem Cursor.span_quoted {c : Cursor} (stop : p '\'' = false) (ascii : cs.all isPlainAscii = true)
    (rest_eq : c.rest = cs.flatMap singleQuotedChar ++ '\'' :: tail) :
    c.span p = (cs.takeWhile p, c.onward (cs.takeWhile p).length
      ((cs.dropWhile p).flatMap singleQuotedChar ++ '\'' :: tail)) := by
  have run := takeWhile_quoted stop cs tail
  have rest_eq' : c.rest = cs.takeWhile p ++ ((cs.dropWhile p).flatMap singleQuotedChar ++ '\'' :: tail) := by
    rw [rest_eq, flatMap_split stop, List.append_assoc]
  have ascii' : (cs.takeWhile p).all isPlainAscii = true :=
    List.all_eq_true.mpr fun ch inside => List.all_eq_true.mp ascii ch (List.takeWhile_subset p inside)
  rw [Cursor.span, rest_eq, run]
  exact congrArg (cs.takeWhile p, ·) (Cursor.advanceBy_ascii rest_eq' ascii')

theorem exists_quoted (ascii : cs.all isPlainAscii = true) (tail : List Char) : ∃ ch rest,
    cs.flatMap singleQuotedChar ++ '\'' :: tail = ch :: rest ∧ isPlainAscii ch = true := by
  cases cs with
  | nil => exact ⟨'\'', tail, rfl, rfl⟩
  | cons ch cs =>
      rw [List.all_cons, Bool.and_eq_true] at ascii
      by_cases quote : (ch == '\'') = true
      · exact ⟨ch, ch :: (cs.flatMap singleQuotedChar ++ '\'' :: tail), by
          rw [List.flatMap_cons, singleQuotedChar, if_pos quote]; rfl, ascii.1⟩
      · exact ⟨ch, cs.flatMap singleQuotedChar ++ '\'' :: tail, by
          rw [List.flatMap_cons, singleQuotedChar, if_neg quote]; rfl, ascii.1⟩

/-- A blank or a tabulator. -/
def isSpace (ch : Char) : Bool :=
  ch == ' ' || ch == '\t'

/-- A character without a meaning of its own in either kind of quotes. -/
def isOrdinary (ch : Char) : Bool :=
  !(isGap ch || ch == '\'' || ch == '"' || ch == '\\')

section

variable {c : Cursor} {fuel : Nat} {done : List (List Nat)} {ch : Char} {rest : List Char}

theorem quotedScalar_close (rest_eq : c.rest = '\'' :: tail) (stop : tail.head? ≠ some '\'') :
    quotedScalar false (fuel + 1) done c = .ok (joinPieces done, c.onward 1 tail) := by
  have other : (tail.head? == some '\'') = false := beq_false_of_ne stop
  rw [quotedScalar, rest_eq]
  simp only [other, Bool.and_false, Bool.false_eq_true, if_false, beq_self_eq_true, if_true,
    Cursor.advance_ascii rest_eq rfl]
  rfl

theorem quotedScalar_quote (rest_eq : c.rest = '\'' :: '\'' :: rest) :
    quotedScalar false (fuel + 1) done c = quotedScalar false fuel (['\''.toNat] :: done) (c.onward 2 rest) := by
  have quotes : c.rest = ['\'', '\''] ++ rest := rest_eq
  have two : c.advanceBy 2 = c.onward 2 rest := Cursor.advanceBy_ascii quotes rfl
  rw [quotedScalar, rest_eq, ← two]
  rfl

theorem quotedScalar_blank (rest_eq : c.rest = ' ' :: rest) : quotedScalar false (fuel + 1) done c = (do
    let (gap, c) ← quotedGap c
    quotedScalar false fuel (gap.map Char.toNat :: done) c) := by
  rw [quotedScalar, rest_eq]
  rfl

theorem quotedScalar_other (rest_eq : c.rest = ch :: rest) (ascii : isPlainAscii ch = true) (quote : ch ≠ '\'')
    (blank : ch ≠ ' ') : quotedScalar false (fuel + 1) done c =
      if isOrdinary ch then
        quotedScalar false fuel ((c.span isOrdinary).1.map Char.toNat :: done) (c.span isOrdinary).2
      else quotedScalar false fuel ([ch.toNat] :: done) (c.onward 1 rest) := by
  have class_eq : (fun ch => !(isGap ch || ch == '\'' || ch == '"' || ch == '\\')) = isOrdinary := rfl
  rw [quotedScalar, rest_eq]
  simp only [beq_false_of_ne quote, Bool.and_false, Bool.false_and, Bool.false_eq_true, if_false,
    isGap_ascii ascii, beq_false_of_ne blank, class_eq]
  by_cases ordinary : isOrdinary ch = true
  · have filled : (c.span isOrdinary).1.isEmpty = false := by
      rw [Cursor.span, rest_eq, List.takeWhile_cons_of_pos ordinary]
      rfl
    rw [filled, if_pos ordinary, if_neg Bool.false_ne_true]
  · have alone : c.span isOrdinary = ([], c) := by
      rw [Cursor.span, rest_eq, List.takeWhile_cons_of_neg ordinary]
      rfl
    rw [alone, if_neg ordinary, ← Cursor.advance_ascii rest_eq ascii]
    rfl

/-- Blanks inside quotes stay as they are. -/
theorem quotedGap_eq (ascii : cs.all isPlainAscii = true)
    (rest_eq : c.rest = cs.flatMap singleQuotedChar ++ '\'' :: tail) : quotedGap c =
      .ok (cs.takeWhile isSpace, c.onward (cs.takeWhile isSpace).length
        ((cs.dropWhile isSpace).flatMap singleQuotedChar ++ '\'' :: tail)) := by
  have ascii' : (cs.dropWhile isSpace).all isPlainAscii = true :=
    List.all_eq_true.mpr fun ch inside => List.all_eq_true.mp ascii ch (List.dropWhile_subset isSpace inside)
  obtain ⟨ch, rest, same, first⟩ := exists_quoted ascii' tail
  have space : (fun ch => ch == ' ' || ch == '\t') = isSpace := rfl
  have peek : (c.onward (cs.takeWhile isSpace).length (ch :: rest)).peek? = some ch := rfl
  rw [quotedGap, space, Cursor.span_quoted rfl ascii rest_eq, same]
  dsimp only
  rw [Cursor.lineBreak?_ascii Cursor.onward_rest first, peek]
  rfl

variable (done) in
/-- What is read of one class of characters, and then the rest. -/
theorem quotedScalar_class (quote : p '\'' = false) (rest_eq : quotedScalar false fuel
      ((cs.takeWhile p).map Char.toNat :: done) (c.onward (cs.takeWhile p).length
        ((cs.dropWhile p).flatMap singleQuotedChar ++ '\'' :: tail)) =
      .ok (joinPieces ((cs.takeWhile p).map Char.toNat :: done) ++ (cs.dropWhile p).map Char.toNat,
        (c.onward (cs.takeWhile p).length ((cs.dropWhile p).flatMap singleQuotedChar ++ '\'' :: tail)).onward
          (((cs.dropWhile p).flatMap singleQuotedChar).length + 1) tail)) :
    quotedScalar false fuel ((cs.takeWhile p).map Char.toNat :: done) (c.onward (cs.takeWhile p).length
        ((cs.dropWhile p).flatMap singleQuotedChar ++ '\'' :: tail)) =
      .ok (joinPieces done ++ cs.map Char.toNat, c.onward ((cs.flatMap singleQuotedChar).length + 1) tail) := by
  have total : (cs.flatMap singleQuotedChar).length = (cs.takeWhile p).length +
      ((cs.dropWhile p).flatMap singleQuotedChar).length :=
    (congrArg List.length (flatMap_split quote cs)).trans List.length_append
  rw [rest_eq, joinPieces_cons, List.append_assoc, ← List.map_append, List.takeWhile_append_dropWhile,
    Cursor.onward_onward, total, Nat.add_assoc]

/-- A text in single quotes is read up to the closing quote. -/
theorem quotedScalar_eq (ascii : cs.all isPlainAscii = true) (enough : cs.length < fuel)
    (rest_eq : c.rest = cs.flatMap singleQuotedChar ++ '\'' :: tail) (stop : tail.head? ≠ some '\'') :
    quotedScalar false fuel done c =
      .ok (joinPieces done ++ cs.map Char.toNat, c.onward ((cs.flatMap singleQuotedChar).length + 1) tail) := by
  induction fuel generalizing c cs done with
  | zero => exact absurd enough (Nat.not_lt_zero _)
  | succ fuel ih =>
      cases cs with
      | nil => rw [quotedScalar_close rest_eq stop, List.map_nil, List.append_nil]; rfl
      | cons ch cs =>
          have both := ascii
          rw [List.all_cons, Bool.and_eq_true] at both
          have behind {p : Char → Bool} (quote : p '\'' = false) (first : p ch = true) :=
            quotedScalar_class done (c := c) quote (ih
              (List.all_eq_true.mpr fun d inside => List.all_eq_true.mp ascii d (List.dropWhile_subset p inside))
              (by
                rw [List.dropWhile_cons_of_pos first]
                have shorter := (List.dropWhile_sublist p (l := cs)).length_le
                rw [List.length_cons] at enough
                omega) Cursor.onward_rest)
          have short : cs.length < fuel := Nat.lt_of_succ_lt_succ enough
          by_cases quote : ch = '\''
          · subst quote
            have quotes : c.rest = '\'' :: '\'' :: (cs.flatMap singleQuotedChar ++ '\'' :: tail) := rest_eq
            rw [quotedScalar_quote quotes,
              ih both.2 short Cursor.onward_rest, Cursor.onward_onward, joinPieces_cons, List.append_assoc,
              Nat.add_left_comm]
            rfl
          · have single : singleQuotedChar ch = [ch] := if_neg (by simpa using quote)
            have first : c.rest = ch :: (cs.flatMap singleQuotedChar ++ '\'' :: tail) := by
              rw [rest_eq, List.flatMap_cons, single]
              rfl
            by_cases blank : ch = ' '
            · subst blank
              rw [quotedScalar_blank first, quotedGap_eq ascii rest_eq]
              exact behind rfl rfl
            · rw [quotedScalar_other first both.1 quote blank, Cursor.span_quoted rfl ascii rest_eq]
              split
              case isTrue ordinary => exact behind rfl ordinary
              case isFalse =>
                rw [ih both.2 short Cursor.onward_rest, Cursor.onward_onward, joinPieces_cons,
                  List.append_assoc, List.flatMap_cons, single, List.length_append, Nat.add_assoc]
                rfl

end

theorem Follows.not_quote (follows : Follows tail) : tail.head? ≠ some '\'' := by
  cases follows <;> simp

/-- A text in single quotes, from the opening quote on. -/
theorem quotedScalar_line {c : Cursor} {s : String} (printable : IsPrintable s)
    (rest_eq : c.rest = quotedLine s ++ tail) (follows : Follows tail) :
    quotedScalar false (c.advance.rest.length + 1) [] c.advance =
      .ok (s.toList.map Char.toNat, c.onward (quotedLine s).length tail) := by
  have opened : c.rest = '\'' :: (s.toList.flatMap singleQuotedChar ++ '\'' :: tail) := by
    rw [rest_eq, quotedLine]
    simp
  have enough : s.toList.length < (s.toList.flatMap singleQuotedChar ++ '\'' :: tail).length + 1 := by
    have each : ∀ ch ∈ s.toList, 1 ≤ (singleQuotedChar ch).length := by
      intro ch _
      rw [singleQuotedChar]
      split <;> simp
    have total := List.length_flatMap (f := singleQuotedChar) (l := s.toList)
    have least := List.card_nsmul_le_sum (s.toList.map fun ch => (singleQuotedChar ch).length) 1
      (List.forall_mem_map.mpr each)
    rw [List.length_map, smul_eq_mul, Nat.mul_one] at least
    rw [List.length_append, total]
    omega
  rw [Cursor.advance_ascii opened rfl, Cursor.onward_rest, quotedScalar_eq printable enough Cursor.onward_rest
    follows.not_quote, Cursor.onward_onward]
  simp [quotedLine, joinPieces, Nat.add_comm]

end

/-- A scalar does not start like a remark. -/
theorem Spells.first {x : Scalar} {cs : List Char} {t : Token} (spells : Spells x cs t) : ∃ ch more, cs = ch :: more ∧
    isPlainAscii ch = true ∧ ch ≠ ' ' ∧ ch ≠ '#' := by
  cases spells with
  | plain unquoted _ =>
      obtain ⟨ascii, ⟨ch, more, rfl, blank, remark⟩, _, _⟩ := unquoted.words
      rw [List.all_cons, Bool.and_eq_true] at ascii
      exact ⟨ch, more, rfl, ascii.1, blank, remark⟩
  | quoted _ => exact ⟨'\'', _, rfl, rfl, by decide, by decide⟩

end DecisionTables.Yaml
