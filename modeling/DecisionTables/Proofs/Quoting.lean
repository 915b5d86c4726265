import DecisionTables.Proofs.Accepting
import Mathlib.Data.List.Forall2

/-!
# Quoted fields

How fields are written as one line: each stands between quotes with its own quotes doubled, or
bare where no character in it could be taken for the end of the field.  Whatever the fields hold
and whatever character divides them, the line is cut into these fields again, so that every
subject and every value can be carried by a record.
-/

namespace DecisionTables

namespace Fields

/-! ## Writing -/

/-- What stands between quotes for the characters of a field: every quote is written twice. -/
def doubled : List Char → List Char
  | [] => []
  | c :: rest => if c = '"' then '"' :: '"' :: doubled rest else c :: doubled rest

/-- A field between quotes. -/
def quoted (field : String) : String :=
  String.ofList ('"' :: doubled field.toList ++ ['"'])

/-- A character that can divide fields is neither a quote nor the end of a line. -/
def Divides (delimiter : Char) : Prop :=
  delimiter ≠ '"' ∧ delimiter ≠ '\n' ∧ delimiter ≠ '\r'

/-- A field in which every character only stands for itself. -/
def Plain (delimiter : Char) (field : String) : Prop :=
  ∀ c ∈ field.toList, c ≠ '"' ∧ c ≠ delimiter ∧ c ≠ '\n' ∧ c ≠ '\r'

instance (delimiter : Char) : Decidable (Divides delimiter) :=
  inferInstanceAs (Decidable (_ ∧ _ ∧ _))

instance (delimiter : Char) (field : String) : Decidable (Plain delimiter field) :=
  List.decidableBAll (fun c => c ≠ '"' ∧ c ≠ delimiter ∧ c ≠ '\n' ∧ c ≠ '\r') field.toList

/-- The ways to write a field. -/
inductive Written (delimiter : Char) : String → String → Prop where
  | quoted (field : String) : Written delimiter field (quoted field)
  | bare {field : String} (plain : Plain delimiter field) : Written delimiter field field

/-- Written fields as one line. -/
def line (delimiter : Char) (written : List String) : String :=
  (String.singleton delimiter).intercalate written

theorem toList_line_single (delimiter : Char) (written : String) :
    (line delimiter [written]).toList = written.toList := by
  simp [line]

theorem toList_line_cons (delimiter : Char) (written next : String) (others : List String) :
    (line delimiter (written :: next :: others)).toList =
      written.toList ++ delimiter :: (line delimiter (next :: others)).toList := by
  simp [line, String.toList_intercalate]

theorem forall₂_quoted (delimiter : Char) (fields : List String) :
    List.Forall₂ (Written delimiter) fields (fields.map quoted) := by
  induction fields with
  | nil => exact .nil
  | cons field fields ih => exact .cons (.quoted field) ih

theorem Written.ne_empty {delimiter : Char} {field written : String}
    (writes : Written delimiter field written) (some : field ≠ "") : written ≠ "" := by
  cases writes with
  | quoted =>
      intro empty
      have none := congrArg String.toList empty
      simp [Fields.quoted] at none
  | bare plain => exact some

/-! ## Reading -/

namespace Reader

/-- Characters lead the reader from one state to another. -/
def Reads (delimiter : Char) (r : Reader) (cs : List Char) (r' : Reader) : Prop :=
  cs.foldlM (step delimiter) r = .ok r'

section

variable {delimiter c : Char} {cs more : List Char} {r r' r'' : Reader}

theorem Reads.nil : Reads delimiter r [] r := rfl

theorem Reads.cons (first : step delimiter r c = .ok r') (rest : Reads delimiter r' cs r'') :
    Reads delimiter r (c :: cs) r'' := by
  rw [Reads, List.foldlM_cons, first]
  exact rest

theorem Reads.append (first : Reads delimiter r cs r') (rest : Reads delimiter r' more r'') :
    Reads delimiter r (cs ++ more) r'' := by
  rw [Reads, List.foldlM_append, first]
  exact rest

end

section

variable {delimiter : Char} {phase : Phase} {opened : List Char} {size : Nat} {before : List String}

theorem push_eq (room : size < sizeLimit) (next : Phase) (c : Char) :
    push ⟨phase, opened, size, before⟩ next c = .ok ⟨next, c :: opened, size + 1, before⟩ := by
  simp [push, Nat.not_le.mpr room]

theorem isLineEnd_eq_false {c : Char} (feed : c ≠ '\n') (return' : c ≠ '\r') :
    isLineEnd c = false := by
  simp [isLineEnd, feed, return']

/-- A reader that took a character and then others took all of them. -/
theorem open_cons (c : Char) (cs : List Char) :
    (⟨phase, (c :: cs).reverse ++ opened, size + (c :: cs).length, before⟩ : Reader) =
      ⟨phase, cs.reverse ++ c :: opened, size + 1 + cs.length, before⟩ := by
  simp [Nat.add_comm, Nat.add_left_comm]

/-- Between quotes a doubled quote is one character of the field, and every other character is
itself. -/
theorem reads_doubled (delimiter : Char) (opened : List Char) (size : Nat) (before : List String)
    {cs : List Char} (room : size + cs.length ≤ sizeLimit) :
    Reads delimiter ⟨.quoted, opened, size, before⟩ (doubled cs)
      ⟨.quoted, cs.reverse ++ opened, size + cs.length, before⟩ := by
  induction cs generalizing opened size with
  | nil => exact .nil
  | cons c cs ih =>
      simp only [List.length_cons] at room
      have here : size < sizeLimit := by omega
      have rest := ih (c :: opened) (size + 1) (by omega)
      rw [open_cons, doubled]
      by_cases quote : c = '"'
      · -- the first quote only asks what comes behind it
        subst quote
        simp only [if_true]
        have seen : step delimiter ⟨.quoted, opened, size, before⟩ '"' =
            .ok ⟨.quoteSeen, opened, size, before⟩ := by
          simp [step]
        refine .cons seen (.cons ?_ rest)
        simp [step, push_eq here]
      · simp only [quote, if_false]
        refine .cons ?_ rest
        simp [step, quote, push_eq here]

/-- Outside quotes the characters of a plain field are themselves. -/
theorem reads_plain (opened : List Char) (size : Nat) (before : List String) {cs : List Char}
    (room : size + cs.length ≤ sizeLimit)
    (plain : ∀ c ∈ cs, c ≠ '"' ∧ c ≠ delimiter ∧ c ≠ '\n' ∧ c ≠ '\r') :
    Reads delimiter ⟨.bare, opened, size, before⟩ cs
      ⟨.bare, cs.reverse ++ opened, size + cs.length, before⟩ := by
  induction cs generalizing opened size with
  | nil => exact .nil
  | cons c cs ih =>
      simp only [List.length_cons] at room
      obtain ⟨_, divided, feed, return'⟩ := plain c List.mem_cons_self
      have rest := ih (c :: opened) (size + 1) (by omega)
        fun c member => plain c (List.mem_cons_of_mem _ member)
      rw [open_cons]
      refine .cons ?_ rest
      simp [step, isLineEnd_eq_false feed return', divided, push_eq (show size < sizeLimit by omega)]

/-- The whole of a field has been read: a delimiter closes it now, and so does the end of the
line. -/
structure Holds (r : Reader) (field : String) (before : List String) : Prop where
  phase : r.phase = .fieldStart ∨ r.phase = .bare ∨ r.phase = .quoteSeen
  field : r.field = field.toList.reverse
  fields : r.fields = before

theorem Holds.finish_eq {r : Reader} {field : String} (holds : Holds r field before) :
    r.finish = before.reverse ++ [field] := by
  obtain ⟨phase, opened, size, fields⟩ := r
  obtain ⟨ready, rfl, rfl⟩ := holds
  rcases ready with rfl | rfl | rfl <;> simp [finish, save]

theorem Holds.step_delimiter {r : Reader} {field : String} (holds : Holds r field before)
    (divides : Divides delimiter) :
    step delimiter r delimiter = .ok ⟨.fieldStart, [], 0, field :: before⟩ := by
  obtain ⟨phase, opened, size, fields⟩ := r
  obtain ⟨ready, rfl, rfl⟩ := holds
  obtain ⟨quote, feed, return'⟩ := divides
  have inside := isLineEnd_eq_false feed return'
  rcases ready with rfl | rfl | rfl <;> simp [step, openField, save, inside, quote]

/-- However a field is written, it is read from its start; only at the start of a line it must not
be empty, because an empty line has no fields. -/
theorem exists_holds (before : List String) {field written : String} (writes : Written delimiter field written)
    (short : field.length ≤ sizeLimit)
    (start : phase = .fieldStart ∨ phase = .lineStart ∧ written ≠ "") :
    ∃ r, Reads delimiter ⟨phase, [], 0, before⟩ written.toList r ∧ Holds r field before := by
  have room : 0 + field.toList.length ≤ sizeLimit := by
    rwa [Nat.zero_add, String.length_toList]
  cases writes with
  | quoted =>
      have body := reads_doubled delimiter [] 0 before room
      rw [List.append_nil] at body
      refine ⟨⟨.quoteSeen, field.toList.reverse, 0 + field.toList.length, before⟩, ?_,
        ⟨.inr (.inr rfl), rfl, rfl⟩⟩
      rw [quoted, String.toList_ofList]
      have opens : step delimiter ⟨phase, [], 0, before⟩ '"' = .ok ⟨.quoted, [], 0, before⟩ := by
        rcases start with rfl | ⟨rfl, _⟩ <;> simp [step, openField, isLineEnd]
      exact .cons opens (body.append (.cons (by simp [step]) .nil))
  | bare plain =>
      cases shape : field.toList with
      | nil =>
          rcases start with rfl | ⟨_, some⟩
          · exact ⟨_, .nil, ⟨.inl rfl, by simp [shape], rfl⟩⟩
          · exact (some (String.toList_eq_nil_iff.mp shape)).elim
      | cons c cs =>
          rw [Plain, shape] at plain
          obtain ⟨quote, divided, feed, return'⟩ := plain c List.mem_cons_self
          rw [shape, List.length_cons] at room
          have rest := reads_plain [c] 1 before
            (show 1 + cs.length ≤ sizeLimit by omega)
            fun c member => plain c (List.mem_cons_of_mem _ member)
          refine ⟨_, .cons ?_ rest, ⟨.inr (.inl rfl), by simp [shape], rfl⟩⟩
          have pushed : push ⟨phase, [], 0, before⟩ .bare c = .ok ⟨.bare, [c], 1, before⟩ :=
            push_eq (by omega) .bare c
          have inside := isLineEnd_eq_false feed return'
          rcases start with rfl | ⟨rfl, _⟩ <;> simp [step, openField, inside, quote, divided, pushed]

/-- Fields with delimiters between them are read one after the other. -/
theorem exists_reads_line (before : List String) (divides : Divides delimiter) {field written : String}
    {fields others : List String} (writes : Written delimiter field written)
    (rest : List.Forall₂ (Written delimiter) fields others)
    (short : ∀ f ∈ field :: fields, f.length ≤ sizeLimit)
    (start : phase = .fieldStart ∨ phase = .lineStart ∧ written ≠ "") :
    ∃ r, Reads delimiter ⟨phase, [], 0, before⟩ (line delimiter (written :: others)).toList r ∧
      r.finish = before.reverse ++ field :: fields := by
  obtain ⟨r, reads, holds⟩ := exists_holds before writes (short field List.mem_cons_self) start
  induction rest generalizing phase before field written r with
  | nil => exact ⟨r, by rwa [toList_line_single], holds.finish_eq⟩
  | @cons next written' fields others writes' rest ih =>
      have short' : ∀ f ∈ next :: fields, f.length ≤ sizeLimit := fun f member =>
        short f (List.mem_cons_of_mem _ member)
      obtain ⟨r', reads', holds'⟩ := exists_holds (field :: before)
        writes' (short' next List.mem_cons_self) (.inl rfl)
      obtain ⟨last, behind, finished⟩ := ih (field :: before) writes' short' (.inl rfl) r' reads' holds'
      refine ⟨last, ?_, by simpa using finished⟩
      rw [toList_line_cons]
      exact reads.append (.cons (holds.step_delimiter divides) behind)

end

end Reader

/-- Written fields are cut out of their line again; only a first field that is empty might be taken
for an empty line. -/
theorem split_line {delimiter : Char} (divides : Divides delimiter) {field : String}
    {fields written : List String} (some : field ≠ "")
    (short : ∀ f ∈ field :: fields, f.length ≤ sizeLimit)
    (writes : List.Forall₂ (Written delimiter) (field :: fields) written) :
    split delimiter (line delimiter written) = .ok (field :: fields) := by
  cases writes with
  | cons first rest =>
      obtain ⟨r, reads, finished⟩ := Reader.exists_reads_line [] divides first rest short
        (.inr ⟨rfl, first.ne_empty some⟩)
      rw [split, Reader.start, reads]
      exact congrArg Except.ok finished

end Fields

namespace Record

/-! ## Records -/

theorem strip_label (tag : Tag) : Text.strip tag.label = tag.label := by
  cases tag <;> decide

/-- Quoting can carry any subject and any values.  With every field between quotes, and just as well
with plain fields left bare, the line is read as the record of exactly these fields, less the blanks
at their ends. -/
theorem parse_line {delimiter : Char} (divides : Fields.Divides delimiter) (tag : Tag)
    {subject : String} {values : List String}
    (named : ∃ c ∈ subject.toList, Text.isBlank c = false)
    (short : ∀ field ∈ subject :: values, field.length ≤ Fields.sizeLimit) :
    let fields := tag.label :: subject :: values
    let record : Record := ⟨tag, Text.strip subject, values.map Text.strip⟩
    parse (String.singleton delimiter) (Fields.line delimiter (fields.map Fields.quoted)) = .ok record ∧
      ∀ written, List.Forall₂ (Fields.Written delimiter) fields written →
        parse (String.singleton delimiter) (Fields.line delimiter written) = .ok record := by
  intro fields record
  have known : tag.label ≠ "" := by cases tag <;> decide
  have short : ∀ field ∈ fields, field.length ≤ Fields.sizeLimit := by
    intro field member
    rcases List.mem_cons.mp member with rfl | other
    · cases tag <;> decide
    · exact short field other
  have read : ∀ written, List.Forall₂ (Fields.Written delimiter) fields written →
      parse (String.singleton delimiter) (Fields.line delimiter written) = .ok record := by
    intro written writes
    have cut : Fields.splitBy (String.singleton delimiter) (Fields.line delimiter written) = .ok fields := by
      simpa [Fields.splitBy] using Fields.split_line divides known short writes
    exact parse_eq_ok_iff.mpr (.fields cut (strip_label tag) named)
  exact ⟨read _ (Fields.forall₂_quoted delimiter fields), read⟩

/-- Number signs divide the fields, and the fields are full of number signs, quotes, line ends and
blanks; the last one is empty. -/
theorem parse_line_remarks :
    parse "#" "\"OUT\"#\" say \"\"#1\"\"\n\"#\"#\"# bare #\"\"\"\"#" =
      .ok ⟨.outcome, "say \"#1\"", ["#", "bare", "\"", ""]⟩ := by
  have named : ∃ c ∈ (" say \"#1\"\n").toList, Text.isBlank c = false := ⟨'s', by decide, by decide⟩
  have short : ∀ field ∈ [" say \"#1\"\n", "#", " bare ", "\"", ""], field.length ≤ Fields.sizeLimit := by
    decide
  have divides : Fields.Divides '#' := by decide
  have spelled := (parse_line divides .outcome named short).2 _
    (.cons (.quoted _) (.cons (.quoted _) (.cons (.quoted _) (.cons (.bare (by decide))
      (.cons (.quoted _) (.cons (.bare (by decide)) .nil))))))
  exact spelled

end Record

end DecisionTables
