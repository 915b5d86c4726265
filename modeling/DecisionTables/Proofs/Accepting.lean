import DecisionTables.Sheet
import Mathlib.Data.List.TakeWhile

/-!
# Accepted sheets

Which lines make up a sheet, said without reading them one after the other: every line
that counts has the fields of a record, and the records are as wide as the number of
rules asks for.  The reader accepts these lines and no others, and every cell that is
later cut out of a row is there.
-/

namespace DecisionTables

/-! ## Blanks -/

namespace Text

/-- Nothing is left of a text exactly where it has only blanks. -/
theorem strip_eq_empty_iff {s : String} : strip s = "" ↔ ∀ c ∈ s.toList, isBlank c = true := by
  have emptied : strip s = "" ↔ trim isBlank s.toList = [] := by
    rw [← String.toList_inj, toList_strip]
    rfl
  rw [emptied, trim, trimRight, trimLeft, List.reverse_eq_nil_iff, List.dropWhile_eq_nil_iff]
  constructor
  · intro blank c member
    rw [← List.takeWhile_append_dropWhile (p := isBlank) (l := s.toList)] at member
    rcases List.mem_append.mp member with before | behind
    · exact List.mem_takeWhile_imp before
    · exact blank c (List.mem_reverse.mpr behind)
  · intro blank c member
    exact blank c (List.dropWhile_subset _ (List.mem_reverse.mp member))

end Text

/-! ## Records -/

namespace Record

/-- The fields of a line make up a record: a tag, a subject that is not blank, and the values.
Blanks at the ends of fields do not count. -/
inductive OfLine (delimiter line : String) : Record → Prop where
  | fields {label subject values tag}
      (cut : Fields.splitBy delimiter line = .ok (label :: subject :: values))
      (known : Text.strip label = tag.label) (named : ∃ c ∈ subject.toList, Text.isBlank c = false) :
      OfLine delimiter line ⟨tag, Text.strip subject, values.map Text.strip⟩

theorem strip_ne_empty_iff {s : String} :
    (Text.strip s).isEmpty = false ↔ ∃ c ∈ s.toList, Text.isBlank c = false := by
  rw [Bool.eq_false_iff, ne_eq, String.isEmpty_iff, Text.strip_eq_empty_iff]
  simp only [not_forall, Bool.not_eq_true, exists_prop]

theorem ofFields_eq_ok_iff {line : String} {fields : List String} {r : Record} :
    ofFields line fields = .ok r ↔
      ∃ label subject values tag, fields = label :: subject :: values ∧
        Text.strip label = tag.label ∧ (∃ c ∈ subject.toList, Text.isBlank c = false) ∧
        r = ⟨tag, Text.strip subject, values.map Text.strip⟩ := by
  constructor
  · intro read
    unfold ofFields at read
    cases fields with
    | nil => cases read
    | cons label rest =>
        cases found : Tag.ofLabel? (Text.strip label) with
        | none =>
            simp only [List.map_cons, found] at read
            cases read
        | some tag =>
            cases rest with
            | nil =>
                simp only [List.map_cons, List.map_nil, found] at read
                cases read
            | cons subject values =>
                simp only [List.map_cons, found] at read
                split at read
                · cases read
                · rename_i named
                  cases read
                  exact ⟨label, subject, values, tag, rfl, (Tag.label_of_ofLabel? found).symm,
                    strip_ne_empty_iff.mp (Bool.eq_false_iff.mpr named), rfl⟩
  · rintro ⟨label, subject, values, tag, rfl, known, named, rfl⟩
    simp only [ofFields, List.map_cons, known, Tag.ofLabel?_label, strip_ne_empty_iff.mpr named,
      Bool.false_eq_true, if_false]

theorem parse_eq_ok_iff {delimiter line : String} {r : Record} :
    parse delimiter line = .ok r ↔ OfLine delimiter line r := by
  constructor
  · intro read
    unfold parse at read
    split at read
    · cases read
    · rename_i fields cut
      obtain ⟨label, subject, values, tag, rfl, known, named, rfl⟩ := ofFields_eq_ok_iff.mp read
      exact .fields cut known named
  · rintro ⟨cut, known, named⟩
    rw [parse, cut]
    exact ofFields_eq_ok_iff.mpr ⟨_, _, _, _, rfl, known, named, rfl⟩

theorem kind_of_parse {delimiter line : String} {error : EngineError}
    (failed : parse delimiter line = .error error) : error.kind = .configuration := by
  unfold parse at failed
  split at failed
  · cases failed
    rfl
  · unfold ofFields at failed
    split at failed
    · cases failed
      rfl
    · split at failed
      · cases failed
        rfl
      · cases failed
        rfl
      · split at failed
        · cases failed
          rfl
        · cases failed

end Record

/-! ## Lines -/

namespace Sheet

/-- A line that holds no record: it is blank, or the first of its characters that is not is a number
sign. -/
def Skipped (line : List Char) : Prop :=
  (∀ c ∈ line, Text.isBlank c = true) ∨
    ∃ before behind, line = before ++ '#' :: behind ∧ ∀ c ∈ before, Text.isBlank c = true

theorem isSkipped_iff {line : String} : isSkipped line = true ↔ Skipped line.toList := by
  unfold isSkipped
  generalize line.toList = cs
  have split : cs = cs.takeWhile Text.isBlank ++ cs.dropWhile Text.isBlank :=
    List.takeWhile_append_dropWhile.symm
  constructor
  · intro skipped
    cases rest : cs.dropWhile Text.isBlank with
    | nil => exact .inl (List.dropWhile_eq_nil_iff.mp rest)
    | cons c behind =>
        rw [rest] at skipped split
        rw [eq_of_beq skipped] at split
        exact .inr ⟨cs.takeWhile Text.isBlank, behind, split, fun c => List.mem_takeWhile_imp⟩
  · rintro (blank | ⟨before, behind, rfl, blank⟩)
    · rw [List.dropWhile_eq_nil_iff.mpr blank]
    · rw [List.dropWhile_append_of_pos blank]
      rfl

/-- The ends of a line do not tell whether it is skipped. -/
theorem skipped_append_iff {line ends : List Char} (drop : ∀ c ∈ ends, c = '\n' ∨ c = '\r') :
    Skipped (line ++ ends) ↔ Skipped line := by
  have mark : '#' ∉ ends := fun inside => by
    rcases drop _ inside with impossible | impossible <;> cases impossible
  constructor
  · rintro (blank | ⟨before, behind, same, blank⟩)
    · exact .inl fun c member => blank c (List.mem_append_left _ member)
    · rcases List.append_eq_append_iff.mp same with ⟨more, rfl, later⟩ | ⟨more, rfl, later⟩
      · exact (mark (later ▸ List.mem_append_right _ List.mem_cons_self)).elim
      · cases more with
        | nil => exact (mark (by rw [← List.nil_append ends, ← later]; exact List.mem_cons_self)).elim
        | cons c more =>
            cases later
            exact .inr ⟨before, more, rfl, blank⟩
  · rintro (blank | ⟨before, behind, rfl, blank⟩)
    · refine .inl fun c member => ?_
      rcases List.mem_append.mp member with inside | behind
      · exact blank c inside
      · rcases drop c behind with rfl | rfl <;> rfl
    · exact .inr ⟨before, behind ++ ends, by rw [List.append_assoc, List.cons_append], blank⟩

theorem skipped_chompLine {line : String} :
    Skipped (Text.chompLine line).toList ↔ Skipped line.toList := by
  let isEnd : Char → Bool := fun c => c == '\n' || c == '\r'
  let ends := (line.toList.reverse.takeWhile isEnd).reverse
  have split : line.toList = (Text.chompLine line).toList ++ ends := by
    rw [Text.chompLine, String.toList_ofList, ← List.reverse_append,
      List.takeWhile_append_dropWhile, List.reverse_reverse]
  have drop : ∀ c ∈ ends, c = '\n' ∨ c = '\r' := by
    intro c member
    have ending : isEnd c = true := List.mem_takeWhile_imp (List.mem_reverse.mp member)
    simpa only [isEnd, Bool.or_eq_true, beq_iff_eq] using ending
  rw [split, skipped_append_iff drop]

/-- Lines hold records: every line that is not skipped holds one, when its line end is cut off. -/
inductive Holds (delimiter : String) : List String → List Record → Prop where
  | nil : Holds delimiter [] []
  | skip {line lines records} (skipped : Skipped line.toList) (rest : Holds delimiter lines records) :
      Holds delimiter (line :: lines) records
  | record {line lines r records} (counts : ¬ Skipped line.toList)
      (read : Record.OfLine delimiter (Text.chompLine line) r) (rest : Holds delimiter lines records) :
      Holds delimiter (line :: lines) (r :: records)

theorem readRecords_skip {delimiter line : String} (skipped : Skipped line.toList) (lines : List String) :
    readRecords delimiter (line :: lines) = readRecords delimiter lines := by
  rw [readRecords]
  exact if_pos (isSkipped_iff.mpr (skipped_chompLine.mpr skipped))

theorem readRecords_record {delimiter line : String} (counts : ¬ Skipped line.toList)
    (lines : List String) :
    readRecords delimiter (line :: lines) = (do
      let record ← Record.parse delimiter (Text.chompLine line)
      return record :: (← readRecords delimiter lines)) := by
  rw [readRecords]
  exact if_neg fun skipped => counts (skipped_chompLine.mp (isSkipped_iff.mp skipped))

theorem readRecords_eq_ok_iff {delimiter : String} {lines : List String} {records : List Record} :
    readRecords delimiter lines = .ok records ↔ Holds delimiter lines records := by
  constructor
  · intro read
    induction lines generalizing records with
    | nil =>
        cases read
        exact .nil
    | cons line lines ih =>
        by_cases skipped : Skipped line.toList
        · rw [readRecords_skip skipped] at read
          exact .skip skipped (ih read)
        · rw [readRecords_record skipped] at read
          cases first : Record.parse delimiter (Text.chompLine line) with
          | error e =>
              rw [first] at read
              cases read
          | ok r =>
              cases others : readRecords delimiter lines with
              | error e =>
                  rw [first, others] at read
                  cases read
              | ok rest =>
                  rw [first, others] at read
                  cases read
                  exact .record skipped (Record.parse_eq_ok_iff.mp first) (ih others)
  · intro holds
    induction holds with
    | nil => rfl
    | skip skipped _ ih =>
        rw [readRecords_skip skipped]
        exact ih
    | record counts read _ ih =>
        rw [readRecords_record counts, Record.parse_eq_ok_iff.mpr read, ih]
        rfl

theorem kind_of_readRecords {delimiter : String} {lines : List String} {error : EngineError}
    (failed : readRecords delimiter lines = .error error) : error.kind = .configuration := by
  induction lines with
  | nil => cases failed
  | cons line lines ih =>
      by_cases skipped : Skipped line.toList
      · rw [readRecords_skip skipped] at failed
        exact ih failed
      · rw [readRecords_record skipped] at failed
        cases first : Record.parse delimiter (Text.chompLine line) with
        | error e =>
            rw [first] at failed
            cases failed
            exact Record.kind_of_parse first
        | ok r =>
            cases others : readRecords delimiter lines with
            | error e =>
                rw [first, others] at failed
                cases failed
                exact ih others
            | ok rest =>
                rw [first, others] at failed
                cases failed

/-! ## Shapes -/

/-- The number of rules that records tell of: the width of the conditions, else of the assignments,
else of the outcomes, else zero. -/
inductive RuleCount (records : List Record) : Nat → Prop where
  | conditions {r} (member : r ∈ records) (tag : r.tag = .condition) : RuleCount records r.width
  | assignments {r} (others : ∀ s ∈ records, s.tag ≠ .condition) (member : r ∈ records)
      (tag : r.tag = .assignment) : RuleCount records r.width
  | outcomes {r} (others : ∀ s ∈ records, s.tag ≠ .condition ∧ s.tag ≠ .assignment)
      (member : r ∈ records) (tag : r.tag = .outcome) : RuleCount records r.width
  | nothing (others : ∀ s ∈ records, s.tag = .header) : RuleCount records 0

/-- Records that make up a sheet of so many rules. -/
structure Fitting (records : List Record) (n : Nat) : Prop where
  count : RuleCount records n
  even : ∀ r ∈ records, ∀ s ∈ records, r.tag = s.tag → r.width = s.width
  header : (records.filter fun r => r.tag = .header).length ≤ 1
  assignment : ∀ r ∈ records, r.tag = .assignment → r.width = n
  longer : ∀ r ∈ records, r.tag = .header ∨ r.tag = .outcome → r.width = n ∨ r.width = n + 1

section

variable {s : Sheet} {tag : Tag} {r : Record} {n : Nat}

theorem width?_eq_none_iff : s.width? tag = none ↔ ∀ r ∈ s.records, r.tag ≠ tag := by
  simp only [width?, Option.map_eq_none_iff, List.head?_eq_none_iff, rows, List.filter_eq_nil_iff,
    decide_eq_true_eq, ne_eq]

theorem exists_of_width? (wide : s.width? tag = some n) :
    ∃ r ∈ s.records, r.tag = tag ∧ r.width = n := by
  obtain ⟨r, first, width⟩ := Option.map_eq_some_iff.mp wide
  obtain ⟨member, same⟩ := mem_rows.mp (List.mem_of_head? first)
  exact ⟨r, member, same, width⟩

/-- In rows that are equally wide every row tells the width. -/
theorem width?_of_mem (even : ∀ r ∈ s.records, ∀ t ∈ s.records, r.tag = t.tag → r.width = t.width)
    (member : r ∈ s.records) : s.width? r.tag = some r.width := by
  cases wide : s.width? r.tag with
  | none => exact (width?_eq_none_iff.mp wide r member rfl).elim
  | some n =>
      obtain ⟨t, inside, tag, rfl⟩ := exists_of_width? wide
      rw [even t inside r member tag]

theorem even_iff : (∀ tag, s.isEven tag = true) ↔
    ∀ r ∈ s.records, ∀ t ∈ s.records, r.tag = t.tag → r.width = t.width := by
  constructor
  · intro even r member t inside same
    have told : ∀ u ∈ s.records, s.width? u.tag = some u.width := fun u member => by
      have rowEven := List.all_eq_true.mp (even u.tag) u (mem_rows.mpr ⟨member, rfl⟩)
      exact (eq_of_beq rowEven).symm
    have left := told r member
    rw [same, told t inside] at left
    exact (Option.some.inj left).symm
  · intro even tag
    refine List.all_eq_true.mpr fun r member => ?_
    obtain ⟨inside, rfl⟩ := mem_rows.mp member
    rw [width?_of_mem even inside, beq_self_eq_true]

/-- The number of rules is what the records tell. -/
theorem ruleCount_spec (s : Sheet) : RuleCount s.records s.ruleCount := by
  unfold ruleCount
  cases conditions : s.width? .condition with
  | some n =>
      obtain ⟨r, member, tag, rfl⟩ := exists_of_width? conditions
      exact .conditions member tag
  | none =>
      have none₁ := width?_eq_none_iff.mp conditions
      cases assignments : s.width? .assignment with
      | some n =>
          obtain ⟨r, member, tag, rfl⟩ := exists_of_width? assignments
          exact .assignments none₁ member tag
      | none =>
          have none₂ := width?_eq_none_iff.mp assignments
          cases outcomes : s.width? .outcome with
          | some n =>
              obtain ⟨r, member, tag, rfl⟩ := exists_of_width? outcomes
              exact .outcomes (fun t inside => ⟨none₁ t inside, none₂ t inside⟩) member tag
          | none =>
              have none₃ := width?_eq_none_iff.mp outcomes
              refine .nothing fun t inside => ?_
              cases tag : t.tag with
              | header => rfl
              | condition => exact (none₁ t inside tag).elim
              | outcome => exact (none₃ t inside tag).elim
              | assignment => exact (none₂ t inside tag).elim

/-- Rows that are equally wide tell of one number of rules only. -/
theorem RuleCount.unique {records : List Record} {m : Nat}
    (even : ∀ r ∈ records, ∀ t ∈ records, r.tag = t.tag → r.width = t.width)
    (first : RuleCount records m) (second : RuleCount records n) : m = n := by
  cases first with
  | conditions member tag =>
      cases second with
      | conditions member' tag' => exact even _ member _ member' (tag.trans tag'.symm)
      | assignments others _ _ => exact (others _ member tag).elim
      | outcomes others _ _ => exact ((others _ member).1 tag).elim
      | nothing others => cases tag.symm.trans (others _ member)
  | assignments others member tag =>
      cases second with
      | conditions member' tag' => exact (others _ member' tag').elim
      | assignments _ member' tag' => exact even _ member _ member' (tag.trans tag'.symm)
      | outcomes others' _ _ => exact ((others' _ member).2 tag).elim
      | nothing others' => cases tag.symm.trans (others' _ member)
  | outcomes others member tag =>
      cases second with
      | conditions member' tag' => exact ((others _ member').1 tag').elim
      | assignments _ member' tag' => exact ((others _ member').2 tag').elim
      | outcomes _ member' tag' => exact even _ member _ member' (tag.trans tag'.symm)
      | nothing others' => cases tag.symm.trans (others' _ member)
  | nothing others =>
      cases second with
      | conditions member' tag' => cases tag'.symm.trans (others _ member')
      | assignments _ member' tag' => cases tag'.symm.trans (others _ member')
      | outcomes _ member' tag' => cases tag'.symm.trans (others _ member')
      | nothing _ => rfl

/-- Nothing is wrong with the shape of a sheet exactly where its rows are even, its header is the only
one, and every width is allowed. -/
theorem defect?_eq_none_iff : s.defect? = none ↔
    (∀ tag, s.isEven tag = true) ∧ (s.rows .header).length ≤ 1 ∧
      ∀ tag width, s.width? tag = some width → s.allowsWidth tag width = true := by
  have everyTag : ∀ tag : Tag, tag ∈ Tag.all := fun tag => by cases tag <;> decide
  have everyWidth : ∀ tag : Tag, tag ∈ widthOrder := fun tag => by cases tag <;> decide
  unfold defect?
  cases uneven : Tag.all.find? fun tag => !s.isEven tag with
  | some tag =>
      have wrong := List.find?_some uneven
      simp only [reduceCtorEq, false_iff]
      rintro ⟨even, _⟩
      rw [even tag] at wrong
      cases wrong
  | none =>
      have even : ∀ tag, s.isEven tag = true := fun tag => by
        simpa using List.find?_eq_none.mp uneven tag (everyTag tag)
      by_cases headers : 1 < (s.rows .header).length
      · simp only [headers, if_true, reduceCtorEq, false_iff]
        rintro ⟨_, single, _⟩
        omega
      · simp only [headers, if_false, Option.map_eq_none_iff, List.findSome?_eq_none_iff]
        constructor
        · intro fits
          refine ⟨even, by omega, fun tag width wide => ?_⟩
          have fit := fits tag (everyWidth tag)
          rw [wide, Option.bind_some] at fit
          by_contra wrong
          rw [if_neg wrong] at fit
          cases fit
        · rintro ⟨_, _, allowed⟩ tag _
          cases wide : s.width? tag with
          | none => rfl
          | some width => rw [Option.bind_some, if_pos (allowed tag width wide)]

theorem fitting_of_defect? (sound : s.defect? = none) : Fitting s.records s.ruleCount := by
  obtain ⟨even, header, allowed⟩ := defect?_eq_none_iff.mp sound
  have even := even_iff.mp even
  refine ⟨s.ruleCount_spec, even, header, fun r member tag => ?_, fun r member tag => ?_⟩
  · have fits := allowed _ _ (width?_of_mem even member)
    rw [tag] at fits
    exact eq_of_beq fits
  · have fits := allowed _ _ (width?_of_mem even member)
    rcases tag with tag | tag
    · rw [tag] at fits
      simpa only [allowsWidth, Bool.or_eq_true, beq_iff_eq] using fits
    · rw [tag] at fits
      simpa only [allowsWidth, Bool.or_eq_true, beq_iff_eq] using fits

theorem defect?_of_fitting (fitting : Fitting s.records n) : s.defect? = none := by
  obtain rfl : s.ruleCount = n := s.ruleCount_spec.unique fitting.even fitting.count
  refine defect?_eq_none_iff.mpr ⟨even_iff.mpr fitting.even, fitting.header, fun tag width wide => ?_⟩
  obtain ⟨r, member, rfl, rfl⟩ := exists_of_width? wide
  cases tag : r.tag with
  | condition =>
      have count := (RuleCount.conditions member tag).unique fitting.even fitting.count
      simpa only [allowsWidth, beq_iff_eq] using count
  | assignment =>
      have count := fitting.assignment r member tag
      simpa only [allowsWidth, beq_iff_eq] using count
  | header =>
      have count := fitting.longer r member (.inl tag)
      simpa only [allowsWidth, Bool.or_eq_true, beq_iff_eq] using count
  | outcome =>
      have count := fitting.longer r member (.inr tag)
      simpa only [allowsWidth, Bool.or_eq_true, beq_iff_eq] using count

theorem kind_of_defect? {error : EngineError} (wrong : s.defect? = some error) :
    error.kind = .configuration := by
  simp only [defect?] at wrong
  split at wrong
  · cases wrong
    rfl
  · split at wrong
    · cases wrong
      rfl
    · obtain ⟨_, _, rfl⟩ := Option.map_eq_some_iff.mp wrong
      rfl

/-- No row that is cut into rules ends before the last of them. -/
theorem Fitting.le_width {records : List Record} (fitting : Fitting records n)
    (member : r ∈ records) (cut : r.tag ≠ .header) : n ≤ r.width := by
  cases tag : r.tag with
  | header => exact (cut tag).elim
  | condition =>
      exact Nat.le_of_eq ((RuleCount.conditions member tag).unique fitting.even fitting.count).symm
  | assignment => exact Nat.le_of_eq (fitting.assignment r member tag).symm
  | outcome => rcases fitting.longer r member (.inr tag) with same | longer <;> omega

end

/-! ## Sheets -/

section

variable {name delimiter : String} {lines : List String}

theorem ofLines_eq_ok_iff {s : Sheet} :
    ofLines name delimiter lines = .ok s ↔
      delimiter.length = 1 ∧ s.name = name ∧ Holds delimiter lines s.records ∧
        Fitting s.records s.ruleCount := by
  unfold ofLines
  by_cases single : delimiter.length = 1
  · simp only [single, ne_eq, not_true_eq_false, if_false, true_and]
    constructor
    · intro read
      cases records : readRecords delimiter lines with
      | error e =>
          rw [records] at read
          cases read
      | ok rs =>
          rw [records] at read
          dsimp only [bind, Except.bind] at read
          cases sound : (⟨name, rs⟩ : Sheet).defect? with
          | some error =>
              rw [sound] at read
              cases read
          | none =>
              rw [sound] at read
              cases read
              exact ⟨rfl, readRecords_eq_ok_iff.mp records, fitting_of_defect? sound⟩
    · obtain ⟨own, rs⟩ := s
      rintro ⟨rfl, holds, fitting⟩
      rw [readRecords_eq_ok_iff.mpr holds]
      dsimp only [bind, Except.bind]
      rw [defect?_of_fitting fitting]
      rfl
  · simp only [single, ne_eq, not_false_eq_true, if_true, false_and, iff_false]
    intro read
    cases read

theorem kind_of_ofLines {error : EngineError} (failed : ofLines name delimiter lines = .error error) :
    error.kind = .configuration := by
  unfold ofLines at failed
  by_cases single : delimiter.length = 1
  · simp only [single, ne_eq, not_true_eq_false, if_false] at failed
    cases records : readRecords delimiter lines with
    | error e =>
        rw [records] at failed
        cases failed
        exact kind_of_readRecords records
    | ok rs =>
        rw [records] at failed
        dsimp only [bind, Except.bind] at failed
        cases wrong : (⟨name, rs⟩ : Sheet).defect? with
        | some error =>
            rw [wrong] at failed
            cases failed
            exact kind_of_defect? wrong
        | none =>
            rw [wrong] at failed
            cases failed
  · simp only [single, ne_eq, not_false_eq_true, if_true] at failed
    cases failed
    rfl

theorem cell_eq {s : Sheet} (fitting : Fitting s.records s.ruleCount) {r : Record}
    (member : r ∈ s.records) (cut : r.tag ≠ .header) {column : Nat} (inside : column < s.ruleCount) :
    ∃ value, r.values[column]? = some value ∧ cell column r = ⟨.row r.tag, r.subject, value⟩ := by
  have found : column < r.values.length := Nat.lt_of_lt_of_le inside (fitting.le_width member cut)
  refine ⟨r.values[column], List.getElem?_eq_getElem found, ?_⟩
  rw [cell, List.getD_eq_getElem?_getD, List.getElem?_eq_getElem found]
  rfl

end

end Sheet

theorem Table.exists_sheet_of_parse {name delimiter : String} {lines : List String} {t : Table}
    (accepted : Table.parse name delimiter lines = .ok t) :
    ∃ s, Sheet.ofLines name delimiter lines = .ok s ∧ s.table = t := by
  unfold Table.parse at accepted
  cases read : Sheet.ofLines name delimiter lines with
  | error e =>
      rw [read] at accepted
      cases accepted
  | ok s =>
      rw [read] at accepted
      cases accepted
      exact ⟨s, rfl, rfl⟩

/-- Lines are accepted as a table exactly where the delimiter is one character, every line that is
neither blank nor a remark holds a record, and the records fit the number of rules that they tell of.
Otherwise there is an error in the configuration, and nothing else ever goes wrong: whatever is cut
out of a row for a rule is there. -/
theorem Table.parse_accepts_exactly (name delimiter : String) (lines : List String) :
    ((∃ t, Table.parse name delimiter lines = .ok t) ↔
      delimiter.length = 1 ∧
        ∃ records n, Sheet.Holds delimiter lines records ∧ Sheet.Fitting records n) ∧
    (∀ error, Table.parse name delimiter lines = .error error → error.kind = .configuration) ∧
    ∀ s, Sheet.ofLines name delimiter lines = .ok s →
      ∀ column < s.ruleCount, ∀ r ∈ s.records, r.tag ≠ .header →
        ∃ value, r.values[column]? = some value ∧
          Sheet.cell column r = ⟨.row r.tag, r.subject, value⟩ := by
  refine ⟨⟨?accepted, ?fits⟩, ?fails, ?cells⟩
  case accepted =>
    rintro ⟨t, accepted⟩
    obtain ⟨s, read, rfl⟩ := exists_sheet_of_parse accepted
    obtain ⟨single, _, holds, fitting⟩ := Sheet.ofLines_eq_ok_iff.mp read
    exact ⟨single, s.records, s.ruleCount, holds, fitting⟩
  case fits =>
    rintro ⟨single, records, n, holds, fitting⟩
    let s : Sheet := ⟨name, records⟩
    obtain rfl : s.ruleCount = n := s.ruleCount_spec.unique fitting.even fitting.count
    have read : Sheet.ofLines name delimiter lines = .ok s :=
      Sheet.ofLines_eq_ok_iff.mpr ⟨single, rfl, holds, fitting⟩
    exact ⟨s.table, by rw [parse, read]; rfl⟩
  case fails =>
    intro error failed
    cases read : Sheet.ofLines name delimiter lines with
    | ok s =>
        rw [parse, read] at failed
        cases failed
    | error e =>
        rw [parse, read] at failed
        cases failed
        exact Sheet.kind_of_ofLines read
  case cells =>
    intro s read column inside r member cut
    exact Sheet.cell_eq (Sheet.ofLines_eq_ok_iff.mp read).2.2.2 member cut inside

/-- The lines of a sheet with a remark, a quoted value, and a column for the fallback. -/
def Sheet.shop : List String :=
  ["  # when the shop is open", "HDR;shop;small;large;none", "CND;market::shop;<3;>2", "",
    "OUT;text;\"come; in\";bye;no rule\r\n", " OUT ; outcome;open;closed;-"]

/-- These lines are a sheet, and with a row that is too narrow they are none. -/
theorem Table.shop_is_accepted :
    (∃ records n, Sheet.Holds ";" Sheet.shop records ∧ Sheet.Fitting records n) ∧
      ¬ ∃ records n, Sheet.Holds ";" (Sheet.shop ++ ["ASG;counter::n;1"]) records ∧
        Sheet.Fitting records n := by
  have accepted : (Table.parse "shop" ";" Sheet.shop).toBool = true := by decide +kernel
  have refused : (Table.parse "shop" ";" (Sheet.shop ++ ["ASG;counter::n;1"])).toBool = false := by
    decide +kernel
  constructor
  · refine ((parse_accepts_exactly "shop" ";" Sheet.shop).1.mp ?_).2
    cases read : Table.parse "shop" ";" Sheet.shop with
    | ok t => exact ⟨t, rfl⟩
    | error e =>
        rw [read] at accepted
        cases accepted
  · intro fits
    obtain ⟨t, read⟩ := (parse_accepts_exactly "shop" ";" _).1.mpr ⟨rfl, fits⟩
    rw [read] at refused
    cases refused

end DecisionTables
