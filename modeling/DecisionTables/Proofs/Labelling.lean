import Mathlib
import DecisionTables.Proofs.Accounting

/-!
# Names that find their rules

A rule is asked for by its full name or by its label, and the first rule that answers to either is
given.  So rules are found as long as no two of them answer to one name, and as long as their names
start with the name of the table.  A header sees to that with labels that differ; but where it leaves a
label empty, the rule is named after the sheet, and that may have another name than the table.
-/

namespace DecisionTables

namespace Table

/-! ## Asking for a rule -/

/-- The name of the rule with a label. -/
def fullName (t : Table) (label : String) : String :=
  t.name ++ Coordinate.separator ++ label

/-- A rule answers to a name that is its own, or that is its label in the table. -/
def AnswersTo (t : Table) (r : Rule) (name : String) : Prop :=
  r.name = name ∨ r.name = t.fullName name

/-- Two names are asked for by one text. -/
def Confuses (t : Table) (name name' : String) : Prop :=
  name = name' ∨ name = t.fullName name' ∨ name' = t.fullName name

/-- A rule is named after the table, and it is found under its name and under its label. -/
def Finds (t : Table) (r : Rule) : Prop :=
  ∃ label, r.name = t.fullName label ∧ t.rule? r.name = some r ∧ t.rule? label = some r

section

variable {t : Table} {r r' : Rule} {name label label' : String}

theorem fullName_inj (same : t.fullName label = t.fullName label') : label = label' :=
  (String.append_right_inj _).mp same

theorem answersTo_of_rule? (found : t.rule? name = some r) : t.AnswersTo r name := by
  have answers := List.find?_some found
  rw [Bool.or_eq_true, beq_iff_eq, beq_iff_eq] at answers
  exact answers

/-- If a declared rule answers, the fallback is not asked. -/
theorem exists_rule? (member : r ∈ t.rules) (answers : t.AnswersTo r name) :
    ∃ r' ∈ t.rules, t.rule? name = some r' := by
  let asked : Rule → Bool := fun rule =>
    rule.name == name || rule.name == t.name ++ Coordinate.separator ++ name
  have answered : asked r = true := by
    rw [Bool.or_eq_true, beq_iff_eq, beq_iff_eq]
    exact answers
  obtain ⟨r', found⟩ := Option.isSome_iff_exists.mp (List.find?_isSome.mpr ⟨r, member, answered⟩)
  refine ⟨r', List.mem_of_find?_eq_some found, ?_⟩
  change (t.rules ++ [t.otherwise]).find? asked = some r'
  rw [List.find?_append, found]
  rfl

/-- A rule is found under a name that it answers to, if no other declared rule answers to it. -/
theorem rule?_eq_some (member : r ∈ t.rules) (answers : t.AnswersTo r name)
    (alone : ∀ r' ∈ t.rules, t.AnswersTo r' name → r = r') : t.rule? name = some r := by
  obtain ⟨r', member', found⟩ := exists_rule? member answers
  rw [found, ← alone r' member' (answersTo_of_rule? found)]

theorem Finds.eq_of_confuses (found : t.Finds r) (found' : t.Finds r')
    (confused : t.Confuses r.name r'.name) : r = r' := by
  obtain ⟨label, named, byName, byLabel⟩ := found
  obtain ⟨label', named', byName', byLabel'⟩ := found'
  rcases confused with same | under | under
  · rw [same] at byName
    exact Option.some.inj (byName.symm.trans byName')
  · rw [fullName_inj (named.symm.trans under)] at byLabel
    exact Option.some.inj (byLabel.symm.trans byName')
  · rw [fullName_inj (named'.symm.trans under)] at byLabel'
    exact Option.some.inj (byName.symm.trans byLabel')

/-- All rules are found exactly where they are named after the table and no two are confused. -/
theorem finds_all_iff : (∀ r ∈ t.rules, t.Finds r) ↔
    (∀ r ∈ t.rules, ∃ label, r.name = t.fullName label) ∧
      ∀ r ∈ t.rules, ∀ r' ∈ t.rules, t.Confuses r.name r'.name → r = r' := by
  constructor
  · intro found
    refine ⟨fun r member => ?_, fun r member r' member' => (found r member).eq_of_confuses (found r' member')⟩
    obtain ⟨label, named, _, _⟩ := found r member
    exact ⟨label, named⟩
  · rintro ⟨names, apart⟩ r member
    obtain ⟨label, named⟩ := names r member
    refine ⟨label, named, ?_, ?_⟩
    · refine rule?_eq_some member (.inl rfl) fun r' member' answers => apart r member r' member' ?_
      rcases answers with same | under
      · exact .inl same.symm
      · exact .inr (.inr under)
    · refine rule?_eq_some member (.inr named) fun r' member' answers => apart r member r' member' ?_
      rcases answers with same | under
      · exact .inr (.inl (same ▸ named))
      · exact .inl (named.trans under.symm)

/-- Labels that differ, and of which none starts as a name of the table does, find their rules. -/
theorem finds_of_labels {labels : List String} (named : t.rules.map Rule.name = labels.map t.fullName)
    (differ : labels.Nodup) (short : ∀ label ∈ labels, ∀ rest, label ≠ t.fullName rest) :
    ∀ r ∈ t.rules, t.Finds r := by
  have labelled : ∀ r ∈ t.rules, ∃ label ∈ labels, r.name = t.fullName label := fun r member => by
    obtain ⟨label, inside, same⟩ := List.mem_map.mp (named ▸ List.mem_map_of_mem member)
    exact ⟨label, inside, same.symm⟩
  have nodup : (t.rules.map Rule.name).Nodup := by
    rw [named]
    exact differ.map fun label label' => fullName_inj
  refine finds_all_iff.mpr ⟨fun r member => ?_, fun r member r' member' confused => ?_⟩
  · obtain ⟨label, _, same⟩ := labelled r member
    exact ⟨label, same⟩
  · obtain ⟨label, inside, same⟩ := labelled r member
    obtain ⟨label', inside', same'⟩ := labelled r' member'
    rcases confused with equal | under | under
    · exact List.inj_on_of_nodup_map nodup member member' equal
    · -- a label would start with the name of the table
      rw [same, same'] at under
      exact (short label inside _ (fullName_inj under)).elim
    · rw [same, same'] at under
      exact (short label' inside' _ (fullName_inj under)).elim

end

end Table

/-! ## Labels of sheets -/

namespace Sheet

/-- No header has a label for a column: there is none, or it leaves the label empty. -/
def Unlabelled (records : List Record) (column : Nat) : Prop :=
  ∀ header ∈ records, header.tag = .header → header.values[column]? = some ""

section

variable {s : Sheet} {header : Record} {name table label : String} {column : Nat}

theorem Fitting.head?_header (fitting : Fitting s.records s.ruleCount) (member : header ∈ s.records)
    (tag : header.tag = .header) : (s.rows .header).head? = some header := by
  have single : (s.rows .header).length ≤ 1 := fitting.header
  have inside : header ∈ s.rows .header := mem_rows.mpr ⟨member, tag⟩
  match s.rows .header, single, inside with
  | [_], _, inside => rw [List.mem_singleton.mp inside]; rfl

theorem head?_header_eq_none (absent : ∀ r ∈ s.records, r.tag ≠ .header) :
    (s.rows .header).head? = none := by
  rw [List.head?_eq_none_iff, rows, List.filter_eq_nil_iff]
  exact fun r member header => absent r member (of_decide_eq_true header)

/-- A header has a label for each rule, which may be empty. -/
theorem Fitting.exists_label (fitting : Fitting s.records s.ruleCount) (member : header ∈ s.records)
    (tag : header.tag = .header) (inside : column < s.ruleCount) :
    ∃ label, header.values[column]? = some label := by
  have wide : column < header.values.length := by
    rcases fitting.longer header member (.inl tag) with same | longer
    · exact Nat.lt_of_lt_of_eq inside same.symm
    · exact Nat.lt_of_lt_of_eq (Nat.lt_succ_of_lt inside) longer.symm
  exact ⟨_, List.getElem?_eq_getElem wide⟩

theorem label_of_header (first : (s.rows .header).head? = some header)
    (written : header.values[column]? = some label) (filled : label ≠ "") :
    s.label column = header.subject ++ Coordinate.separator ++ label := by
  have notEmpty : label.isEmpty = false := by
    rw [Bool.eq_false_iff, ne_eq, String.isEmpty_iff]
    exact filled
  simp only [Sheet.label, first, written, notEmpty, Bool.false_eq_true, if_false]

/-- Without a label a rule is named after its sheet, whatever the name of the table. -/
theorem label_of_unlabelled (bare : Unlabelled s.records column) :
    s.label column = numbered s.name column := by
  cases first : (s.rows .header).head? with
  | none =>
      rw [Sheet.label, first]
      rfl
  | some header =>
      obtain ⟨member, tag⟩ := mem_rows.mp (List.mem_of_head? first)
      simp only [Sheet.label, first, bare header member tag]
      rfl

theorem ne_colon_of_mem_number {c : Char} (member : c ∈ ("rule_" ++ columnText column).toList) :
    c ≠ ':' := by
  rw [String.toList_append] at member
  rcases List.mem_append.mp member with letter | digit
  · rintro rfl
    revert letter
    decide
  · rintro rfl
    cases isDigit_of_mem_columnText digit

theorem numbered_eq (name : String) (column : Nat) :
    numbered name column = name ++ Coordinate.separator ++ ("rule_" ++ columnText column) :=
  String.append_assoc

theorem concat_separator (table : String) :
    (table ++ Coordinate.separator).toList = (table.toList ++ [':']) ++ [':'] := by
  rw [String.toList_append, List.append_assoc]
  rfl

/-- A rule that is named after its sheet is named after a table exactly where the name of the sheet is
that of the table, or goes on behind it. -/
theorem exists_label_numbered_iff :
    (∃ label, numbered name column = table ++ Coordinate.separator ++ label) ↔
      ∃ rest, name ++ Coordinate.separator = table ++ Coordinate.separator ++ rest := by
  constructor
  · rintro ⟨label, same⟩
    have split : (name ++ Coordinate.separator).toList ++ ("rule_" ++ columnText column).toList =
        (table ++ Coordinate.separator).toList ++ label.toList := by
      rw [← String.toList_append, ← String.toList_append, ← same, numbered_eq]
    rcases List.append_eq_append_iff.mp split with ⟨more, longer, inside⟩ | ⟨rest, under, _⟩
    · -- the name of the table would end in what follows the name of the sheet, but that has no colon
      rcases List.eq_nil_or_concat' more with rfl | ⟨start, c, rfl⟩
      · refine ⟨"", String.toList_inj.mp ?_⟩
        rw [String.append_empty, longer, List.append_nil]
      · rw [concat_separator table, ← List.append_assoc] at longer
        have colon : ':' = c := List.singleton_inj.mp (List.append_inj' longer rfl).2
        have member : c ∈ ("rule_" ++ columnText column).toList := by
          rw [inside]
          simp
        exact (ne_colon_of_mem_number member colon.symm).elim
    · refine ⟨String.ofList rest, String.toList_inj.mp ?_⟩
      rw [under, String.toList_append (t := String.ofList rest), String.toList_ofList]
  · rintro ⟨rest, under⟩
    refine ⟨rest ++ ("rule_" ++ columnText column), ?_⟩
    rw [numbered_eq, under, String.append_assoc]

/-- A number has no colon, so it is no name of a table with something behind it. -/
theorem number_ne_fullName (t : Table) (column : Nat) (rest : String) :
    "rule_" ++ columnText column ≠ t.fullName rest := by
  intro same
  have member : ':' ∈ ("rule_" ++ columnText column).toList := by
    rw [same, Table.fullName, String.toList_append, concat_separator]
    simp
  exact ne_colon_of_mem_number member rfl

end

end Sheet

/-! ## Rules of sheets -/

namespace Table

open Sheet

section

variable {s : Sheet} {header : Record} {label : String} {column : Nat} {r : Rule}

theorem exists_column_of_mem (member : r ∈ s.table.rules) :
    ∃ column < s.ruleCount, r.name = s.label column := by
  obtain ⟨column, inside, rfl⟩ := List.mem_map.mp member
  exact ⟨column, List.mem_range.mp inside, rfl⟩

theorem name_of_header (first : (s.rows .header).head? = some header) :
    s.table.name = header.subject := by
  rw [Sheet.table, tableName, first]
  rfl

theorem name_of_absent (absent : ∀ r ∈ s.records, r.tag ≠ .header) : s.table.name = s.name := by
  rw [Sheet.table, tableName, head?_header_eq_none absent]
  rfl

theorem names_eq (s : Sheet) : s.table.rules.map Rule.name = (List.range s.ruleCount).map s.label :=
  List.map_map

/-- The rules of a sheet are named after its table exactly where a label that is missing does no harm. -/
theorem named_iff (fitting : Fitting s.records s.ruleCount) :
    (∀ r ∈ s.table.rules, ∃ label, r.name = s.table.fullName label) ↔
      ((∃ column < s.ruleCount, Unlabelled s.records column) →
        ∃ rest, s.name ++ Coordinate.separator = s.table.name ++ Coordinate.separator ++ rest) := by
  constructor
  · rintro named ⟨column, inside, bare⟩
    have member : s.rule column ∈ s.table.rules := List.mem_map_of_mem (List.mem_range.mpr inside)
    obtain ⟨label, same⟩ := named _ member
    change s.label column = _ at same
    rw [label_of_unlabelled bare] at same
    exact exists_label_numbered_iff.mp ⟨label, same⟩
  · intro harmless r member
    obtain ⟨column, inside, same⟩ := exists_column_of_mem member
    rw [same]
    by_cases bare : Unlabelled s.records column
    · rw [label_of_unlabelled bare]
      exact exists_label_numbered_iff.mpr (harmless ⟨column, inside, bare⟩)
    · simp only [Unlabelled, not_forall] at bare
      obtain ⟨header, there, tag, filled⟩ := bare
      have first := fitting.head?_header there tag
      obtain ⟨label, written⟩ := fitting.exists_label there tag inside
      refine ⟨label, ?_⟩
      rw [fullName, name_of_header first]
      exact label_of_header first written fun empty => filled (empty ▸ written)

theorem finds_of_absent (absent : ∀ r ∈ s.records, r.tag ≠ .header) :
    ∀ r ∈ s.table.rules, s.table.Finds r := by
  let labels := (List.range s.ruleCount).map fun column => "rule_" ++ columnText column
  have named : s.table.rules.map Rule.name = labels.map s.table.fullName := by
    rw [names_eq, List.map_map]
    refine List.map_congr_left fun column _ => ?_
    rw [label_of_unlabelled fun header member tag => (absent header member tag).elim,
      Function.comp_apply, fullName, name_of_absent absent, numbered_eq]
  have differ : labels.Nodup := by
    refine List.nodup_range.map fun column column' same => ?_
    have numbers : numbered s.name column = numbered s.name column' := by
      rw [numbered_eq, numbered_eq]
      exact congrArg _ same
    exact (numbered_inj numbers).2
  refine finds_of_labels named differ fun label member rest => ?_
  obtain ⟨column, _, rfl⟩ := List.mem_map.mp member
  exact number_ne_fullName _ column rest

theorem finds_of_header (fitting : Fitting s.records s.ruleCount) (member : header ∈ s.records)
    (tag : header.tag = .header) (differ : (header.values.take s.ruleCount).Nodup)
    (filled : ∀ label ∈ header.values.take s.ruleCount,
      label ≠ "" ∧ ∀ rest, label ≠ s.table.fullName rest) :
    ∀ r ∈ s.table.rules, s.table.Finds r := by
  have first := fitting.head?_header member tag
  refine finds_of_labels ?_ differ fun label inside => (filled label inside).2
  rw [names_eq]
  refine List.ext_getElem? fun column => ?_
  rw [List.getElem?_map, List.getElem?_map, List.getElem?_take]
  by_cases inside : column < s.ruleCount
  · obtain ⟨label, written⟩ := fitting.exists_label member tag inside
    have there : label ∈ header.values.take s.ruleCount :=
      List.mem_of_getElem? (i := column) (by rw [List.getElem?_take, if_pos inside, written])
    rw [List.getElem?_range inside, if_pos inside, written, Option.map_some, Option.map_some,
      label_of_header first written (filled label there).1, fullName, name_of_header first]
  · rw [if_neg inside, List.getElem?_eq_none (by rw [List.length_range]; omega)]
    rfl

end

/-- A rule is named after the header of its sheet, and by the label there; where a label is missing it is
numbered, behind the name of the sheet.  All rules are named after their table, and each is found under its
name and under its label, if and only if two things hold.  Where a label is missing, the name of the sheet is
that of the table or goes on behind it; and no name of a rule is that of another rule, or its label.  This is
always so without a header, and with a header whose labels are there, differ, and do not start as the name of
the table with its separator does. -/
theorem parse_finds_rules_exactly {name delimiter : String} {lines : List String} {t : Table}
    (accepted : Table.parse name delimiter lines = .ok t) :
    ∃ records n, Holds delimiter lines records ∧ Fitting records n ∧ t.rules.length = n ∧
      ((∀ r ∈ records, r.tag ≠ .header) → t.name = name) ∧
      (∀ header ∈ records, header.tag = .header → t.name = header.subject) ∧
      (∀ column rule, t.rules[column]? = some rule →
        (Unlabelled records column → rule.name = numbered name column) ∧
        ∀ header ∈ records, header.tag = .header → ∃ label, header.values[column]? = some label ∧
          (label ≠ "" → rule.name = t.fullName label)) ∧
      ((∀ r ∈ t.rules, t.Finds r) ↔
        ((∃ column < n, Unlabelled records column) →
          ∃ rest, name ++ Coordinate.separator = t.name ++ Coordinate.separator ++ rest) ∧
        ∀ r ∈ t.rules, ∀ r' ∈ t.rules, t.Confuses r.name r'.name → r = r') ∧
      ((∀ r ∈ records, r.tag ≠ .header) → ∀ r ∈ t.rules, t.Finds r) ∧
      ∀ header ∈ records, header.tag = .header → (header.values.take n).Nodup →
        (∀ label ∈ header.values.take n, label ≠ "" ∧ ∀ rest, label ≠ t.fullName rest) →
        ∀ r ∈ t.rules, t.Finds r := by
  obtain ⟨s, read, rfl⟩ := exists_sheet_of_parse accepted
  obtain ⟨_, rfl, holds, fitting⟩ := ofLines_eq_ok_iff.mp read
  refine ⟨s.records, s.ruleCount, holds, fitting, s.length_rules_table, name_of_absent,
    fun header member tag => name_of_header (fitting.head?_header member tag), ?names, ?exactly,
    finds_of_absent, fun header => finds_of_header fitting⟩
  case names =>
    intro column rule found
    obtain ⟨inside, rfl⟩ := List.getElem?_eq_some_iff.mp found
    have inside : column < s.ruleCount := Nat.lt_of_lt_of_eq inside s.length_rules_table
    have named : s.table.rules[column].name = s.label column := by
      simp only [Sheet.table, List.getElem_map, List.getElem_range]
      rfl
    rw [named]
    refine ⟨label_of_unlabelled, fun header member tag => ?_⟩
    have first := fitting.head?_header member tag
    obtain ⟨label, written⟩ := fitting.exists_label member tag inside
    refine ⟨label, written, fun filled => ?_⟩
    rw [fullName, name_of_header first]
    exact label_of_header first written filled
  case exactly =>
    rw [finds_all_iff, named_iff fitting]

/-- A sheet whose header has another name and gives each rule a label. -/
def titled : Written := ⟨"sheet", ";", ["HDR;shop;small;large", "CND;market::shop;<3;>2"]⟩

/-- The same sheet with a header that leaves the first label empty. -/
def untitled : Written := ⟨"sheet", ";", ["HDR;shop;;large", "CND;market::shop;<3;>2"]⟩

/-- The table of both sheets, with the name that its first rule has. -/
def shopTable (first : String) : Table :=
  ⟨"shop", [⟨first, [⟨.row .condition, "market::shop", "<3"⟩]⟩,
    ⟨"shop::large", [⟨.row .condition, "market::shop", ">2"⟩]⟩], Rule.otherwise "shop" []⟩

theorem titled_finds_rules : titled.Makes (shopTable "shop::small") ∧
    ∀ r ∈ (shopTable "shop::small").rules, (shopTable "shop::small").Finds r := by
  have makes : titled.Makes (shopTable "shop::small") := by
    rw [Written.Makes]
    decide +kernel
  obtain ⟨records, n, holds, _, count, _, _, _, _, _, found⟩ := parse_finds_rules_exactly makes
  have read : readRecords titled.delimiter titled.lines = .ok [⟨.header, "shop", ["small", "large"]⟩,
      ⟨.condition, "market::shop", ["<3", ">2"]⟩] := by decide +kernel
  cases (readRecords_eq_ok_iff.mpr holds).symm.trans read
  cases count
  refine ⟨makes, found _ List.mem_cons_self rfl (by decide) ?_⟩
  have short : ∀ label ∈ ["small", "large"], label ≠ "" ∧ label.toList[4]? ≠ some ':' := by decide
  intro label member
  refine ⟨(short label member).1, fun rest same => (short label member).2 ?_⟩
  rw [same, fullName, String.toList_append, String.toList_append]
  rfl

/-- The first rule of the second sheet is not named after the table, and neither its number nor its number
behind the name of the table finds it. -/
theorem untitled_loses_rule : ∃ t, untitled.Makes t ∧ t.name = "shop" ∧
    t.rules.map Rule.name = ["sheet::rule_00", "shop::large"] ∧
    t.rule? "rule_00" = none ∧ t.rule? "shop::rule_00" = none ∧ ¬ ∀ r ∈ t.rules, t.Finds r := by
  refine ⟨shopTable "sheet::rule_00", ?_, rfl, rfl, by decide +kernel, by decide +kernel, fun found => ?_⟩
  · rw [Written.Makes]
    decide +kernel
  · obtain ⟨label, named, _, _⟩ := found _ List.mem_cons_self
    have first := congrArg (fun name : String => name.toList[2]?) named
    rw [fullName, String.toList_append, String.toList_append] at first
    simp [shopTable] at first

end Table

end DecisionTables
