import Mathlib
import DecisionTables.Proofs.Reads
import DecisionTables.Proofs.Tallying

/-!
# What a report loses

A report tells of rules by their names, and so it can tell of only one of the rules with one
name that fail, or that cannot be tested.  It accounts for every rule exactly where of any two
rules with one name both pass.  Rules that are named by their sheets and columns never have one
name; but labels in a header are taken as they are.
-/

namespace DecisionTables

/-! ## Keys -/

namespace Assoc

variable {κ : Type u} {ν : Type v} [BEq κ] [LawfulBEq κ] {entries : List (κ × ν)}

theorem mem_of_mem_ofList {entry : κ × ν} (member : entry ∈ ofList entries) : entry ∈ entries :=
  forall_mem_insertAll (P := (· ∈ entries)) (fun _ impossible => absurd impossible List.not_mem_nil)
    (fun _ inside => inside) entry member

theorem Distinct.nodup_keys {a : Assoc κ ν} (distinct : Distinct a) : a.keys.Nodup :=
  ((distinct_iff_keys a).mp distinct).imp beq_eq_false_iff_ne.mp

/-- An association has as many entries as it was built of only if no two of these have one key. -/
theorem length_ofList (entries : List (κ × ν)) :
    (ofList entries).length ≤ entries.length ∧
      ((ofList entries).length = entries.length ↔ Distinct entries) := by
  have single : (ofList entries).keys.Nodup := Distinct.nodup_keys (distinct_ofList entries)
  have within : (ofList entries).Subperm entries :=
    (List.Nodup.of_map Prod.fst single).subperm fun _ => mem_of_mem_ofList
  refine ⟨within.length_le, fun full => ?_, fun distinct => congrArg List.length distinct.ofList_eq⟩
  have perm := within.perm_of_length_le (Nat.le_of_eq full.symm)
  exact perm.pairwise (distinct_ofList entries) fun differ => by rw [BEq.comm]; exact differ

end Assoc

/-! ## Names -/

namespace Sheet

/-- The name of a rule after its sheet and its column. -/
def numbered (name : String) (column : Nat) : String :=
  name ++ Coordinate.separator ++ "rule_" ++ columnText column

theorem toList_columnText (column : Nat) :
    (columnText column).toList = Nat.toDigits 10 column ∨
      (columnText column).toList = '0' :: Nat.toDigits 10 column := by
  rw [columnText, Nat.toString_eq_ofList_toDigits]
  split
  · exact .inr (String.toList_append.trans (congrArg ('0' :: ·) String.toList_ofList))
  · exact .inl String.toList_ofList

/-- A column number is read off its digits. -/
theorem ofDigitChars_columnText (column : Nat) :
    Nat.ofDigitChars 10 (columnText column).toList 0 = column := by
  rcases toList_columnText column with digits | digits
  · rw [digits, Nat.ofDigitChars_ten_toDigits]
  · rw [digits]
    exact Nat.ofDigitChars_ten_toDigits

theorem isDigit_of_mem_columnText {column : Nat} {c : Char} (member : c ∈ (columnText column).toList) :
    c.isDigit = true := by
  rcases toList_columnText column with digits | digits
  · rw [digits] at member
    exact Nat.isDigit_of_mem_toDigits (by decide) (by decide) member
  · rw [digits] at member
    rcases List.mem_cons.mp member with rfl | inside
    · rfl
    · exact Nat.isDigit_of_mem_toDigits (by decide) (by decide) inside

theorem ne_mark_of_mem_columnText {column : Nat} {c : Char} (member : c ∈ (columnText column).toList) :
    (c != '_') = true := by
  rw [bne_iff_ne]
  rintro rfl
  cases isDigit_of_mem_columnText member

/-- Sheet and column are read off the name of a rule: the column is what follows the last mark. -/
theorem numbered_inj {name name' : String} {column column' : Nat}
    (same : numbered name column = numbered name' column') : name = name' ∧ column = column' := by
  have digits : ∀ (name : String) (column : Nat),
      ((numbered name column).toList.reverse.takeWhile (· != '_')) =
        (columnText column).toList.reverse := by
    intro name column
    have inner : ∀ c ∈ (columnText column).toList.reverse, (c != '_') = true :=
      fun c member => ne_mark_of_mem_columnText (List.mem_reverse.mp member)
    rw [numbered, String.toList_append, String.toList_append, List.reverse_append, List.reverse_append,
      List.takeWhile_append_of_pos inner]
    exact List.append_nil _
  have column_eq : column = column' := by
    have shown := digits name column
    rw [same, digits name' column', List.reverse_inj] at shown
    rw [← ofDigitChars_columnText column, ← ofDigitChars_columnText column', shown]
  rw [column_eq] at same
  exact ⟨(String.append_left_inj _).mp ((String.append_left_inj _).mp ((String.append_left_inj _).mp same)),
    column_eq⟩

/-- The lines of a sheet, with its name and its delimiter. -/
structure Written where
  name : String
  delimiter : String
  lines : List String

/-- The lines make up a table. -/
def Written.Makes (w : Written) (t : Table) : Prop :=
  Table.parse w.name w.delimiter w.lines = .ok t

/-- None of the lines is a header. -/
def Written.Plain (w : Written) : Prop :=
  ∀ records, Holds w.delimiter w.lines records → ∀ r ∈ records, r.tag ≠ .header

/-- Without a header a table has the name of its sheet, and its rules are numbered. -/
theorem Written.Plain.names {w : Written} {t : Table} (plain : w.Plain) (makes : w.Makes t) :
    t.rules.map Rule.name = (List.range t.rules.length).map (numbered t.name) := by
  obtain ⟨s, read, rfl⟩ := Table.exists_sheet_of_parse makes
  obtain ⟨_, _, holds, _⟩ := ofLines_eq_ok_iff.mp read
  have none : s.rows .header = [] := by
    rw [rows, List.filter_eq_nil_iff]
    exact fun r member header => plain s.records holds r member (of_decide_eq_true header)
  rw [length_rules_table, table, List.map_map]
  refine List.map_congr_left fun column _ => ?_
  change s.label column = numbered s.tableName column
  rw [label, tableName, none]
  rfl

end Sheet

namespace Catalog

variable {tables : List Table}

theorem mem_of_mem_ofList {t : Table} (member : t ∈ (ofList tables).tables) : t ∈ tables := by
  obtain ⟨entry, inside, rfl⟩ := List.mem_map.mp member
  obtain ⟨t, given, rfl⟩ := List.mem_map.mp (Assoc.mem_of_mem_ofList inside)
  exact given

/-- No two tables of a catalog have one name. -/
theorem names_apart (tables : List Table) :
    (ofList tables).tables.Pairwise fun t u => t.name ≠ u.name := by
  refine List.pairwise_map.mpr ((Assoc.distinct_ofList _).imp_of_mem fun member member' differ => ?_)
  rw [name_of_mem_entries member, name_of_mem_entries member']
  exact beq_eq_false_iff_ne.mp differ

/-- Rules that are numbered in all tables have different names. -/
theorem nodup_rule_names (numbers : ∀ t ∈ tables,
      t.rules.map Rule.name = (List.range t.rules.length).map (Sheet.numbered t.name)) :
    (((ofList tables).tables.flatMap Table.rules).map Rule.name).Nodup := by
  rw [List.map_flatMap, List.nodup_flatMap]
  constructor
  · intro t member
    rw [numbers t (mem_of_mem_ofList member)]
    exact List.nodup_range.map fun column column' same => (Sheet.numbered_inj same).2
  · refine (names_apart tables).imp_of_mem fun {t u} member member' differ => ?_
    rw [Function.onFun, List.disjoint_left, numbers t (mem_of_mem_ofList member),
      numbers u (mem_of_mem_ofList member')]
    rintro name here there
    obtain ⟨column, _, rfl⟩ := List.mem_map.mp here
    obtain ⟨column', _, same⟩ := List.mem_map.mp there
    exact differ (Sheet.numbered_inj same).1.symm

end Catalog

namespace Report

/-! ## Accounts -/

/-- A report accounts for every rule exactly once: there are as many entries as rules, no name is in two
places, and what a rule found, or the message that it ended with, is there under its name. -/
structure Accounts (report : Report) (tested : Rule → Except Fault (List Failure)) (rules : List Rule) :
    Prop where
  count : report.passed.length + report.failures.length + report.errors.length = rules.length
  apart : ∀ name, ¬ (name ∈ report.passed ∧ report.failures.contains name) ∧
    ¬ (name ∈ report.passed ∧ report.errors.contains name) ∧
    ¬ (report.failures.contains name ∧ report.errors.contains name)
  failures : ∀ r ∈ rules, ∀ found, findings? (tested r) = some found →
    report.failures.find? r.name = some found
  errors : ∀ r ∈ rules, ∀ message, message? (tested r) = some message →
    report.errors.find? r.name = some message

/-- Two rules both pass, if they have one name. -/
def Discerns (tested : Rule → Except Fault (List Failure)) (r r' : Rule) : Prop :=
  r.name = r'.name → tested r = .ok [] ∧ tested r' = .ok []

instance (tested : Rule → Except Fault (List Failure)) : Std.Symm (Discerns tested) :=
  ⟨fun _ _ both same => (both same.symm).symm⟩

section

variable {tested : Rule → Except Fault (List Failure)} {rules : List Rule} {r : Rule} {name : String}
  {α : Type} {tell : Rule → Option α}

theorem mem_named_iff {told : α} :
    (name, told) ∈ named tell rules ↔ ∃ r ∈ rules, r.name = name ∧ tell r = some told := by
  simp only [named, List.mem_filterMap, Option.map_eq_some_iff, Prod.mk.injEq]
  constructor
  · rintro ⟨r, member, _, tells, rfl, rfl⟩
    exact ⟨r, member, rfl, tells⟩
  · rintro ⟨r, member, rfl, tells⟩
    exact ⟨r, member, told, tells, rfl, rfl⟩

theorem contains_named_iff : (Assoc.ofList (named tell rules)).contains name = true ↔
    ∃ r ∈ rules, r.name = name ∧ (tell r).isSome := by
  rw [Assoc.contains_ofList_iff]
  simp only [mem_named_iff, Option.isSome_iff_exists]
  constructor
  · rintro ⟨told, r, member, same, tells⟩
    exact ⟨r, member, same, told, tells⟩
  · rintro ⟨r, member, same, told, tells⟩
    exact ⟨told, r, member, same, tells⟩

/-- The entries have different keys exactly where the rules that are told of have different names. -/
theorem distinct_named_iff : (named tell rules).Distinct ↔
    rules.Pairwise fun r r' => (tell r).isSome → (tell r').isSome → r.name ≠ r'.name := by
  rw [Assoc.Distinct, named, List.pairwise_filterMap]
  simp only [Option.map_eq_some_iff, Option.isSome_iff_exists, beq_eq_false_iff_ne]
  refine List.Pairwise.iff fun r r' => ⟨?_, ?_⟩
  · rintro differ ⟨told, tells⟩ ⟨told', tells'⟩
    exact differ _ ⟨told, tells, rfl⟩ _ ⟨told', tells', rfl⟩
  · rintro differ _ ⟨told, tells, rfl⟩ _ ⟨told', tells', rfl⟩
    exact differ ⟨told, tells⟩ ⟨told', tells'⟩

theorem passes_iff {told : Except Fault (List Failure)} : passes told = true ↔ told = .ok [] := by
  unfold passes
  split
  · exact iff_of_true rfl rfl
  · rename_i differ
    exact iff_of_false Bool.false_ne_true differ

/-- Every rule passes, finds something or ends with an error, and only one of these. -/
theorem Recordable.told {told : Except Fault (List Failure)} (recordable : Recordable told) :
    passes told = true ∧ findings? told = none ∧ message? told = none ∨
    passes told = false ∧ (∃ found, findings? told = some found) ∧ message? told = none ∨
    passes told = false ∧ findings? told = none ∧ ∃ message, message? told = some message := by
  obtain ⟨result, rfl⟩ := recordable.exists_result
  rcases result with error | _ | ⟨failure, more⟩
  · exact .inr (.inr ⟨rfl, rfl, _, rfl⟩)
  · exact .inl ⟨rfl, rfl, rfl⟩
  · exact .inr (.inl ⟨rfl, ⟨_, rfl⟩, rfl⟩)

/-- There are as many entries as rules before those with one name are put together. -/
theorem length_named (recordable : ∀ r ∈ rules, Recordable (tested r)) :
    (rules.filter fun r => passes (tested r)).length +
      (named (fun r => findings? (tested r)) rules).length +
      (named (fun r => message? (tested r)) rules).length = rules.length := by
  induction rules with
  | nil => rfl
  | cons r rest ih =>
      obtain ⟨first, recordable⟩ := List.forall_mem_cons.mp recordable
      have counted := ih recordable
      rw [named, named] at counted ⊢
      rcases first.told with ⟨pass, sound, ended⟩ | ⟨pass, ⟨found, sound⟩, ended⟩ |
          ⟨pass, sound, message, ended⟩ <;>
        simp only [List.filter_cons, List.filterMap_cons, pass, sound, ended, Option.map_none,
          Option.map_some, List.length_cons, Bool.false_eq_true, if_true, if_false] <;>
        omega

theorem findings?_eq_none (passed : tested r = .ok []) : findings? (tested r) = none := by
  rw [passed]
  rfl

theorem message?_eq_none (passed : tested r = .ok []) : message? (tested r) = none := by
  rw [passed]
  rfl

/-- Where of two rules with one name both pass, what is told of the others has different keys. -/
theorem distinct_named_of_discerns (discerned : rules.Pairwise (Discerns tested))
    (silent : ∀ r, tested r = .ok [] → tell r = none) : (named tell rules).Distinct := by
  refine distinct_named_iff.mpr (discerned.imp fun {r r'} both told _ same => ?_)
  rw [silent r (both same).1] at told
  cases told

variable {tables : List Table}

/-- No more is told than there are rules, and as much only if what is told has different keys. -/
theorem length_of (recordable : ∀ r ∈ tables.flatMap Table.rules, Recordable (tested r)) :
    let report := of tables tested
    let told := report.passed.length + report.failures.length + report.errors.length
    told ≤ (tables.flatMap Table.rules).length ∧
      (told = (tables.flatMap Table.rules).length ↔
        (named (fun r => findings? (tested r)) (tables.flatMap Table.rules)).Distinct ∧
          (named (fun r => message? (tested r)) (tables.flatMap Table.rules)).Distinct) := by
  intro report told
  have total := length_named recordable
  have passed : report.passed.length =
      ((tables.flatMap Table.rules).filter fun r => passes (tested r)).length := List.length_map _
  obtain ⟨fewer, full⟩ :=
    Assoc.length_ofList (named (fun r => findings? (tested r)) (tables.flatMap Table.rules))
  obtain ⟨fewer', full'⟩ :=
    Assoc.length_ofList (named (fun r => message? (tested r)) (tables.flatMap Table.rules))
  change report.failures.length ≤ _ at fewer
  change report.errors.length ≤ _ at fewer'
  rw [← full, ← full']
  change told ≤ _ ∧ (told = _ ↔ report.failures.length = _ ∧ report.errors.length = _)
  omega

/-- The entry of a rule tells how its test ended. -/
theorem entry_of_mem (tested : Rule → Except Fault (List Failure)) (member : r ∈ tables.flatMap Table.rules) :
    (passes (tested r) = true → r.name ∈ (of tables tested).passed) ∧
    ((∃ found, findings? (tested r) = some found) → (of tables tested).failures.contains r.name) ∧
    ((∃ message, message? (tested r) = some message) → (of tables tested).errors.contains r.name) := by
  refine ⟨fun pass => ?_, fun ⟨found, told⟩ => ?_, fun ⟨message, told⟩ => ?_⟩
  · exact List.mem_map_of_mem (List.mem_filter.mpr ⟨member, pass⟩)
  · exact contains_named_iff.mpr ⟨r, member, rfl, Option.isSome_iff_exists.mpr ⟨found, told⟩⟩
  · exact contains_named_iff.mpr ⟨r, member, rfl, Option.isSome_iff_exists.mpr ⟨message, told⟩⟩

theorem Accounts.discerns (recordable : ∀ r ∈ tables.flatMap Table.rules, Recordable (tested r))
    (accounts : (of tables tested).Accounts tested (tables.flatMap Table.rules)) :
    (tables.flatMap Table.rules).Pairwise (Discerns tested) := by
  obtain ⟨failing, erring⟩ := (length_of recordable).2.mp accounts.count
  refine ((distinct_named_iff.mp failing).and (distinct_named_iff.mp erring)).imp_of_mem ?_
  rintro r r' member member' ⟨fail, err⟩ same
  obtain ⟨passed_failing, passed_erring, failing_erring⟩ := accounts.apart r.name
  obtain ⟨passed, failed, ended⟩ := entry_of_mem tested member
  obtain ⟨passed', failed', ended'⟩ := entry_of_mem tested member'
  rw [← same] at passed' failed' ended'
  rcases (recordable r member).told with ⟨pass, _, _⟩ | ⟨_, found, _⟩ | ⟨_, _, message⟩ <;>
    rcases (recordable r' member').told with ⟨pass', _, _⟩ | ⟨_, found', _⟩ | ⟨_, _, message'⟩
  · exact ⟨passes_iff.mp pass, passes_iff.mp pass'⟩
  · exact (passed_failing ⟨passed pass, failed' found'⟩).elim
  · exact (passed_erring ⟨passed pass, ended' message'⟩).elim
  · exact (passed_failing ⟨passed' pass', failed found⟩).elim
  · exact (fail (Option.isSome_iff_exists.mpr found) (Option.isSome_iff_exists.mpr found') same).elim
  · exact (failing_erring ⟨failed found, ended' message'⟩).elim
  · exact (passed_erring ⟨passed' pass', ended message⟩).elim
  · exact (failing_erring ⟨failed' found', ended message⟩).elim
  · exact (err (Option.isSome_iff_exists.mpr message) (Option.isSome_iff_exists.mpr message') same).elim

theorem mem_passed_iff : name ∈ (of tables tested).passed ↔
    ∃ r ∈ tables.flatMap Table.rules, r.name = name ∧ tested r = .ok [] := by
  simp only [of, List.mem_map, List.mem_filter, passes_iff]
  constructor
  · rintro ⟨r, ⟨member, passed⟩, same⟩
    exact ⟨r, member, same, passed⟩
  · rintro ⟨r, member, same, passed⟩
    exact ⟨r, ⟨member, passed⟩, same⟩

theorem tested_eq_of_discerns (discerned : rules.Pairwise (Discerns tested)) {r' : Rule}
    (member : r ∈ rules) (member' : r' ∈ rules) (same : r.name = r'.name) : tested r = tested r' := by
  by_cases equal : r = r'
  · rw [equal]
  · obtain ⟨passed, passed'⟩ := discerned.forall member member' equal same
    rw [passed, passed']

theorem Accounts.of_discerns (recordable : ∀ r ∈ tables.flatMap Table.rules, Recordable (tested r))
    (discerned : (tables.flatMap Table.rules).Pairwise (Discerns tested)) :
    (of tables tested).Accounts tested (tables.flatMap Table.rules) := by
  have failing := distinct_named_of_discerns discerned fun r => findings?_eq_none
  have erring := distinct_named_of_discerns discerned fun r => message?_eq_none
  refine ⟨(length_of recordable).2.mpr ⟨failing, erring⟩, fun name => ⟨?_, ?_, ?_⟩, ?_, ?_⟩
  · rintro ⟨passed, failed⟩
    obtain ⟨r, member, rfl, pass⟩ := mem_passed_iff.mp passed
    obtain ⟨r', member', same, found⟩ := contains_named_iff.mp failed
    rw [tested_eq_of_discerns discerned member' member same, findings?_eq_none pass] at found
    cases found
  · rintro ⟨passed, ended⟩
    obtain ⟨r, member, rfl, pass⟩ := mem_passed_iff.mp passed
    obtain ⟨r', member', same, message⟩ := contains_named_iff.mp ended
    rw [tested_eq_of_discerns discerned member' member same, message?_eq_none pass] at message
    cases message
  · rintro ⟨failed, ended⟩
    obtain ⟨r, member, rfl, found⟩ := contains_named_iff.mp failed
    obtain ⟨r', member', same, message⟩ := contains_named_iff.mp ended
    rw [tested_eq_of_discerns discerned member' member same] at message
    rcases (recordable r member).told with ⟨_, sound, _⟩ | ⟨_, _, quiet⟩ | ⟨_, sound, _⟩
    · rw [sound] at found
      cases found
    · rw [quiet] at message
      cases message
    · rw [sound] at found
      cases found
  · intro r member found told
    rw [of, failing.ofList_eq]
    exact failing.find?_of_mem (mem_named_iff.mpr ⟨r, member, rfl, told⟩)
  · intro r member message told
    rw [of, erring.ofList_eq]
    exact erring.find?_of_mem (mem_named_iff.mpr ⟨r, member, rfl, told⟩)

/-- A report accounts for every rule exactly where of any two rules with one name both pass. -/
theorem accounts_iff (recordable : ∀ r ∈ tables.flatMap Table.rules, Recordable (tested r)) :
    (of tables tested).Accounts tested (tables.flatMap Table.rules) ↔
      (tables.flatMap Table.rules).Pairwise (Discerns tested) :=
  ⟨Accounts.discerns recordable, Accounts.of_discerns recordable⟩

theorem discerns_of_nodup (apart : (rules.map Rule.name).Nodup) : rules.Pairwise (Discerns tested) :=
  (List.pairwise_map.mp apart).imp fun differ same => (differ same).elim

end

end Report

namespace Session

/-- A report on the tables of some sheets counts all rules and tells of each how its test ended.  But it
tells this of their names, so it has at most as many entries as there are rules.  It accounts for every rule
exactly once, with what its own test gave, if and only if of any two rules with one name both pass.  It
always does where the sheets have no headers: then the rules are numbered, and no two of them have one
name. -/
theorem reports_account_by_name {room : Option Nat} {s : Session} (reached : s.Reached room) {k : Nat}
    {ctx : ContextId} (opened : s.contexts[k]? = some ctx) {sheets : List Sheet.Written}
    {tables : List Table} (accepted : List.Forall₂ Sheet.Written.Makes sheets tables)
    (recordable : ∀ r ∈ (Catalog.ofList tables).tables.flatMap Table.rules,
      Report.Recordable (r.testedIn ctx s.store)) :
    let rules := (Catalog.ofList tables).tables.flatMap Table.rules
    ∃ report, (runFrom (Report.ofCatalog ctx (Catalog.ofList tables)) s.store).1 = .ok report ∧
      report.rules = rules.length ∧
      report.passed.length + report.failures.length + report.errors.length ≤ rules.length ∧
      (∀ r ∈ rules, (r.testedIn ctx s.store = .ok [] → r.name ∈ report.passed) ∧
        ((∃ found, Report.findings? (r.testedIn ctx s.store) = some found) →
          report.failures.contains r.name) ∧
        ((∃ message, Report.message? (r.testedIn ctx s.store) = some message) →
          report.errors.contains r.name)) ∧
      (report.Accounts (Rule.testedIn ctx s.store) rules ↔
        rules.Pairwise (Report.Discerns (Rule.testedIn ctx s.store))) ∧
      ((∀ w ∈ sheets, w.Plain) → report.Accounts (Rule.testedIn ctx s.store) rules) := by
  intro rules
  have ran : (runFrom (Report.ofCatalog ctx (Catalog.ofList tables)) s.store).1 =
      .ok (Report.of (Catalog.ofList tables).tables (Rule.testedIn ctx s.store)) := by
    rw [Report.ofCatalog, Report.runFrom_addTables (reached.likens opened) recordable,
      Report.tallied_empty]
  refine ⟨_, ran, rfl, (Report.length_of recordable).1, fun r member => ?_,
    Report.accounts_iff recordable, fun plain => ?_⟩
  · obtain ⟨passed, failed, ended⟩ := Report.entry_of_mem (Rule.testedIn ctx s.store) member
    exact ⟨fun pass => passed (Report.passes_iff.mpr pass), failed, ended⟩
  · have numbers : ∀ t ∈ tables,
        t.rules.map Rule.name = (List.range t.rules.length).map (Sheet.numbered t.name) := by
      intro t member
      obtain ⟨w, inside, makes⟩ := exists_of_forall₂_mem accepted member
      exact (plain w inside).names makes
    exact Report.Accounts.of_discerns recordable
      (Report.discerns_of_nodup (Catalog.nodup_rule_names numbers))

/-- A condition on the fragment with a text, for a rule with a name. -/
def guess (name text : String) : Rule := ⟨name, [⟨.row .condition, "x::n", text⟩]⟩

/-- A sheet without a header, with one rule that holds and two that do not. -/
def guessed : Sheet.Written := ⟨"t", ";", ["CND;x::n;0;1;2"]⟩

theorem guessed_is_accounted_for : ∃ t report, guessed.Makes t ∧
    (runFrom (Report.ofCatalog ⟨0⟩ (.ofList [t])) watching.store).1 = .ok report ∧
    report.Accounts (Rule.testedIn ⟨0⟩ watching.store) ((Catalog.ofList [t]).tables.flatMap Table.rules) := by
  have reached : watching.Reached none := ⟨_, rfl⟩
  have opened : watching.contexts[0]? = some ⟨0⟩ := by cbv
  let t : Table := ⟨"t", [guess "t::rule_00" "0", guess "t::rule_01" "1", guess "t::rule_02" "2"],
    Rule.otherwise "t" []⟩
  have makes : guessed.Makes t := by
    rw [Sheet.Written.Makes]
    decide +kernel
  have recordable : ∀ r ∈ (Catalog.ofList [t]).tables.flatMap Table.rules,
      Report.Recordable (r.testedIn ⟨0⟩ watching.store) := by
    have holds : (guess "t::rule_00" "0").testedIn ⟨0⟩ watching.store = .ok [] := by decide +kernel
    have fails : (guess "t::rule_01" "1").testedIn ⟨0⟩ watching.store = .ok [⟨"x::n 1", "0"⟩] := by
      decide +kernel
    have fails' : (guess "t::rule_02" "2").testedIn ⟨0⟩ watching.store = .ok [⟨"x::n 2", "0"⟩] := by
      decide +kernel
    exact List.forall_mem_cons.mpr ⟨.of_ok holds, List.forall_mem_cons.mpr
      ⟨.of_ok fails, List.forall_mem_singleton.mpr (.of_ok fails')⟩⟩
  have plain : guessed.Plain := by
    intro records holds r member
    have read : Sheet.readRecords ";" guessed.lines =
        .ok [⟨.condition, "x::n", ["0", "1", "2"]⟩] := by decide +kernel
    cases (Sheet.readRecords_eq_ok_iff.mpr holds).symm.trans read
    rw [List.mem_singleton.mp member]
    decide
  obtain ⟨report, ran, _, _, _, _, accounts⟩ :=
    reports_account_by_name reached opened (.cons makes .nil) recordable
  exact ⟨t, report, makes, ran, accounts (List.forall_mem_singleton.mpr plain)⟩

/-- A sheet whose header gives two rules one name. -/
def twins : Sheet.Written := ⟨"t", ";", ["HDR;t;a;a", "CND;x::n;1;2"]⟩

/-- Neither rule of it holds, and what the first one found is lost. -/
theorem twins_lose_a_failure : ∃ t report, twins.Makes t ∧
    (runFrom (Report.ofCatalog ⟨0⟩ (.ofList [t])) watching.store).1 = .ok report ∧
    report = ⟨1, 2, [], [("t::a", [⟨"x::n 2", "0"⟩])], []⟩ ∧
    ¬ report.Accounts (Rule.testedIn ⟨0⟩ watching.store)
      ((Catalog.ofList [t]).tables.flatMap Table.rules) := by
  refine ⟨⟨"t", [guess "t::a" "1", guess "t::a" "2"], Rule.otherwise "t" []⟩, _, ?_, ?_, rfl, ?_⟩
  · rw [Sheet.Written.Makes]
    decide +kernel
  · decide +kernel
  · -- there are two rules and one entry
    intro accounts
    have count := accounts.count
    revert count
    decide

end Session

end DecisionTables
