import DecisionTables.Proofs.Accepting
import Mathlib.Data.List.Forall2
import Mathlib.Data.List.Nodup
import Mathlib.Data.Set.Function
import Mathlib.Order.Interval.Set.Defs

/-!
# Rows into rules

A sheet is written by rows and read by columns.  Every cell of a row that counts is one
fragment of one rule, at one place, and a rule has no other fragments.  The column behind
the last rule is the outcome of the fallback.
-/

namespace DecisionTables

namespace Assoc

variable {κ : Type u} {ν : Type v} [BEq κ] [LawfulBEq κ]

theorem find?_insertAll_last (a : Assoc κ ν) (entries : List (κ × ν)) (key : κ) :
    find? (insertAll a entries) key =
      ((entries.reverse.find? fun entry => entry.1 == key).map Prod.snd).or (find? a key) := by
  induction entries generalizing a with
  | nil => rfl
  | cons entry rest ih =>
      have written := ih (insert a entry.1 entry.2)
      rw [List.reverse_cons, List.find?_append, List.find?_singleton, Option.map_or, Option.or_assoc]
      refine written.trans (congrArg _ ?_)
      rw [find?_insert]
      split
      · rfl
      · rfl

/-- Of the entries with one key the last is found. -/
theorem find?_ofList (entries : List (κ × ν)) (key : κ) :
    find? (ofList entries) key =
      (entries.reverse.find? fun entry => entry.1 == key).map Prod.snd :=
  (find?_insertAll_last [] entries key).trans (Option.or_none ..)

end Assoc

/-- The fallback yields the outcomes that it was given, with the verdict forced. -/
theorem Rule.outcome_otherwise {table : String} {outcomes : Outcome} (distinct : outcomes.Distinct) :
    (Rule.otherwise table outcomes).outcome = outcomes.insert verdictOutcome otherwiseLabel := by
  have entries : (Rule.otherwise table outcomes).fragments.filterMap Fragment.outcome? =
      outcomes.insert verdictOutcome otherwiseLabel := by
    rw [Rule.otherwise, List.filterMap_map]
    exact List.filterMap_some
  rw [Rule.outcome, entries]
  exact (distinct.insert verdictOutcome otherwiseLabel).ofList_eq

/-- The places in a list without repetitions, one for each of its members. -/
theorem bijOn_idxOf {rows : List Nat} (distinct : rows.Nodup) :
    Set.BijOn (rows.idxOf ·) {row | row ∈ rows} (Set.Iio rows.length) := by
  refine ⟨fun row member => List.idxOf_lt_length_of_mem member, ?_, ?_⟩
  · intro row member other _ same
    exact (List.idxOf_inj member).mp same
  · intro place inside
    exact ⟨rows.get ⟨place, inside⟩, List.get_mem _ _, distinct.idxOf_getElem place inside⟩

/-- Rows that are taken one after the other are the rows that are taken by their numbers. -/
theorem filterMap_range {α β : Type} (rows : List α) (g : α → Option β) :
    ((List.range rows.length).filterMap fun row => rows[row]?.bind g) = rows.filterMap g := by
  induction rows with
  | nil => rfl
  | cons r rest ih =>
      rw [List.length_cons, List.range_succ_eq_map, List.filterMap_cons, List.filterMap_map,
        List.filterMap_cons, ← ih]
      rfl

/-- What a list is mapped to, and what of the list is mapped to anything. -/
theorem forall₂_filterMap {R : Nat → Fragment → Prop} {g : Nat → Option Fragment} (rows : List Nat)
    (related : ∀ row f, g row = some f → R row f) :
    List.Forall₂ R (rows.filter fun row => (g row).isSome) (rows.filterMap g) := by
  induction rows with
  | nil => exact .nil
  | cons row rest ih =>
      cases found : g row with
      | none =>
          rw [List.filter_cons_of_neg (by rw [found]; decide), List.filterMap_cons_none found]
          exact ih
      | some f =>
          rw [List.filter_cons_of_pos (by rw [found]; rfl), List.filterMap_cons_some found]
          exact .cons (related row f found) ih

namespace Sheet

/-! ## Cells -/

/-- What the rows with a tag have in a column, in the order of the rows. -/
def slice (records : List Record) (tag : Tag) (column : Nat) : List Fragment :=
  (records.filter fun r => r.tag = tag).filterMap fun r =>
    r.values[column]?.map fun value => ⟨.row tag, r.subject, value⟩

/-- The cell of a row in a column is a fragment: the row is no header, and where it assigns, the cell
is not empty. -/
inductive Cut (records : List Record) (column row : Nat) : Fragment → Prop where
  | cell {r value} (there : records[row]? = some r) (written : r.values[column]? = some value)
      (cut : r.tag ≠ .header) (counts : r.tag = .assignment → value ≠ "") :
      Cut records column row ⟨.row r.tag, r.subject, value⟩

/-- The fragment that a row has in a column among those with a tag. -/
def cutAs? (column : Nat) (tag : Tag) (r : Record) : Option Fragment :=
  if r.tag = tag then
    (r.values[column]?.map fun value => ⟨.row tag, r.subject, value⟩).filter fun f =>
      tag ≠ .assignment ∨ f.value ≠ ""
  else none

/-- The order in which the tags come in a rule. -/
def cutOrder : List Tag := [.condition, .outcome, .assignment]

/-- The fragments of a column. -/
def cuts (records : List Record) (column : Nat) : List Fragment :=
  cutOrder.flatMap fun tag => records.filterMap (cutAs? column tag)

/-- The numbers of the rows that have a fragment in a column. -/
def cutRows (records : List Record) (column : Nat) : List Nat :=
  cutOrder.flatMap fun tag =>
    (List.range records.length).filter fun row => (records[row]?.bind (cutAs? column tag)).isSome

section

variable {records : List Record} {column row : Nat} {tag : Tag} {f : Fragment}

theorem cutAs?_eq_some_iff {r : Record} : cutAs? column tag r = some f ↔
    r.tag = tag ∧ ∃ value, r.values[column]? = some value ∧ (tag = .assignment → value ≠ "") ∧
      f = ⟨.row tag, r.subject, value⟩ := by
  unfold cutAs?
  by_cases same : r.tag = tag
  · simp only [same, if_true, Option.filter_eq_some_iff, Option.map_eq_some_iff, true_and,
      decide_eq_true_eq]
    constructor
    · rintro ⟨⟨value, written, rfl⟩, counts⟩
      exact ⟨value, written, fun assigns => counts.resolve_left (not_not_intro assigns), rfl⟩
    · rintro ⟨value, written, counts, rfl⟩
      exact ⟨⟨value, written, rfl⟩, imp_iff_not_or.mp counts⟩
  · simp only [same, if_false, reduceCtorEq, false_and]

theorem cut_iff : Cut records column row f ↔
    ∃ tag ∈ cutOrder, records[row]?.bind (cutAs? column tag) = some f := by
  constructor
  · rintro ⟨there, written, cut, counts⟩
    rename_i r value
    refine ⟨r.tag, ?_, ?_⟩
    · cases tag : r.tag with
      | header => exact (cut tag).elim
      | condition => decide
      | outcome => decide
      | assignment => decide
    · rw [there]
      exact cutAs?_eq_some_iff.mpr ⟨rfl, value, written, counts, rfl⟩
  · rintro ⟨tag, ordered, found⟩
    obtain ⟨r, there, found⟩ := Option.bind_eq_some_iff.mp found
    obtain ⟨rfl, value, written, counts, rfl⟩ := cutAs?_eq_some_iff.mp found
    refine .cell there written (fun header => ?_) counts
    rw [header] at ordered
    revert ordered
    decide

theorem mem_cutRows : row ∈ cutRows records column ↔ ∃ f, Cut records column row f := by
  simp only [cutRows, List.mem_flatMap, List.mem_filter, List.mem_range, Option.isSome_iff_exists,
    cut_iff]
  constructor
  · rintro ⟨tag, ordered, _, f, found⟩
    exact ⟨f, tag, ordered, found⟩
  · rintro ⟨f, tag, ordered, found⟩
    obtain ⟨r, there, _⟩ := Option.bind_eq_some_iff.mp found
    exact ⟨tag, ordered, (List.getElem?_eq_some_iff.mp there).1, f, found⟩

/-- A row has one tag, so it is not met again under another. -/
theorem nodup_cutRows : (cutRows records column).Nodup := by
  rw [cutRows, List.nodup_flatMap]
  refine ⟨fun tag _ => List.nodup_range.filter _, ?_⟩
  have apart : cutOrder.Nodup := by decide
  refine apart.imp fun differ => ?_
  simp only [Function.onFun, List.disjoint_left, List.mem_filter, Option.isSome_iff_exists]
  rintro row ⟨_, f, found⟩ ⟨_, g, again⟩
  obtain ⟨r, there, found⟩ := Option.bind_eq_some_iff.mp found
  obtain ⟨r', there', again⟩ := Option.bind_eq_some_iff.mp again
  obtain rfl : r = r' := Option.some.inj (there.symm.trans there')
  exact differ ((cutAs?_eq_some_iff.mp found).1.symm.trans (cutAs?_eq_some_iff.mp again).1)

theorem Cut.unique {g : Fragment} (first : Cut records column row f) (second : Cut records column row g) :
    f = g := by
  obtain ⟨there, written, _, _⟩ := first
  obtain ⟨there', written', _, _⟩ := second
  cases Option.some.inj (there.symm.trans there')
  cases Option.some.inj (written.symm.trans written')
  rfl

/-- The fragments of a column are cut from its rows, one after the other. -/
theorem forall₂_cut (records : List Record) (column : Nat) :
    List.Forall₂ (Cut records column) (cutRows records column) (cuts records column) := by
  have tagged : ∀ tag ∈ cutOrder, List.Forall₂ (Cut records column)
      ((List.range records.length).filter fun row => (records[row]?.bind (cutAs? column tag)).isSome)
      (records.filterMap (cutAs? column tag)) := fun tag ordered => by
    rw [← filterMap_range]
    exact forall₂_filterMap _ fun row f found => cut_iff.mpr ⟨tag, ordered, found⟩
  exact List.rel_append (tagged .condition (by decide))
    (List.rel_append (tagged .outcome (by decide)) (List.rel_append (tagged .assignment (by decide)) .nil))

/-- Every row that is cut in a column has one place among the fragments of the column, and every place
is the place of one row. -/
theorem exists_places (records : List Record) (column : Nat) : ∃ place : Nat → Nat,
    Set.BijOn place {row | ∃ f, Cut records column row f} (Set.Iio (cuts records column).length) ∧
      ∀ row f, Cut records column row f → (cuts records column)[place row]? = some f := by
  obtain ⟨long, cut⟩ := List.forall₂_iff_get.mp (forall₂_cut records column)
  refine ⟨((cutRows records column).idxOf ·), ?_, ?_⟩
  · have rows : {row | ∃ f, Cut records column row f} = {row | row ∈ cutRows records column} :=
      Set.ext fun row => mem_cutRows.symm
    rw [rows, ← long]
    exact bijOn_idxOf nodup_cutRows
  · intro row f cutHere
    have member : row ∈ cutRows records column := mem_cutRows.mpr ⟨f, cutHere⟩
    have inside := List.idxOf_lt_length_of_mem member
    have atPlace := cut _ inside (long ▸ inside)
    rw [List.get_eq_getElem, List.getElem_idxOf inside] at atPlace
    rw [List.getElem?_eq_getElem (long ▸ inside)]
    exact congrArg some (atPlace.unique cutHere)

/-! ## Columns -/

theorem filterMap_cutAs? : records.filterMap (cutAs? column tag) =
    (slice records tag column).filter fun f => tag ≠ .assignment ∨ f.value ≠ "" := by
  rw [slice, List.filter_filterMap, List.filterMap_filter]
  refine List.filterMap_congr fun r _ => ?_
  unfold cutAs?
  by_cases same : r.tag = tag
  · simp only [same, if_true, decide_true]
  · simp only [same, if_false, decide_false, Bool.false_eq_true]

/-- Only among assignments a cell has to be there. -/
theorem filter_counts (fs : List Fragment) (tag : Tag) :
    (fs.filter fun f => tag ≠ .assignment ∨ f.value ≠ "") =
      if tag = .assignment then fs.filter fun f => f.value ≠ "" else fs := by
  split
  · rename_i assigns
    simp only [assigns, ne_eq, not_true_eq_false, false_or]
  · rename_i other
    exact List.filter_eq_self.mpr fun f _ => decide_eq_true (.inl other)

theorem cuts_eq : cuts records column =
    slice records .condition column ++ slice records .outcome column ++
      (slice records .assignment column).filter fun f => f.value ≠ "" := by
  simp only [cuts, cutOrder, List.flatMap_cons, List.flatMap_nil, List.append_nil, filterMap_cutAs?,
    filter_counts, reduceCtorEq, if_true, if_false, List.append_assoc]

theorem map_cell_rows {s : Sheet} (fitting : Fitting s.records s.ruleCount)
    (inside : column < s.ruleCount) (other : tag ≠ .header) :
    (s.rows tag).map (cell column) = slice s.records tag column := by
  rw [slice, ← List.filterMap_eq_map]
  refine List.filterMap_congr fun r member => ?_
  obtain ⟨there, rfl⟩ := mem_rows.mp member
  obtain ⟨value, written, same⟩ := cell_eq fitting there other inside
  rw [written, Function.comp_apply, same]
  rfl

/-- What a rule is made of is cut out of its column. -/
theorem column_eq {s : Sheet} (fitting : Fitting s.records s.ruleCount)
    (inside : column < s.ruleCount) : s.column column = cuts s.records column := by
  rw [Sheet.column, map_cell_rows fitting inside (by decide), map_cell_rows fitting inside (by decide),
    map_cell_rows fitting inside (by decide), cuts_eq]
  refine congrArg _ (List.filter_congr fun f _ => ?_)
  rw [Bool.eq_iff_iff, Bool.not_eq_true', Bool.eq_false_iff, ne_eq, String.isEmpty_iff,
    decide_eq_true_eq]

theorem kind_of_mem_slice (member : f ∈ slice records tag column) : f.kind = .row tag := by
  obtain ⟨r, _, found⟩ := List.mem_filterMap.mp member
  obtain ⟨value, _, rfl⟩ := Option.map_eq_some_iff.mp found
  rfl

/-- Of the fragments of a rule only those with one tag are read for it. -/
theorem filterMap_of_kind {α : Type} {g : Fragment → Option α} {h : Fragment → α}
    (reads : ∀ f, g f = if f.kind = .row tag then some (h f) else none) {fs : List Fragment} (other : Tag)
    (kinds : ∀ f ∈ fs, f.kind = .row other) :
    fs.filterMap g = if other = tag then fs.map h else [] := by
  split
  · rename_i same
    rw [← List.filterMap_eq_map]
    refine List.filterMap_congr fun f member => ?_
    rw [reads f, if_pos (same ▸ kinds f member)]
    rfl
  · rename_i differ
    refine List.filterMap_eq_nil_iff.mpr fun f member => ?_
    rw [reads f, kinds f member]
    exact if_neg fun same => differ (FragmentKind.row.inj same)

theorem filterMap_cuts {α : Type} {g : Fragment → Option α} {h : Fragment → α} (tag : Tag)
    (reads : ∀ f, g f = if f.kind = .row tag then some (h f) else none) (ordered : tag ∈ cutOrder) :
    (cuts records column).filterMap g =
      ((slice records tag column).filter fun f => tag ≠ .assignment ∨ f.value ≠ "").map h := by
  have part : ∀ other, (records.filterMap (cutAs? column other)).filterMap g =
      if other = tag then (records.filterMap (cutAs? column other)).map h else [] := fun other => by
    refine filterMap_of_kind reads other fun f member => ?_
    rw [filterMap_cutAs?] at member
    exact kind_of_mem_slice (List.mem_of_mem_filter member)
  rw [← filterMap_cutAs?]
  simp only [cuts, cutOrder, List.flatMap_cons, List.flatMap_nil, List.filterMap_append,
    List.filterMap_nil, part]
  cases tag with
  | header => exact absurd ordered (by decide)
  | condition => simp
  | outcome => simp
  | assignment => simp

theorem conditions_cuts : (cuts records column).filterMap Fragment.condition? =
    (slice records .condition column).map fun f => Condition.parse f.name f.value := by
  rw [filterMap_cuts (g := Fragment.condition?) .condition (fun f => rfl) (by decide),
    filter_counts, if_neg (by decide)]

theorem assignments_cuts : (cuts records column).filterMap Fragment.assignment? =
    ((slice records .assignment column).filter fun f => f.value ≠ "").map fun f =>
      Assignment.parse f.name f.value := by
  rw [filterMap_cuts (g := Fragment.assignment?) .assignment (fun f => rfl) (by decide),
    filter_counts, if_pos rfl]

/-! ## The fallback -/

theorem otherwiseOutcomes_eq (s : Sheet) : s.otherwiseOutcomes =
    Assoc.ofList ((slice s.records .outcome s.ruleCount).map fun f => (f.name, f.value)) := by
  rw [otherwiseOutcomes, slice, List.map_filterMap, rows]
  congr 2
  funext r
  rw [Option.map_map]
  rfl

/-- The fallback yields the column behind the last rule; of a repeated name the last row counts, and
the verdict is forced. -/
theorem find?_otherwise (s : Sheet) (outcome : String) : s.table.otherwise.outcome.find? outcome =
    if outcome = Rule.verdictOutcome then some Rule.otherwiseLabel
    else ((slice s.records .outcome s.ruleCount).filter fun f => f.name = outcome).getLast?.map
      Fragment.value := by
  have distinct : s.otherwiseOutcomes.Distinct := Assoc.distinct_ofList _
  rw [table, Rule.outcome_otherwise distinct, Assoc.find?_insert]
  by_cases verdict : outcome = Rule.verdictOutcome
  · rw [if_pos verdict, if_pos (beq_iff_eq.mpr verdict.symm)]
  · rw [if_neg verdict, if_neg fun same => verdict (eq_of_beq same).symm, otherwiseOutcomes_eq,
      Assoc.find?_ofList, ← List.map_reverse, List.find?_map, Option.map_map,
      List.getLast?_eq_head?_reverse, ← List.filter_reverse, List.head?_filter]
    rfl

end

end Sheet

section

open Sheet

/-- Nothing is lost and nothing is made up where rows become rules.  There are as many rules as the
records tell of, and every row that is no header has a value for each of them.  A rule has the cells of
its column in the order of the rows, conditions first, then outcomes, then the assignments that are not
empty; and these are its conditions and its assignments.  So every cell that counts has a place among
the fragments of one rule, and every fragment is at the place of one cell.  The fallback yields the
column behind the last rule, with the verdict forced. -/
theorem Table.columns_become_rules {name delimiter : String} {lines : List String} {t : Table}
    (accepted : Table.parse name delimiter lines = .ok t) :
    ∃ records n, Holds delimiter lines records ∧ Fitting records n ∧ t.rules.length = n ∧
      (∀ column rule, t.rules[column]? = some rule →
        (∀ r ∈ records, r.tag ≠ .header → column < r.width) ∧
        rule.fragments = slice records .condition column ++ slice records .outcome column ++
          (slice records .assignment column).filter (fun f => f.value ≠ "") ∧
        rule.conditions = (slice records .condition column).map
          (fun f => Condition.parse f.name f.value) ∧
        rule.assignments = ((slice records .assignment column).filter fun f => f.value ≠ "").map
          (fun f => Assignment.parse f.name f.value)) ∧
      (∃ place : Nat → Nat → Nat, ∀ column rule, t.rules[column]? = some rule →
        Set.BijOn (place column) {row | ∃ f, Cut records column row f}
          (Set.Iio rule.fragments.length) ∧
        ∀ row f, Cut records column row f → rule.fragments[place column row]? = some f) ∧
      ∀ outcome, t.otherwise.outcome.find? outcome =
        if outcome = Rule.verdictOutcome then some Rule.otherwiseLabel
        else ((slice records .outcome n).filter fun f => f.name = outcome).getLast?.map
          Fragment.value := by
  obtain ⟨s, read, rfl⟩ := exists_sheet_of_parse accepted
  obtain ⟨_, _, holds, fitting⟩ := ofLines_eq_ok_iff.mp read
  have cutOut : ∀ column rule, s.table.rules[column]? = some rule →
      column < s.ruleCount ∧ rule.fragments = cuts s.records column := by
    intro column rule found
    obtain ⟨inside, rfl⟩ := List.getElem?_eq_some_iff.mp found
    have inside : column < s.ruleCount := s.length_rules_table ▸ inside
    refine ⟨inside, ?_⟩
    simp only [table, List.getElem_map, List.getElem_range]
    exact column_eq fitting inside
  choose place bijective found using exists_places s.records
  refine ⟨s.records, s.ruleCount, holds, fitting, s.length_rules_table, ?rules, ⟨place, ?places⟩,
    s.find?_otherwise⟩
  case rules =>
    intro column rule there
    obtain ⟨inside, fragments⟩ := cutOut column rule there
    refine ⟨fun r member cut => Nat.lt_of_lt_of_le inside (fitting.le_width member cut), ?_, ?_, ?_⟩
    · rw [fragments, cuts_eq]
    · rw [Rule.conditions, fragments, conditions_cuts]
    · rw [Rule.assignments, fragments, assignments_cuts]
  case places =>
    intro column rule there
    rw [(cutOut column rule there).2]
    exact ⟨bijective column, found column⟩

/-- A sheet whose rows come in no order, with a cell that assigns nothing and an outcome told twice. -/
def Sheet.till : List String :=
  ["ASG;till::count;;request::n", "OUT;text;few;many;none", "CND;till::count;<3;>2",
    "OUT;text;small;large;other"]

/-- Two rules come out of it, the first without an assignment, and the fallback tells the last text. -/
theorem Table.till_becomes_rules : ∃ t, Table.parse "till" ";" Sheet.till = .ok t ∧
    (t.rules.map fun rule => rule.fragments.length) = [3, 4] ∧
    ∃ records n, Holds ";" Sheet.till records ∧ t.rules.length = n ∧
      t.otherwise.outcome.find? "text" =
        ((slice records .outcome n).filter fun f => f.name = "text").getLast?.map Fragment.value := by
  have fragments : ((Table.parse "till" ";" Sheet.till).toOption.map fun t =>
      t.rules.map fun rule => rule.fragments.length) = some [3, 4] := by decide +kernel
  cases accepted : Table.parse "till" ";" Sheet.till with
  | error e =>
      rw [accepted] at fragments
      cases fragments
  | ok t =>
      rw [accepted] at fragments
      obtain ⟨records, n, holds, _, count, _, _, fallback⟩ := columns_become_rules accepted
      exact ⟨t, rfl, Option.some.inj fragments, records, n, holds, count, fallback "text"⟩

end

end DecisionTables
