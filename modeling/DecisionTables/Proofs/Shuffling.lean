import DecisionTables.Proofs.Accepting

/-!
# Shuffled rows

A sheet is read by the tags of its rows, so only the order of the rows with one tag counts.  Lines
that are skipped may be added or left out anywhere, and rows of different tags may be mixed in any
way: the lines make up the same table, or they are refused in both orders.
-/

namespace DecisionTables

namespace Sheet

/-- The lines that are neither blank nor remarks. -/
def counted (lines : List String) : List String :=
  lines.filter fun line => !isSkipped line

/-- The record that a line holds, when its line end is cut off. -/
def recordOf? (delimiter line : String) : Option Record :=
  (Record.parse delimiter (Text.chompLine line)).toOption

/-- The tag of the record that a line holds. -/
def tagOf? (delimiter line : String) : Option Tag :=
  (recordOf? delimiter line).map Record.tag

/-- Two lists of lines differ only in lines that are skipped and in how rows of different tags are
mixed: the same lines count, and those with one tag come in the same order. -/
structure SameRows (delimiter : String) (lines lines' : List String) : Prop where
  perm : (counted lines).Perm (counted lines')
  order : ∀ tag, (counted lines).filter (fun line => tagOf? delimiter line = some tag) =
    (counted lines').filter fun line => tagOf? delimiter line = some tag

theorem SameRows.symm {delimiter : String} {lines lines' : List String}
    (same : SameRows delimiter lines lines') : SameRows delimiter lines' lines :=
  ⟨same.perm.symm, fun tag => (same.order tag).symm⟩

/-! ## The records of lines -/

section

variable {delimiter line : String} {lines lines' : List String} {r : Record}
  {records records' : List Record} {tag : Tag}

theorem recordOf?_eq_some_iff :
    recordOf? delimiter line = some r ↔ Record.OfLine delimiter (Text.chompLine line) r := by
  rw [← Record.parse_eq_ok_iff, recordOf?]
  cases Record.parse delimiter (Text.chompLine line) <;> simp [Except.toOption]

theorem counted_skip (skipped : Skipped line.toList) : counted (line :: lines) = counted lines := by
  simp [counted, isSkipped_iff.mpr skipped]

theorem counted_cons (counts : ¬ Skipped line.toList) :
    counted (line :: lines) = line :: counted lines := by
  have told : isSkipped line = false := Bool.eq_false_iff.mpr fun skipped =>
    counts (isSkipped_iff.mp skipped)
  simp [counted, told]

/-- Lines hold records exactly where each line that counts holds one, in this order. -/
theorem holds_iff_map :
    Holds delimiter lines records ↔ (counted lines).map (recordOf? delimiter) = records.map some := by
  constructor
  · intro holds
    induction holds with
    | nil => rfl
    | skip skipped _ ih => rw [counted_skip skipped, ih]
    | record counts read _ ih =>
        rw [counted_cons counts, List.map_cons, List.map_cons, ih, recordOf?_eq_some_iff.mpr read]
  · intro told
    induction lines generalizing records with
    | nil =>
        cases records with
        | nil => exact .nil
        | cons r records => cases told
    | cons line lines ih =>
        by_cases skipped : Skipped line.toList
        · rw [counted_skip skipped] at told
          exact .skip skipped (ih told)
        · rw [counted_cons skipped] at told
          cases records with
          | nil => cases told
          | cons r records =>
              obtain ⟨first, rest⟩ := List.cons.inj told
              exact .record skipped (recordOf?_eq_some_iff.mp first) (ih rest)

/-- Lines hold records where each line that counts holds one. -/
theorem exists_holds_iff :
    (∃ records, Holds delimiter lines records) ↔
      ∀ line ∈ counted lines, ∃ r, recordOf? delimiter line = some r := by
  simp only [holds_iff_map]
  generalize counted lines = counting
  induction counting with
  | nil => exact ⟨fun _ => by simp, fun _ => ⟨[], rfl⟩⟩
  | cons line counting ih =>
      constructor
      · rintro ⟨records, told⟩
        cases records with
        | nil => cases told
        | cons r records =>
            obtain ⟨first, rest⟩ := List.cons.inj told
            exact List.forall_mem_cons.mpr ⟨⟨r, first⟩, ih.mp ⟨records, rest⟩⟩
      · intro each
        obtain ⟨⟨r, first⟩, others⟩ := List.forall_mem_cons.mp each
        obtain ⟨records, rest⟩ := ih.mpr others
        exact ⟨r :: records, by simp [first, rest]⟩

/-- The records with a tag are those of the lines with this tag. -/
theorem filter_records (holds : Holds delimiter lines records) (tag : Tag) :
    records.filter (fun r => r.tag = tag) =
      ((counted lines).filter fun line => tagOf? delimiter line = some tag).filterMap
        (recordOf? delimiter) := by
  replace holds := holds_iff_map.mp holds
  generalize counted lines = counting at holds ⊢
  induction counting generalizing records with
  | nil =>
      cases records with
      | nil => rfl
      | cons r records => cases holds
  | cons line counting ih =>
      cases records with
      | nil => cases holds
      | cons r records =>
          obtain ⟨first, rest⟩ := List.cons.inj holds
          have told : tagOf? delimiter line = some r.tag := by rw [tagOf?, first, Option.map_some]
          by_cases same : r.tag = tag
          · simp [told, first, same, ih rest]
          · simp [told, same, ih rest]

/-! ## Sheets -/

/-- Where the same lines count, they hold records in both orders or in none. -/
theorem SameRows.exists_holds (same : SameRows delimiter lines lines')
    (holds : Holds delimiter lines records) :
    ∃ records', Holds delimiter lines' records' ∧
      ∀ tag, records'.filter (fun r => r.tag = tag) = records.filter fun r => r.tag = tag := by
  have each := exists_holds_iff.mp ⟨records, holds⟩
  obtain ⟨records', holds'⟩ := exists_holds_iff.mpr fun line member =>
    each line (same.perm.mem_iff.mpr member)
  refine ⟨records', holds', fun tag => ?_⟩
  rw [filter_records holds, filter_records holds', same.order tag]

end

/-- All that is asked of a sheet is asked of its rows by their tags. -/
theorem eq_of_rows {s s' : Sheet} (name : s'.name = s.name) (rows : s'.rows = s.rows) :
    s'.defect? = s.defect? ∧ s'.table = s.table := by
  have width? : s'.width? = s.width? := by
    funext tag
    rw [Sheet.width?, Sheet.width?, rows]
  have ruleCount : s'.ruleCount = s.ruleCount := by
    rw [Sheet.ruleCount, Sheet.ruleCount, width?]
  have tableName : s'.tableName = s.tableName := by
    rw [Sheet.tableName, Sheet.tableName, rows, name]
  have rule : s'.rule = s.rule := by
    funext column
    simp only [Sheet.rule, label, label.plain, Sheet.column, rows, name]
  constructor
  · have isEven : s'.isEven = s.isEven := by
      funext tag
      rw [Sheet.isEven, Sheet.isEven, rows, width?]
    have allowsWidth : s'.allowsWidth = s.allowsWidth := by
      funext tag width
      cases tag <;> simp only [Sheet.allowsWidth, ruleCount]
    simp only [defect?, isEven, allowsWidth, widths, width?, ruleCount, rows, name]
  · simp only [table, tableName, ruleCount, rule, otherwiseOutcomes, rows]

end Sheet

namespace Table

theorem parse_of_sameRows {name delimiter : String} {lines lines' : List String} {t : Table}
    (same : Sheet.SameRows delimiter lines lines') (accepted : parse name delimiter lines = .ok t) :
    parse name delimiter lines' = .ok t := by
  obtain ⟨s, read, rfl⟩ := exists_sheet_of_parse accepted
  obtain ⟨single, named, holds, fitting⟩ := Sheet.ofLines_eq_ok_iff.mp read
  obtain ⟨records', holds', rows⟩ := same.exists_holds holds
  let s' : Sheet := ⟨name, records'⟩
  obtain ⟨defect, table⟩ : s'.defect? = s.defect? ∧ s'.table = s.table :=
    Sheet.eq_of_rows named.symm (funext rows)
  have sound : s'.defect? = none := defect.trans (Sheet.defect?_of_fitting fitting)
  have read' : Sheet.ofLines name delimiter lines' = .ok s' :=
    Sheet.ofLines_eq_ok_iff.mpr ⟨single, rfl, holds', Sheet.fitting_of_defect? sound⟩
  rw [parse, read', Except.map, table]

/-- Only the order of the rows with one tag matters.  Lines that differ in what is skipped and in how
rows of different tags are mixed make up the very same table, or both are refused as a
configuration. -/
theorem parse_of_mixed_rows {delimiter : String} {lines lines' : List String}
    (same : Sheet.SameRows delimiter lines lines') (name : String) :
    (∃ t, parse name delimiter lines = .ok t ∧ parse name delimiter lines' = .ok t) ∨
      ∃ error error', parse name delimiter lines = .error error ∧
        parse name delimiter lines' = .error error' ∧
        error.kind = .configuration ∧ error'.kind = .configuration := by
  have refused := fun lines => (parse_accepts_exactly name delimiter lines).2.1
  cases first : parse name delimiter lines with
  | ok t => exact .inl ⟨t, rfl, parse_of_sameRows same first⟩
  | error error =>
      cases second : parse name delimiter lines' with
      | ok t =>
          rw [parse_of_sameRows same.symm second] at first
          cases first
      | error error' =>
          exact .inr ⟨error, error', rfl, rfl, refused lines error first, refused lines' error' second⟩

/-- The rows of a shop as they are given, and the same rows with the header last, the conditions and
outcomes mixed, and a blank line and two remarks in other places. -/
theorem shop_mixed :
    let lines := ["# opening", "HDR;shop;small;large", "CND;market::shop;<3;>2", "", "CND;day;!Sunday;~",
      "OUT;outcome;open;closed"]
    let lines' := ["CND;market::shop;<3;>2", "OUT;outcome;open;closed", " # the day", "CND;day;!Sunday;~",
      "#;", "HDR;shop;small;large", " \t"]
    lines ≠ lines' ∧ ∃ t, parse "sheet" ";" lines = .ok t ∧ parse "sheet" ";" lines' = .ok t ∧
      t.name = "shop" := by
  intro lines lines'
  refine ⟨by decide, ?_⟩
  have named : ((parse "sheet" ";" lines).toOption.map Table.name) = some "shop" := by decide +kernel
  have same : Sheet.SameRows ";" lines lines' :=
    ⟨by decide +kernel, fun tag => by cases tag <;> decide +kernel⟩
  rcases parse_of_mixed_rows same "sheet" with ⟨t, first, second⟩ | ⟨error, _, first, _⟩
  · rw [first] at named
    exact ⟨t, first, second, Option.some.inj named⟩
  · rw [first] at named
    cases named

end Table

end DecisionTables
