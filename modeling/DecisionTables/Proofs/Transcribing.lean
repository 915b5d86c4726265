import Mathlib
import DecisionTables.Proofs.Composing
import DecisionTables.Proofs.Exchanging

/-!
# States in YAML

A state whose texts are printable and whose lines are narrow comes back from its text: every scalar
is what it was, also a text that reads like a number or like another sign of the format.
-/

namespace DecisionTables.Yaml

section

variable {v : Value} {s : Scalar} {cs : List Char} {t : Token} {column : Nat}

/-! ## Characters of a text -/

theorem isAllowed_ascii {ch : Char} (ascii : isPlainAscii ch = true) : isAllowed ch = true := by
  rw [isPlainAscii] at ascii
  rw [isAllowed]
  simp only [ascii, Bool.or_true, Bool.true_or]

theorem all_isAllowed (ascii : cs.all isPlainAscii = true) : cs.all isAllowed = true :=
  List.all_eq_true.mpr fun ch member => isAllowed_ascii (List.all_eq_true.mp ascii ch member)

theorem Spells.ascii (spells : Spells s cs t) : cs.all isPlainAscii = true := by
  cases spells with
  | plain unquoted _ => exact unquoted.ascii
  | @quoted s printable =>
      have each : (s.toList.flatMap singleQuotedChar).all isPlainAscii = true := by
        rw [List.all_flatMap, List.all_eq_true]
        intro ch member
        have ascii := List.all_eq_true.mp printable ch member
        rw [singleQuotedChar]
        split <;> simp [ascii]
      rw [quotedLine, List.cons_append, List.all_cons, List.all_append, each]
      rfl

theorem all_blanks_isAllowed (n : Nat) : (blanks n).all isAllowed = true :=
  all_isAllowed (Cursor.all_blanks n)

theorem all_drop {n : Nat} (all : cs.all isAllowed = true) : (cs.drop n).all isAllowed = true :=
  List.all_eq_true.mpr fun ch member => List.all_eq_true.mp all ch (List.mem_of_mem_drop member)

theorem all_itemsText {items : List Value}
    (each : ∀ item ∈ items, ∀ column, (blockText column item).all isAllowed = true) :
    (itemsText column items).all isAllowed = true := by
  induction items with
  | nil => rfl
  | cons item items ih =>
      obtain ⟨first, each⟩ := List.forall_mem_cons.mp each
      simp only [itemsText, List.all_append, List.all_cons, all_blanks_isAllowed, first, ih each, Bool.and_true]
      decide

theorem all_entriesText {entries : Assoc Scalar Value} (legible : ∀ entry ∈ entries, Legible entry.1)
    (each : ∀ entry ∈ entries, ∀ column, (blockText column entry.2).all isAllowed = true) :
    (entriesText column entries).all isAllowed = true := by
  induction entries with
  | nil => rfl
  | cons entry entries ih =>
      obtain ⟨key, value⟩ := entry
      obtain ⟨legible_key, legible⟩ := List.forall_mem_cons.mp legible
      obtain ⟨first, each⟩ := List.forall_mem_cons.mp each
      have key_all := all_isAllowed legible_key.spells.ascii
      rw [entriesText, List.all_append, List.all_append, all_blanks_isAllowed, ih legible each]
      split <;> [split; skip] <;>
        simp only [List.all_append, List.all_cons, all_blanks_isAllowed, key_all, first, Bool.and_true] <;> decide

/-- The characters of a value may stand in a text. -/
theorem all_blockText (keyed : v.Keyed Legible) (column : Nat) : (blockText column v).all isAllowed = true := by
  induction keyed generalizing column with
  | scalar legible =>
      rw [blockText, List.all_append, all_isAllowed legible.spells.ascii]
      rfl
  | @list items _ ih =>
      cases items with
      | nil => rfl
      | cons item items => exact all_drop (all_itemsText ih)
  | @mapping entries texts _ _ ih =>
      cases entries with
      | nil => rfl
      | cons entry entries => 
          refine all_drop (all_entriesText (fun entry member => ?_) ih)
          obtain ⟨key, same, legible⟩ := texts entry member
          rwa [same]

/-! ## The text of a mapping -/

theorem keyed_legible (keyed : v.Keyed Scalar.Printable) (texts : v.all Scalar.hasText = true) :
    v.Keyed Legible := by
  induction keyed with
  | scalar printable => exact .scalar ⟨printable, texts⟩
  | list _ ih =>
      rw [Value.all, Value.allItems_eq, List.all_eq_true] at texts
      exact .list fun item member => ih item member (texts item member)
  | mapping keys distinct _ ih =>
      rw [Value.all, Value.allEntries_eq, List.all_eq_true] at texts
      refine .mapping (fun entry member => ?_) distinct fun entry member => ?_
      · exact (keys entry member).imp fun key both => ⟨both.1, both.2, rfl⟩
      · exact ih entry member (Bool.and_eq_true_iff.mp (texts entry member)).2

theorem toList_lines (lines : List String) :
    (String.join (lines.map (· ++ "\n"))).toList = standing 0 lines := by
  simp [standing, blanks, List.flatMap_map]

/-- Where the lines of a sorted mapping are narrow, it has so few levels that they can be written and read,
its integers are not too long, and its text is read as the mapping. -/
theorem parse_lines {entries : Assoc Scalar Value} (keyed : (Value.mapping entries).Keyed Scalar.Printable)
    (narrow : Narrow 0 (linesOf 0 (.mapping entries))) :
    parse (String.join ((linesOf 0 (.mapping entries)).map (· ++ "\n"))) = .ok (.mapping entries) := by
  have settled := settled_of_narrow keyed narrow
  have legible := keyed_legible keyed settled.texts
  have shallow : (Value.mapping entries).depth ≤ Nesting.yamlRoom :=
    settled.shallow.trans (by decide)
  have text : (String.join ((linesOf 0 (.mapping entries)).map (· ++ "\n"))).toList =
      blockText 0 (.mapping entries) :=
    (toList_lines _).trans settled.lies.text_eq
  rw [parse, Supply.ofString_eq (by rw [text]; exact all_blockText legible 0), text]
  exact read_blockText legible shallow

end

end DecisionTables.Yaml

namespace DecisionTables.StateId

section

variable {σ : Store} {id : StateId}

/-- A state whose texts are printable and whose lines are narrow can be written. -/
theorem runFrom_toYaml (keyed : (nested σ id).Keyed Scalar.Printable)
    (narrow : Yaml.Narrow 0 (Yaml.linesOf 0 (nested σ id).sortedWherePossible)) :
    runFrom id.toYaml σ = (.ok (Yaml.write (nested σ id)), σ) := by
  have settled := Yaml.settled_of_narrow keyed.sortedWherePossible narrow
  have levels : (nested σ id).depth ≤ 2 * Yaml.lineWidth := by
    rw [← Value.depth_sortedWherePossible]
    exact settled.shallow
  have texts : (nested σ id).all Scalar.hasText = true := by
    rw [← Value.all_sortedWherePossible]
    exact settled.texts
  have writable : runFrom id.toWritable σ = (.ok (nested σ id), σ) := by
    rw [runFrom_toWritable, if_neg (Nat.not_lt.mpr (levels.trans (by decide))), if_pos texts]
  rw [toYaml, runFrom_bind_ok writable, if_neg (Nat.not_lt.mpr (levels.trans (by decide)))]
  rfl

/-- The text of a state is read in as a state with the same nested mapping, sorted. -/
theorem exists_ofYaml (keyed : (nested σ id).Keyed Scalar.Printable)
    (narrow : Yaml.Narrow 0 (Yaml.linesOf 0 (nested σ id).sortedWherePossible)) (τ : Store) :
    ∃ inner copy τ', (nested σ id).sortedWherePossible = .mapping (Assoc.mapValues Value.mapping inner) ∧
      runFrom (ofYaml (Yaml.write (nested σ id))) τ = (.ok copy, τ') ∧ Stores τ' copy inner := by
  obtain ⟨inner, distinct, sorted⟩ := exists_sorted keyed
  obtain ⟨copy, τ', made, stores, _⟩ := exists_ofValue distinct τ
  have keyed' := keyed.sortedWherePossible
  refine ⟨inner, copy, τ', sorted, ?_, stores⟩
  rw [sorted] at narrow keyed'
  rw [ofYaml, Yaml.write, sorted, Yaml.parse_lines keyed' narrow]
  exact made

end

/-! ## Round trips -/

/-- The text of a state in YAML comes back.  Where all keys are texts, every text is printable, every
number is one, and no line is as long as a line may be, the state has a text; and on every store this
text is read in as a state that exports the same up to the order of keys and has the same text. -/
theorem yaml_round_trip {σ : Store} {id : StateId} (keyed : (nested σ id).Keyed Scalar.Printable)
    (narrow : Yaml.Narrow 0 (Yaml.linesOf 0 (nested σ id).sortedWherePossible)) :
    ∃ text, runFrom id.toYaml σ = (.ok text, σ) ∧
      ∀ τ, ∃ copy τ', runFrom (ofYaml text) τ = (.ok copy, τ') ∧ (nested σ id).Agrees (nested τ' copy) ∧
        runFrom copy.toYaml τ' = (.ok text, τ') := by
  refine ⟨_, runFrom_toYaml keyed narrow, fun τ => ?_⟩
  obtain ⟨inner, copy, τ', sorted, made, stores⟩ := exists_ofYaml keyed narrow τ
  have same : nested τ' copy = (nested σ id).sortedWherePossible := stores.nested_eq.trans sorted.symm
  have agrees := keyed.agrees_sorted
  have keyed' := keyed.sortedWherePossible
  rw [← same] at agrees keyed'
  have again := agrees.sorted_eq keyed keyed'
  have narrow' : Yaml.Narrow 0 (Yaml.linesOf 0 (nested τ' copy).sortedWherePossible) := again ▸ narrow
  refine ⟨copy, τ', made, agrees, ?_⟩
  rw [runFrom_toYaml keyed' narrow', Yaml.write, Yaml.write, again]

/-- A nested mapping of texts that would be something else without quotes. -/
def lookalikes : Value :=
  .mapping [(.text "yes", .mapping [
    (.text "", .list [.text "null", .text "1:30", .text "0x1F", .text "2024-01-01", .scalar (.int 130)]),
    (.text "- a", .mapping [(.text "b: c", .list [.mapping [(.text "~", .text " # d")], .list []])])])]

theorem keyed_lookalikes : lookalikes.Keyed Scalar.Printable := by
  refine .single rfl (.pair (by decide) rfl rfl (.list fun item member => ?_)
    (.single rfl (.list fun item member => ?_)))
  · simp only [List.mem_cons, List.not_mem_nil, or_false] at member
    rcases member with rfl | rfl | rfl | rfl | rfl
    · exact .scalar rfl
    · exact .scalar rfl
    · exact .scalar rfl
    · exact .scalar rfl
    · exact .scalar trivial
  · rcases List.mem_pair.mp member with rfl | rfl
    · exact .single rfl (.scalar rfl)
    · exact .list fun _ impossible => absurd impossible List.not_mem_nil

theorem sorted_lookalikes : lookalikes.sortedWherePossible = lookalikes := by cbv

theorem narrow_lookalikes : Yaml.Narrow 0 (Yaml.linesOf 0 lookalikes.sortedWherePossible) := by
  have quoted : ∀ s ∈ ["yes", "", "null", "1:30", "0x1F", "2024-01-01", "- a", "b: c", "~", " # d"],
      Yaml.Style.ofText s = .single := by
    simp only [Yaml.Style.ofText, Yaml.isBare, Yaml.isOpeningSign, String.contains_char_eq]
    decide +kernel
  simp only [List.forall_mem_cons] at quoted
  rw [sorted_lookalikes, Yaml.Narrow]
  simp only [lookalikes, Yaml.linesOf, Yaml.entryLines, Yaml.itemLines, Yaml.writeScalar, Yaml.scalarLines,
    Yaml.textLines, quoted]
  decide +kernel

/-- A store with the state of the nested mapping. -/
def quoting : Store :=
  (runFrom (ofValue lookalikes) .empty).2

/-- The state comes back from its text on the empty store. -/
theorem lookalikes_come_back : nested quoting ⟨0⟩ = lookalikes ∧
    ∃ text copy τ, runFrom (toYaml ⟨0⟩) quoting = (.ok text, quoting) ∧
      runFrom (ofYaml text) .empty = (.ok copy, τ) ∧ lookalikes.Agrees (nested τ copy) ∧
      runFrom copy.toYaml τ = (.ok text, τ) := by
  have held : nested quoting ⟨0⟩ = lookalikes := rfl
  obtain ⟨text, written, back⟩ := yaml_round_trip (held ▸ keyed_lookalikes) (held ▸ narrow_lookalikes)
  obtain ⟨copy, τ, read, agrees, again⟩ := back .empty
  exact ⟨held, text, copy, τ, written, read, held ▸ agrees, again⟩

end DecisionTables.StateId
