import Mathlib
import DecisionTables.Nesting
import DecisionTables.Proofs.Arranging
import DecisionTables.Proofs.Folding
import DecisionTables.Proofs.Spelling

/-!
# Values in block style

Where no line is full, what is written for a value is given by its form alone: each part stands two
columns further in than the list or mapping that it is a part of, but a list stands directly below
its key.  The number of columns also limits the number of levels.
-/

namespace DecisionTables.Yaml

/-- So many blanks. -/
def blanks (n : Nat) : List Char :=
  List.replicate n ' '

/-- The characters of lines that all stand at a column. -/
def standing (column : Nat) (lines : List String) : List Char :=
  lines.flatMap fun line => blanks column ++ line.toList ++ ['\n']

/-- The value stands behind its key, on the same line. -/
def isFlat : Value → Bool
  | .scalar _ => true
  | .list items => items.isEmpty
  | .mapping entries => entries.isEmpty

/-- How much further in than its key a value stands that stands below it. -/
def stepIn : Value → Nat
  | .list _ => 0
  | _ => 2

@[simp] theorem stepIn_list (items : List Value) : stepIn (.list items) = 0 := rfl

@[simp] theorem stepIn_mapping (entries : Assoc Scalar Value) : stepIn (.mapping entries) = 2 := rfl

mutual

/-- The characters of a value whose block starts at a column, from there on. -/
def blockText (column : Nat) : Value → List Char
  | .scalar s => (writeScalar s).toList ++ ['\n']
  | .list [] => ['[', ']', '\n']
  | .list (item :: rest) => (itemsText column (item :: rest)).drop column
  | .mapping [] => ['\x7b', '\x7d', '\n']
  | .mapping (entry :: rest) => (entriesText column (entry :: rest)).drop column

/-- The characters of the items of a list. -/
def itemsText (column : Nat) : List Value → List Char
  | [] => []
  | item :: rest =>
    blanks column ++ '-' :: ' ' :: blockText (column + 2) item ++ itemsText column rest

/-- The characters of the entries of a mapping. -/
def entriesText (column : Nat) : List (Scalar × Value) → List Char
  | [] => []
  | (key, value) :: rest =>
    let text :=
      if isSimpleKey key then
        (writeScalar key).toList ++ ':' ::
          (if isFlat value then ' ' :: blockText (column + 2) value
          else '\n' :: blanks (column + stepIn value) ++ blockText (column + stepIn value) value)
      else
        '?' :: ' ' :: (writeScalar key).toList ++
          '\n' :: blanks column ++ ':' :: ' ' :: blockText (column + 2) value
    blanks column ++ text ++ entriesText column rest

end

section

variable {column : Nat} {lines more : List String} {line sign : String} {text : List Char}

theorem drop_blanks (n : Nat) (cs : List Char) : (blanks n ++ cs).drop n = cs :=
  List.drop_left' List.length_replicate

theorem itemsText_eq {items : List Value} (nonempty : items ≠ []) :
    itemsText column items = blanks column ++ blockText column (.list items) := by
  cases items with
  | nil => exact absurd rfl nonempty
  | cons item rest =>
      rw [blockText, itemsText, List.append_assoc, drop_blanks]

theorem entriesText_eq {entries : Assoc Scalar Value} (nonempty : entries ≠ []) :
    entriesText column entries = blanks column ++ blockText column (.mapping entries) := by
  cases entries with
  | nil => exact absurd rfl nonempty
  | cons entry rest =>
      rw [blockText, entriesText, List.append_assoc, drop_blanks]

/-! ## Lines at a column -/

theorem standing_append : standing column (lines ++ more) = standing column lines ++ standing column more :=
  List.flatMap_append

theorem standing_cons :
    standing column (line :: lines) = blanks column ++ line.toList ++ '\n' :: standing column lines := by
  simp [standing]

theorem standing_indented (filled : ∀ line ∈ lines, line ≠ "") :
    standing column (lines.map indented) = standing (column + 2) lines := by
  induction lines with
  | nil => rfl
  | cons line rest ih =>
      obtain ⟨head, tail⟩ := List.forall_mem_cons.mp filled
      have moved : indented line = "  " ++ line := if_neg (mt String.isEmpty_iff.mp head)
      have two : "  ".toList = blanks 2 := rfl
      rw [List.map_cons, standing_cons, standing_cons, ih tail, moved, String.toList_append, two,
        blanks, blanks, blanks, ← List.append_assoc, List.replicate_append_replicate]

/-- Lines behind a sign. -/
theorem standing_hang (filled : ∀ line ∈ lines, line ≠ "")
    (standing_eq : standing (column + 2) lines = blanks (column + 2) ++ text) (nonempty : lines ≠ []) :
    standing column (hang sign lines) = blanks column ++ sign.toList ++ text := by
  cases lines with
  | nil => exact absurd rfl nonempty
  | cons line rest =>
      rw [standing_cons, List.append_assoc, List.append_cancel_left_eq] at standing_eq
      rw [hang, standing_cons, standing_indented fun line member => filled line (List.mem_cons_of_mem _ member),
        String.toList_append, ← standing_eq]
      simp only [List.append_assoc]

/-! ## Narrow lines -/

/-- The lines end before the last column of a line when they stand at a column. -/
def Narrow (column : Nat) (lines : List String) : Prop :=
  ∀ line ∈ lines, column + line.length < lineWidth

theorem Narrow.left (narrow : Narrow column (lines ++ more)) : Narrow column lines :=
  (List.forall_mem_append.mp narrow).1

theorem Narrow.right (narrow : Narrow column (lines ++ more)) : Narrow column more :=
  (List.forall_mem_append.mp narrow).2

theorem Narrow.of_indented (narrow : Narrow column (lines.map indented)) (inside : column + 2 < lineWidth) :
    Narrow (column + 2) lines := by
  intro line member
  have moved := narrow _ (List.mem_map_of_mem member)
  rw [indented] at moved
  split at moved
  case isTrue empty => rwa [String.isEmpty_iff.mp empty]
  case isFalse =>
    rw [String.length_append] at moved
    exact (Nat.add_assoc column 2 line.length).symm ▸ moved

theorem Narrow.of_hang (narrow : Narrow column (hang sign lines)) (length : sign.length = 2) :
    Narrow (column + 2) lines := by
  cases lines with
  | nil => exact fun _ impossible => absurd impossible List.not_mem_nil
  | cons line rest =>
      obtain ⟨head, tail⟩ := List.forall_mem_cons.mp narrow
      rw [String.length_append, length, ← Nat.add_assoc] at head
      exact List.forall_mem_cons.mpr ⟨head, Narrow.of_indented tail (by omega)⟩

theorem Narrow.scalarLines_eq {indent : Nat} {s : Scalar} (printable : s.Printable)
    (narrow : Narrow column (scalarLines ⟨some lineWidth, indent⟩ column s)) :
    scalarLines ⟨some lineWidth, indent⟩ column s = [writeScalar s] :=
  Yaml.scalarLines_eq printable fun first member =>
    decide_eq_false (Nat.not_lt.mpr (narrow first (List.mem_of_mem_head? member)).le)

end

/-! ## Values in narrow lines -/

/-- Lines that are filled and that have certain characters when they stand at a column. -/
structure LiesAt (column : Nat) (lines : List String) (text : List Char) : Prop where
  filled : ∀ line ∈ lines, line ≠ ""
  text_eq : standing column lines = text

/-- A value that lies at a column as its form demands, in so few levels that there is room for them,
with integers that are not too long. -/
structure Settled (column : Nat) (v : Value) : Prop where
  nonempty : linesOf column v ≠ []
  lies : LiesAt column (linesOf column v) (blanks column ++ blockText column v)
  shallow : v.depth + 2 * column ≤ 2 * lineWidth
  /-- A list leaves room for one more level, as it may stand directly below a key. -/
  shallower : ∀ items, v = .list items → v.depth + 2 * column < 2 * lineWidth
  texts : v.all Scalar.hasText = true

section

variable {column : Nat} {lines more : List String} {line sign : String} {text after : List Char}
  {s key : Scalar} {v : Value}

theorem LiesAt.nil : LiesAt column [] [] :=
  ⟨fun _ impossible => absurd impossible List.not_mem_nil, rfl⟩

theorem LiesAt.append (first : LiesAt column lines text) (second : LiesAt column more after) :
    LiesAt column (lines ++ more) (text ++ after) :=
  ⟨List.forall_mem_append.mpr ⟨first.filled, second.filled⟩, by
    rw [standing_append, first.text_eq, second.text_eq]⟩

theorem LiesAt.cons (rest : LiesAt column lines text) (filled : line ≠ "") :
    LiesAt column (line :: lines) (blanks column ++ line.toList ++ '\n' :: text) :=
  ⟨List.forall_mem_cons.mpr ⟨filled, rest.filled⟩, by rw [standing_cons, rest.text_eq]⟩

theorem append_ne (filled : line ≠ "") : sign ++ line ≠ "" :=
  fun empty => filled (String.append_eq_empty_iff.mp empty).2

theorem indented_ne (filled : line ≠ "") : indented line ≠ "" := by
  rw [indented, if_neg (mt String.isEmpty_iff.mp filled)]
  exact append_ne filled

theorem LiesAt.indented (lies : LiesAt (column + 2) lines text) : LiesAt column (lines.map indented) text :=
  ⟨List.forall_mem_map.mpr fun line member => indented_ne (lies.filled line member), by
    rw [standing_indented lies.filled, lies.text_eq]⟩

variable (sign) in
theorem LiesAt.hang (lies : LiesAt (column + 2) lines (blanks (column + 2) ++ text)) (nonempty : lines ≠ []) :
    LiesAt column (hang sign lines) (blanks column ++ sign.toList ++ text) := by
  refine ⟨?_, standing_hang lies.filled lies.text_eq nonempty⟩
  cases lines with
  | nil => exact absurd rfl nonempty
  | cons line rest =>
      obtain ⟨head, tail⟩ := List.forall_mem_cons.mp lies.filled
      exact List.forall_mem_cons.mpr ⟨append_ne head, List.forall_mem_map.mpr fun line member =>
        indented_ne (tail line member)⟩

theorem hang_ne_nil : hang sign lines ≠ [] := by
  cases lines <;> exact List.cons_ne_nil _ _

/-! ### Scalars -/

theorem liesAt_scalar (printable : s.Printable) (narrow : column + (writeScalar s).length < lineWidth) :
    LiesAt column [writeScalar s] (blanks column ++ blockText column (.scalar s)) ∧ s.hasText = true := by
  have short : (writeScalar s).length ≤ Numeral.integerLimit :=
    ((Nat.le_add_left _ column).trans narrow.le).trans (by decide)
  have texts := hasText_of_length short
  have filled : writeScalar s ≠ "" := fun empty =>
    (spells_writeScalar printable texts).nonempty (String.toList_eq_nil_iff.mpr empty)
  have none : LiesAt column [] [] := .nil
  have lies := none.cons filled
  rw [List.append_assoc] at lies
  exact ⟨lies, texts⟩

theorem settled_scalar (printable : s.Printable) (narrow : Narrow column (linesOf column (.scalar s))) :
    Settled column (.scalar s) := by
  have one : linesOf column (.scalar s) = [writeScalar s] := Narrow.scalarLines_eq printable narrow
  rw [one] at narrow
  have short := narrow _ (List.mem_singleton_self _)
  obtain ⟨lies, texts⟩ := liesAt_scalar printable short
  exact ⟨one ▸ List.cons_ne_nil _ _, one ▸ lies, by rw [Value.depth]; omega, by simp, texts⟩

/-! ### Lists -/

theorem Settled.item (settled : Settled (column + 2) v) : LiesAt column (hang "- " (linesOf (column + 2) v))
    (blanks column ++ '-' :: ' ' :: blockText (column + 2) v) := by
  have lies := settled.lies.hang "- " settled.nonempty
  rwa [List.append_assoc] at lies

theorem liesAt_items {items : List Value}
    (each : ∀ item ∈ items, Narrow (column + 2) (linesOf (column + 2) item) → Settled (column + 2) item)
    (narrow : Narrow column (itemLines column items)) :
    LiesAt column (itemLines column items) (itemsText column items) ∧
      ∀ item ∈ items, Settled (column + 2) item := by
  induction items with
  | nil => exact ⟨.nil, fun _ impossible => absurd impossible List.not_mem_nil⟩
  | cons item rest ih =>
      obtain ⟨head, tail⟩ := List.forall_mem_cons.mp each
      rw [itemLines] at narrow ⊢
      have settled := head (narrow.left.of_hang rfl)
      obtain ⟨lies, later⟩ := ih tail narrow.right
      exact ⟨settled.item.append lies, List.forall_mem_cons.mpr ⟨settled, later⟩⟩

theorem settled_list {items : List Value}
    (each : ∀ item ∈ items, Narrow (column + 2) (linesOf (column + 2) item) → Settled (column + 2) item)
    (narrow : Narrow column (linesOf column (.list items))) : Settled column (.list items) := by
  cases items with
  | nil =>
      have short := narrow "[]" (List.mem_singleton_self _)
      change column + 2 < 80 at short
      refine ⟨List.cons_ne_nil _ _, ⟨by simp [linesOf], standing_cons.trans ?_⟩, ?_, fun _ _ => ?_, rfl⟩
      · rw [List.append_assoc]
        rfl
      · change 1 + 2 * column ≤ 160
        omega
      · change 1 + 2 * column < 160
        omega
  | cons item rest =>
      rw [linesOf] at narrow
      obtain ⟨lies, settled⟩ := liesAt_items each narrow
      have inside := (settled item List.mem_cons_self).shallow
      have levels : Value.itemsDepth (item :: rest) ≤ 2 * lineWidth - 2 * (column + 2) :=
        Value.itemsDepth_le_iff.mpr fun item member => Nat.le_sub_of_add_le (settled item member).shallow
      have shallow : (Value.list (item :: rest)).depth + 2 * column < 2 * lineWidth := by
        rw [Value.depth]
        omega
      refine ⟨?_, ?_, shallow.le, fun _ _ => shallow, ?_⟩
      · rw [linesOf, itemLines]
        exact List.append_ne_nil_of_left_ne_nil hang_ne_nil _
      · rw [linesOf, ← itemsText_eq (List.cons_ne_nil item rest)]
        exact lies
      · rw [Value.all, Value.allItems_eq, List.all_eq_true]
        exact fun item member => (settled item member).texts

/-! ### Mappings -/

theorem entryLines_cons (column : Nat) (entry : Scalar × Value) (rest : Assoc Scalar Value) :
    entryLines column (entry :: rest) = entryLines column [entry] ++ entryLines column rest := by
  obtain ⟨key, value⟩ := entry
  simp [entryLines]

theorem entriesText_cons (column : Nat) (entry : Scalar × Value) (rest : Assoc Scalar Value) :
    entriesText column (entry :: rest) = entriesText column [entry] ++ entriesText column rest := by
  obtain ⟨key, value⟩ := entry
  simp [entriesText]

/-- What is settled of the entries of a mapping. -/
structure SettledEntry (column : Nat) (entry : Scalar × Value) : Prop where
  lies : LiesAt column (entryLines column [entry]) (entriesText column [entry])
  shallow : entry.2.depth + 1 + 2 * column ≤ 2 * lineWidth
  texts : (entry.1.hasText && entry.2.all Scalar.hasText) = true

/-- A flat value stands behind its key. -/
theorem exists_flat (simple : isSimpleKey key = true) (flat : isFlat v = true)
    (printable : ∀ s, v = .scalar s → s.Printable) (narrow : Narrow column (entryLines column [(key, v)])) :
    ∃ line : String, entryLines column [(key, v)] = [writeScalar key ++ ":" ++ " " ++ line] ∧
      blockText (column + 2) v = line.toList ++ ['\n'] ∧ v.depth ≤ 1 ∧
      (line.length ≤ lineWidth → v.all Scalar.hasText = true) := by
  cases v with
  | scalar s =>
      have printable := printable s rfl
      have lines : entryLines column [(key, .scalar s)] = hang (writeScalar key ++ ":" ++ " ")
          (scalarLines ⟨some lineWidth, column + 2⟩ (column + (writeScalar key ++ ":").length + 1) s) := by
        simp [entryLines, simple]
      rw [lines] at narrow ⊢
      have one : scalarLines ⟨some lineWidth, column + 2⟩ (column + (writeScalar key ++ ":").length + 1) s =
          [writeScalar s] := by
        refine Yaml.scalarLines_eq printable fun first member => decide_eq_false (Nat.not_lt.mpr ?_)
        generalize scalarLines _ _ s = lines at narrow member
        cases lines with
        | nil => cases member
        | cons line rest =>
            cases member
            have short := narrow _ List.mem_cons_self
            rw [String.length_append, String.length_append] at short
            have blank : (" " : String).length = 1 := rfl
            omega
      refine ⟨writeScalar s, ?_, rfl, Nat.zero_le 1, fun short => hasText_of_length (short.trans (by decide))⟩
      rw [one]
      rfl
  | list items =>
      obtain rfl := List.isEmpty_iff.mp flat
      refine ⟨"[]", ?_, rfl, Nat.le_refl 1, fun _ => rfl⟩
      rw [entryLines, if_pos simple, String.append_assoc]
      rfl
  | mapping entries =>
      obtain rfl := List.isEmpty_iff.mp flat
      refine ⟨"\x7b\x7d", ?_, rfl, Nat.le_refl 1, fun _ => rfl⟩
      rw [entryLines, if_pos simple, String.append_assoc]
      rfl

/-- Other values stand below their key. -/
theorem exists_below (simple : isSimpleKey key = true) (nested : isFlat v = false) :
    ∃ lines, entryLines column [(key, v)] = (writeScalar key ++ ":") :: lines ∧
      (Narrow column lines → column + 2 < lineWidth →
        Narrow (column + stepIn v) (linesOf (column + stepIn v) v)) ∧
      (Settled (column + stepIn v) v →
        LiesAt column lines (blanks (column + stepIn v) ++ blockText (column + stepIn v) v) ∧
        v.depth + 1 + 2 * column ≤ 2 * lineWidth) := by
  cases v with
  | scalar s => cases nested
  | list items =>
      cases items with
      | nil => cases nested
      | cons item rest =>
          refine ⟨itemLines column (item :: rest), ?_, fun narrow _ => ?_, fun settled => ⟨?_, ?_⟩⟩
          · simp [entryLines, simple]
          · rw [stepIn_list, Nat.add_zero, linesOf]
            exact narrow
          · have lies := settled.lies
            rw [stepIn_list, Nat.add_zero, linesOf] at lies
            exact lies
          · have shallow := settled.shallower _ rfl
            rw [stepIn_list, Nat.add_zero] at shallow
            omega
  | mapping entries =>
      cases entries with
      | nil => cases nested
      | cons entry rest =>
          refine ⟨(entryLines (column + 2) (entry :: rest)).map indented, ?_, fun narrow inside => ?_,
            fun settled => ⟨?_, ?_⟩⟩
          · simp [entryLines, simple]
          · rw [stepIn_mapping, linesOf]
            exact narrow.of_indented inside
          · have lies := settled.lies
            rw [stepIn_mapping, linesOf] at lies
            exact lies.indented
          · have shallow := settled.shallow
            rw [stepIn_mapping] at shallow
            omega

theorem writeScalar_ne_empty {key : String} (printable : (Scalar.text key).Printable) :
    writeScalar (.text key) ≠ "" :=
  fun empty => (spells_writeScalar printable rfl).nonempty (String.toList_eq_nil_iff.mpr empty)

/-- A value that needs no lines of its own stands on the line of its key. -/
theorem settled_beside {key : String} (printable : (Scalar.text key).Printable)
    (inside : ∀ s, v = .scalar s → s.Printable) (simple : isSimpleKey (.text key) = true)
    (flat : isFlat v = true) (narrow : Narrow column (entryLines column [(.text key, v)])) :
    SettledEntry column (.text key, v) := by
  obtain ⟨line, lines, text, shallow, texts⟩ := exists_flat simple flat inside narrow
  rw [lines] at narrow
  have short := narrow _ (List.mem_singleton_self _)
  rw [String.length_append, String.length_append, String.length_append] at short
  have lies : LiesAt column [writeScalar (.text key) ++ ":" ++ " " ++ line]
      (entriesText column [(.text key, v)]) := by
    refine ⟨List.forall_mem_singleton.mpr ?_, ?_⟩
    · rw [String.append_assoc, String.append_assoc]
      exact fun empty => writeScalar_ne_empty printable (String.append_eq_empty_iff.mp empty).1
    · simp [standing, entriesText, simple, flat, text]
  exact ⟨lines ▸ lies, by simp only; omega, by simp only [texts (by omega), Scalar.hasText, Bool.and_self]⟩

/-- Other values stand below their keys. -/
theorem settled_under {key : String} (printable : (Scalar.text key).Printable)
    (each : ∀ column, Narrow column (linesOf column v) → Settled column v)
    (simple : isSimpleKey (.text key) = true) (flat : isFlat v = false)
    (narrow : Narrow column (entryLines column [(.text key, v)])) :
    SettledEntry column (.text key, v) := by
  have filled := writeScalar_ne_empty printable
  obtain ⟨lines, same, narrowed, settles⟩ := exists_below simple flat
  rw [same] at narrow
  obtain ⟨head, tail⟩ := List.forall_mem_cons.mp narrow
  have length : 0 < (writeScalar (.text key)).length := by
    rw [← String.length_toList, List.length_pos_iff]
    exact mt String.toList_eq_nil_iff.mp filled
  have colon : ":".length = 1 := rfl
  rw [String.length_append, colon] at head
  have settled := each _ (narrowed tail (by omega))
  obtain ⟨below, shallow⟩ := settles settled
  have lies : LiesAt column ((writeScalar (.text key) ++ ":") :: lines)
      (entriesText column [(.text key, v)]) := by
    have sign_filled : writeScalar (.text key) ++ ":" ≠ "" := fun empty =>
      filled (String.append_eq_empty_iff.mp empty).1
    have both := below.cons sign_filled
    simpa [entriesText, simple, flat] using both
  exact ⟨same ▸ lies, shallow, by simp only [settled.texts, Scalar.hasText, Bool.and_self]⟩

/-- A long key and its value stand behind signs of their own. -/
theorem settled_behind {key : String} (printable : (Scalar.text key).Printable)
    (each : ∀ column, Narrow column (linesOf column v) → Settled column v)
    (simple : ¬ isSimpleKey (.text key) = true)
    (narrow : Narrow column (entryLines column [(.text key, v)])) :
    SettledEntry column (.text key, v) := by
  have lines : entryLines column [(.text key, v)] =
      hang "? " (scalarLines ⟨some lineWidth, column + 2⟩ (column + 2) (.text key)) ++
        hang ": " (linesOf (column + 2) v) := by
    simp [entryLines, simple]
  rw [lines] at narrow
  have narrowKey := narrow.left.of_hang rfl
  rw [Narrow.scalarLines_eq printable narrowKey] at lines narrowKey
  have settled := each _ (narrow.right.of_hang rfl)
  obtain ⟨key_lies, _⟩ := liesAt_scalar printable (narrowKey _ (List.mem_singleton_self _))
  have lies := (key_lies.hang "? " (List.cons_ne_nil _ _)).append (settled.lies.hang ": " settled.nonempty)
  have shallow := settled.shallow
  refine ⟨lines ▸ ?_, by simp only; omega, by simp only [settled.texts, Scalar.hasText, Bool.and_self]⟩
  simpa [entriesText, simple, blockText] using lies

theorem settled_entry {key : String} (printable : (Scalar.text key).Printable)
    (inside : ∀ s, v = .scalar s → s.Printable)
    (each : ∀ column, Narrow column (linesOf column v) → Settled column v)
    (narrow : Narrow column (entryLines column [(.text key, v)])) : SettledEntry column (.text key, v) := by
  by_cases simple : isSimpleKey (.text key) = true
  · cases flat : isFlat v with
    | true => exact settled_beside printable inside simple flat narrow
    | false => exact settled_under printable each simple flat narrow
  · exact settled_behind printable each simple narrow

theorem liesAt_entries {entries : Assoc Scalar Value}
    (each : ∀ entry ∈ entries, Narrow column (entryLines column [entry]) → SettledEntry column entry)
    (narrow : Narrow column (entryLines column entries)) :
    LiesAt column (entryLines column entries) (entriesText column entries) ∧
      ∀ entry ∈ entries, SettledEntry column entry := by
  induction entries with
  | nil => exact ⟨.nil, fun _ impossible => absurd impossible List.not_mem_nil⟩
  | cons entry rest ih =>
      obtain ⟨head, tail⟩ := List.forall_mem_cons.mp each
      rw [entryLines_cons] at narrow
      have settled := head narrow.left
      obtain ⟨lies, later⟩ := ih tail narrow.right
      rw [entryLines_cons, entriesText_cons]
      exact ⟨settled.lies.append lies, List.forall_mem_cons.mpr ⟨settled, later⟩⟩

theorem settled_mapping {entries : Assoc Scalar Value}
    (each : ∀ entry ∈ entries, Narrow column (entryLines column [entry]) → SettledEntry column entry)
    (narrow : Narrow column (linesOf column (.mapping entries))) : Settled column (.mapping entries) := by
  cases entries with
  | nil =>
      have short := narrow "\x7b\x7d" (List.mem_singleton_self _)
      change column + 2 < 80 at short
      refine ⟨List.cons_ne_nil _ _, ⟨by simp [linesOf], standing_cons.trans ?_⟩, ?_, by simp, rfl⟩
      · rw [List.append_assoc]
        rfl
      · change 1 + 2 * column ≤ 160
        omega
  | cons entry rest =>
      rw [linesOf] at narrow
      obtain ⟨lies, settled⟩ := liesAt_entries each narrow
      have inside := (settled entry List.mem_cons_self).shallow
      have levels : Value.entriesDepth (entry :: rest) ≤ 2 * lineWidth - 2 * column - 1 :=
        Value.entriesDepth_le_iff.mpr fun entry member => by
          have shallow := (settled entry member).shallow
          omega
      refine ⟨?_, ?_, ?_, by simp, ?_⟩
      · intro empty
        rw [linesOf] at empty
        have some : entriesText column (entry :: rest) ≠ [] := by
          rw [entriesText]
          split <;> simp
        exact some (lies.text_eq.symm.trans (congrArg _ empty))
      · rw [linesOf, ← entriesText_eq (List.cons_ne_nil entry rest)]
        exact lies
      · rw [Value.depth]
        omega
      · rw [Value.all, Value.allEntries_eq, List.all_eq_true]
        exact fun entry member => (settled entry member).texts

/-- Where all lines are narrow, a value lies as its form demands. -/
theorem settled_of_narrow (keyed : v.Keyed Scalar.Printable) (narrow : Narrow column (linesOf column v)) :
    Settled column v := by
  induction keyed generalizing column with
  | scalar printable => exact settled_scalar printable narrow
  | list _ ih => exact settled_list (fun item member => ih item member) narrow
  | mapping texts distinct each ih =>
      refine settled_mapping (fun entry member => ?_) narrow
      obtain ⟨key, value⟩ := entry
      obtain ⟨key, rfl, printable⟩ := texts _ member
      refine settled_entry printable ?_ fun column => ih _ member
      rintro s rfl
      cases each _ member with
      | scalar printable => exact printable

end

end DecisionTables.Yaml
