import Mathlib
import DecisionTables.Proofs.Stepping

/-!
# Tokens of values

The characters of a value in block style are read as the tokens of the value, whatever lines may
follow that belong to it no longer.
-/

namespace DecisionTables.Yaml

/-- A scalar that is read as it was written. -/
def Legible (s : Scalar) : Prop :=
  s.Printable ∧ s.hasText = true

mutual

/-- The tokens of a value.  A list directly below its key has none for its start and its end. -/
def valueTokens (belowKey : Bool) : Value → List Token
  | .scalar s => [scalarToken s]
  | .list [] => [.flowSequenceStart, .flowSequenceEnd]
  | .list (item :: rest) =>
    if belowKey then itemTokens (item :: rest)
    else .blockSequenceStart :: itemTokens (item :: rest) ++ [.blockEnd]
  | .mapping [] => [.flowMappingStart, .flowMappingEnd]
  | .mapping (entry :: rest) => .blockMappingStart :: entryTokens (entry :: rest) ++ [.blockEnd]

/-- The tokens of the items of a list. -/
def itemTokens : List Value → List Token
  | [] => []
  | item :: rest => .blockEntry :: valueTokens false item ++ itemTokens rest

/-- The tokens of the entries of a mapping. -/
def entryTokens : List (Scalar × Value) → List Token
  | [] => []
  | (key, value) :: rest =>
    .key :: scalarToken key :: .value :: valueTokens (isSimpleKey key) value ++ entryTokens rest

end

section

variable {column n : Nat} {v : Value} {rest cs : List Char} {key : String}

theorem Legible.spells {s : Scalar} (legible : Legible s) : Spells s (writeScalar s).toList (scalarToken s) :=
  spells_writeScalar legible.1 legible.2

theorem Spells.mark {s : Scalar} {t : Token} (spells : Spells s cs t) : startsLikeMark cs = false := by
  cases spells with
  | plain unquoted _ => exact unquoted.mark
  | quoted _ => rfl

/-! ## Where a block starts -/

theorem blockText_list (items : List Value) (item : Value) : blockText column (.list (item :: items)) =
    '-' :: ' ' :: (blockText (column + 2) item ++ itemsText column items) := by
  rw [blockText, itemsText, List.append_assoc, drop_blanks, List.cons_append, List.cons_append]

theorem blockText_simple {entries : Assoc Scalar Value} (simple : isSimpleKey (.text key) = true) :
    blockText column (.mapping ((.text key, v) :: entries)) = (writeScalar (.text key)).toList ++
      ':' :: ((if isFlat v then ' ' :: blockText (column + 2) v
        else '\n' :: blanks (column + stepIn v) ++ blockText (column + stepIn v) v) ++
        entriesText column entries) := by
  rw [blockText, entriesText, List.append_assoc, drop_blanks, if_pos simple, List.append_assoc, List.cons_append]

theorem blockText_explicit {entries : Assoc Scalar Value} (explicit : isSimpleKey (.text key) = false) :
    blockText column (.mapping ((.text key, v) :: entries)) = '?' :: ' ' ::
      ((writeScalar (.text key)).toList ++ '\n' :: (blanks column ++
        ':' :: ' ' :: (blockText (column + 2) v ++ entriesText column entries))) := by
  rw [blockText, entriesText, List.append_assoc, drop_blanks, if_neg (Bool.eq_false_iff.mp explicit)]
  simp

theorem endsWord_behindColon {first second : List Char} {flat : Bool} :
    endsWord ((if flat then ' ' :: first else '\n' :: second) ++ rest).head? = true := by
  cases flat <;> rfl

/-- A block starts with a sign, which is not that of a remark nor of a mark between documents. -/
theorem exists_blockText (keyed : v.Keyed Legible) (column : Nat) (rest : List Char) : ∃ ch more,
    blockText column v ++ rest = ch :: more ∧ isPlainAscii ch = true ∧ ch ≠ ' ' ∧ ch ≠ '#' ∧
      startsLikeMark (ch :: more) = false := by
  cases keyed with
  | scalar legible =>
      obtain ⟨ch, more, same, ascii, blank, remark⟩ := legible.spells.first
      have mark := Scanner.startsLikeMark_append legible.spells.mark (.line rest)
      refine ⟨ch, more ++ '\n' :: rest, by simp [blockText, same], ascii, blank, remark, ?_⟩
      rwa [same] at mark
  | @list items _ =>
      cases items with
      | nil => exact ⟨'[', _, rfl, rfl, by decide, by decide, rfl⟩
      | cons item items =>
          rw [blockText_list]
          exact ⟨'-', _, rfl, rfl, by decide, by decide, rfl⟩
  | @mapping entries texts _ _ =>
      cases entries with
      | nil => exact ⟨'\x7b', _, rfl, rfl, by decide, by decide, rfl⟩
      | cons entry entries =>
          obtain ⟨key, value⟩ := entry
          obtain ⟨key, rfl, legible⟩ := texts _ List.mem_cons_self
          cases simple : isSimpleKey (.text key) with
          | false =>
              rw [blockText_explicit simple]
              exact ⟨'?', _, rfl, rfl, by decide, by decide, rfl⟩
          | true =>
              obtain ⟨ch, more, same, ascii, blank, remark⟩ := legible.spells.first
              rw [blockText_simple simple, List.append_assoc, List.cons_append, List.append_assoc]
              have mark := legible.spells.mark
              rw [same] at mark ⊢
              exact ⟨ch, _, rfl, ascii, blank, remark,
                Scanner.startsLikeMark_append mark (.colon endsWord_behindColon)⟩

theorem stands_block (keyed : v.Keyed Legible) (column : Nat) (rest : List Char) :
    Stands column (blanks column ++ (blockText column v ++ rest)) := by
  obtain ⟨ch, more, same, ascii, blank, remark, mark⟩ := exists_blockText keyed column rest
  rw [same]
  refine .line ascii blank remark ?_
  cases column with
  | zero => exact mark
  | succ n => rfl

end

/-! ## Reading blocks -/

namespace Scanner

/-- The reader stands at a column of a line, with certain characters to come. -/
structure At (c : Cursor) (column : Nat) (cs : List Char) : Prop where
  rest_eq : c.rest = cs
  column_eq : c.column = column
  ending : c.ending = none

/-- A value is read as its tokens, wherever it stands further in than the open block and the line behind it
does not. -/
def ReadsBlock (v : Value) : Prop :=
  ∀ (tokens : List Token) (indent : Int) {outer : List Int} {c : Cursor} {column n : Nat} {rest : List Char},
    At c column (blockText column v ++ rest) → indent < column → Stands n rest → (n : Int) ≤ indent →
    ∃ c', At c' n (rest.drop n) ∧ Reaches (block c tokens indent outer true [])
      (block c' (tokens ++ valueTokens false v) indent outer true [])

section

variable {c : Cursor} {column n k : Nat} {v : Value} {rest cs : List Char} {tokens : List Token} {indent : Int}
  {outer : List Int} {allowed : Bool} {key : String}

theorem At.line_end (at_c : At c column cs) (k : Nat) (n : Nat) (rest : List Char) :
    At (((c.onward k ('\n' :: rest)).below rest).onward n (rest.drop n)) n (rest.drop n) :=
  ⟨rfl, Nat.zero_add n, at_c.ending⟩

variable (tokens) in
/-- A flat value is read as its tokens, also behind its key. -/
theorem reaches_flat (keyed : v.Keyed Legible) (flat : isFlat v = true)
    (at_c : At c column (blockText column v ++ rest)) (inside : indent < column) (stands : Stands n rest)
    (outside : (n : Int) ≤ indent) : ∃ c', At c' n (rest.drop n) ∧
      Reaches (block c tokens indent outer allowed [])
        (block c' (tokens ++ valueTokens false v) indent outer true []) := by
  obtain ⟨rest_eq, rfl, ending⟩ := at_c
  cases keyed with
  | @scalar s legible =>
      rw [blockText, List.append_assoc] at rest_eq
      exact ⟨_, At.line_end ⟨rest_eq, rfl, ending⟩ _ n rest,
        reaches_scalar tokens outer allowed ending legible.spells rest_eq stands inside outside⟩
  | @list items _ =>
      obtain rfl := List.isEmpty_iff.mp flat
      exact ⟨_, At.line_end ⟨rest_eq, rfl, ending⟩ _ n rest,
        reaches_empty .list ending rest_eq stands inside⟩
  | @mapping entries _ _ _ =>
      obtain rfl := List.isEmpty_iff.mp flat
      exact ⟨_, At.line_end ⟨rest_eq, rfl, ending⟩ _ n rest,
        reaches_empty .mapping ending rest_eq stands inside⟩

variable (tokens outer) in
/-- The block at a column ends where the next line starts further out. -/
theorem reaches_blockEnd (at_c : At c n (rest.drop n)) (stands : Stands n rest) (inside : (n : Int) ≤ indent)
    (further : indent < column) : Reaches (block c tokens column (indent :: outer) true [])
      (block c (tokens ++ [.blockEnd]) indent outer true []) := by
  have closed := Reaches.close (s := block c tokens column (indent :: outer) true [])
    ⟨at_c.ending, n, rest, stands, at_c.rest_eq⟩ rfl rfl rfl (by
      change ((c.column : Nat) : Int) < column
      rw [at_c.column_eq]
      omega)
  rw [emit_block] at closed
  exact closed

theorem opening_self (column : Nat) (t : Token) : opening column column t = [] :=
  if_neg (lt_irrefl _)

theorem around_self (column : Nat) (outer : List Int) : around column column outer = outer :=
  if_neg (lt_irrefl _)

/-- The dash of an item and the item itself. -/
theorem reaches_item {item : Value} (reads : ReadsBlock item) (keyed : item.Keyed Legible)
    (at_c : At c column ('-' :: ' ' :: (blockText (column + 2) item ++ rest))) (inside : indent ≤ column)
    (stands : Stands n rest) (outside : n ≤ column) : ∃ c', At c' n (rest.drop n) ∧
      Reaches (block c tokens indent outer true [])
        (block c' (tokens ++ opening indent column .blockSequenceStart ++ .blockEntry :: valueTokens false item)
          column (around indent column outer) true []) := by
  obtain ⟨rest_eq, rfl, ending⟩ := at_c
  obtain ⟨d, more, same, ascii, blank, remark, _⟩ := exists_blockText keyed (c.column + 2) rest
  rw [same] at rest_eq
  have dash := reaches_dash tokens outer ending rest_eq ascii blank remark inside
  obtain ⟨c', at_c', reached⟩ := reads _ _ (c := c.onward 2 (d :: more))
    ⟨same.symm, rfl, ending⟩ (Int.ofNat_lt.mpr (Nat.lt_add_of_pos_right Nat.two_pos)) stands
    (Int.ofNat_le.mpr outside)
  rw [List.append_assoc _ [Token.blockEntry]] at reached
  exact ⟨c', at_c', dash.trans reached⟩

/-- The items of a list, which may stand at the column of the open block. -/
theorem reaches_items {items : List Value} (reads : ∀ item ∈ items, ReadsBlock item)
    (keyed : ∀ item ∈ items, item.Keyed Legible) (nonempty : items ≠ [])
    (at_c : At c column (blockText column (.list items) ++ rest)) (inside : indent ≤ column)
    (stands : Stands n rest) (outside : n ≤ column) : ∃ c', At c' n (rest.drop n) ∧
      Reaches (block c tokens indent outer true [])
        (block c' (tokens ++ opening indent column .blockSequenceStart ++ itemTokens items) column
          (around indent column outer) true []) := by
  induction items generalizing c tokens indent outer with
  | nil => exact absurd rfl nonempty
  | cons item items ih =>
      obtain ⟨reads_item, reads_items⟩ := List.forall_mem_cons.mp reads
      obtain ⟨keyed_item, keyed_items⟩ := List.forall_mem_cons.mp keyed
      rw [blockText_list, List.cons_append, List.cons_append, List.append_assoc] at at_c
      cases items with
      | nil =>
          obtain ⟨c', at_c', reached⟩ := reaches_item reads_item keyed_item at_c
            inside stands outside
          rw [itemTokens, itemTokens, List.append_nil]
          exact ⟨c', at_c', reached⟩
      | cons next items =>
          rw [itemsText_eq (List.cons_ne_nil _ _), List.append_assoc] at at_c
          obtain ⟨c', at_c', reached⟩ := reaches_item reads_item keyed_item at_c
            inside (stands_block (.list keyed_items) column rest) (Nat.le_refl _)
          rw [drop_blanks] at at_c'
          obtain ⟨c'', at_c'', reached'⟩ := ih reads_items keyed_items (List.cons_ne_nil _ _) at_c'
            (le_refl (column : Int))
          rw [opening_self, around_self, List.append_nil] at reached'
          refine ⟨c'', at_c'', reached.trans ?_⟩
          rw [itemTokens, ← List.append_assoc]
          exact reached'

/-! ## Entries -/

theorem blockText_flat (flat : isFlat v = true) (column n : Nat) : blockText column v = blockText n v := by
  cases v with
  | scalar s => rfl
  | list items =>
      obtain rfl := List.isEmpty_iff.mp flat
      rfl
  | mapping entries =>
      obtain rfl := List.isEmpty_iff.mp flat
      rfl

theorem valueTokens_flat (flat : isFlat v = true) (belowKey : Bool) :
    valueTokens belowKey v = valueTokens false v := by
  cases v with
  | scalar s => rfl
  | list items =>
      obtain rfl := List.isEmpty_iff.mp flat
      rfl
  | mapping entries =>
      obtain rfl := List.isEmpty_iff.mp flat
      rfl

/-- A value that is read, also when it is a list directly below its key. -/
structure ReadsValue (v : Value) : Prop where
  keyed : v.Keyed Legible
  reads : ReadsBlock v
  items : ∀ items, v = .list items → ∀ item ∈ items, ReadsBlock item ∧ item.Keyed Legible

variable (tokens) in
/-- What stands below a key is read as its tokens. -/
theorem reaches_below (reads : ReadsValue v) (nested : isFlat v = false)
    (at_c : At c k ('\n' :: (blanks (column + stepIn v) ++ (blockText (column + stepIn v) v ++ rest))))
    (stands : Stands n rest) (outside : n ≤ column) : ∃ c', At c' n (rest.drop n) ∧
      Reaches (block c tokens column outer false [])
        (block c' (tokens ++ valueTokens true v) column outer true []) := by
  have line := Reaches.line (s := block c tokens column outer false []) rfl at_c.ending at_c.rest_eq
    (stands_block reads.keyed (column + stepIn v) rest)
  have start : At ((c.below (blanks (column + stepIn v) ++ (blockText (column + stepIn v) v ++ rest))).onward
      (column + stepIn v) ((blanks (column + stepIn v) ++ (blockText (column + stepIn v) v ++ rest)).drop
        (column + stepIn v))) (column + stepIn v) (blockText (column + stepIn v) v ++ rest) :=
    ⟨drop_blanks _ _, Nat.zero_add _, at_c.ending⟩
  cases v with
  | scalar s => cases nested
  | list items =>
      have each := reads.items items rfl
      have nonempty : items ≠ [] := List.isEmpty_eq_false_iff.mp nested
      obtain ⟨c', at_c', reached⟩ := reaches_items
        (fun item member => (each item member).1) (fun item member => (each item member).2) nonempty start
        (le_refl _) stands outside
      have all : valueTokens true (.list items) = itemTokens items := by
        cases items with
        | nil => exact absurd rfl nonempty
        | cons item items => rfl
      rw [stepIn_list, Nat.add_zero, opening_self, around_self, List.append_nil] at reached
      rw [all]
      exact ⟨c', at_c', line.trans reached⟩
  | mapping entries =>
      obtain ⟨c', at_c', reached⟩ := reads.reads _ _ start
        (Int.ofNat_lt.mpr (Nat.lt_add_of_pos_right Nat.two_pos)) stands (Int.ofNat_le.mpr outside)
      have all : valueTokens true (.mapping entries) = valueTokens false (.mapping entries) := by
        cases entries <;> rfl
      rw [all]
      exact ⟨c', at_c', line.trans reached⟩

/-- The tokens of an entry. -/
def entryToken (key : String) (v : Value) : List Token :=
  .key :: scalarToken (.text key) :: .value :: valueTokens (isSimpleKey (.text key)) v

theorem length_key (simple : isSimpleKey (.text key) = true) (printable : IsPrintable key) :
    (writeScalar (.text key)).toList.length ≤ keyReach := by
  have short : 5 + key.length < 128 := of_decide_eq_true (Bool.and_eq_true_iff.mp simple).2
  have each : ∀ n ∈ key.toList.map (fun ch => (singleQuotedChar ch).length), n ≤ 2 := by
    refine List.forall_mem_map.mpr fun ch _ => ?_
    rw [singleQuotedChar]
    split <;> simp
  have total := List.sum_le_card_nsmul (key.toList.map fun ch => (singleQuotedChar ch).length) 2 each
  rw [List.length_map, smul_eq_mul, String.length_toList, ← List.length_flatMap] at total
  rw [writeScalar_text printable, String.toList_ofList, lineOf, keyReach]
  split
  · rw [String.length_toList]
    omega
  · rw [quotedLine, List.length_append, List.length_cons, List.length_singleton]
    omega

/-- A key in front of its colon, and its value. -/
theorem reaches_simple (legible : Legible (.text key)) (simple : isSimpleKey (.text key) = true)
    (reads : ReadsValue v) (at_c : At c column (blockText column (.mapping [(.text key, v)]) ++ rest))
    (inside : indent ≤ column) (stands : Stands n rest) (outside : n ≤ column) : ∃ c', At c' n (rest.drop n) ∧
      Reaches (block c tokens indent outer true [])
        (block c' (tokens ++ opening indent column .blockMappingStart ++ entryToken key v) column
          (around indent column outer) true []) := by
  obtain ⟨rest_eq, rfl, ending⟩ := at_c
  rw [blockText_simple simple, List.append_assoc, List.cons_append, entriesText, List.append_nil] at rest_eq
  have first := reaches_key tokens outer ending legible.spells rest_eq endsWord_behindColon inside
    (length_key simple legible.1)
  rw [entryToken, simple]
  cases flat : isFlat v with
  | true =>
      rw [flat, if_pos rfl] at first
      obtain ⟨d, more, same, ascii, blank, remark, _⟩ := exists_blockText reads.keyed (c.column + 2) rest
      rw [List.cons_append, same] at first
      have gap := Reaches.blanks 1 (s := block (c.onward ((writeScalar (.text key)).toList.length + 1)
          (' ' :: d :: more)) (tokens ++ opening indent c.column .blockMappingStart ++
            [.key, scalarToken (.text key), .value]) c.column (around indent c.column outer) false [])
        ending rfl ascii blank remark
      have start : At ((c.onward ((writeScalar (.text key)).toList.length + 1) (' ' :: d :: more)).onward 1
          (d :: more)) (c.column + ((writeScalar (.text key)).toList.length + 1) + 1)
          (blockText (c.column + ((writeScalar (.text key)).toList.length + 1) + 1) v ++ rest) :=
        ⟨by rw [blockText_flat flat _ (c.column + 2), same]; rfl, rfl, ending⟩
      obtain ⟨c', at_c', reached⟩ := reaches_flat (tokens ++ opening indent c.column .blockMappingStart ++
        [.key, scalarToken (.text key), .value]) reads.keyed flat start (by push_cast; omega) stands
        (Int.ofNat_le.mpr outside)
      rw [List.append_assoc _ [Token.key, scalarToken (.text key), Token.value]] at reached
      rw [valueTokens_flat flat]
      exact ⟨c', at_c', first.trans (gap.trans reached)⟩
  | false =>
      rw [flat, if_neg Bool.false_ne_true] at first
      obtain ⟨c', at_c', reached⟩ := reaches_below
        (tokens ++ opening indent c.column .blockMappingStart ++ [.key, scalarToken (.text key), .value])
        (c := c.onward ((writeScalar (.text key)).toList.length + 1) ('\n' :: blanks (c.column + stepIn v) ++
          blockText (c.column + stepIn v) v ++ rest)) reads flat
        ⟨by rw [Cursor.onward_rest, List.cons_append, List.cons_append, List.append_assoc], rfl, ending⟩
        stands outside
      rw [List.append_assoc _ [Token.key, scalarToken (.text key), Token.value]] at reached
      exact ⟨c', at_c', first.trans reached⟩

/-- A key behind a question mark, and its value below. -/
theorem reaches_explicit (legible : Legible (.text key)) (explicit : isSimpleKey (.text key) = false)
    (reads : ReadsValue v) (at_c : At c column (blockText column (.mapping [(.text key, v)]) ++ rest))
    (inside : indent ≤ column) (stands : Stands n rest) (outside : n ≤ column) : ∃ c', At c' n (rest.drop n) ∧
      Reaches (block c tokens indent outer true [])
        (block c' (tokens ++ opening indent column .blockMappingStart ++ entryToken key v) column
          (around indent column outer) true []) := by
  obtain ⟨rest_eq, rfl, ending⟩ := at_c
  rw [blockText_explicit explicit, entriesText, List.append_nil] at rest_eq
  simp only [List.cons_append, List.append_assoc] at rest_eq
  generalize behind_eq : blanks c.column ++ ':' :: ' ' :: (blockText (c.column + 2) v ++ rest) = behind at rest_eq
  have stands_colon : Stands c.column behind := by
    rw [← behind_eq]
    refine .line rfl (by decide) (by decide) ?_
    cases c.column <;> rfl
  obtain ⟨d, more, same, ascii, blank, remark⟩ := legible.spells.first
  obtain ⟨d', more', same', ascii', blank', remark', _⟩ := exists_blockText reads.keyed (c.column + 2) rest
  have question := reaches_question tokens outer ending (by rw [rest_eq, same]; rfl) ascii blank remark inside
  have read_key := reaches_scalar (tokens ++ opening indent c.column .blockMappingStart ++ [.key])
    (around indent c.column outer) true (c := c.onward 2 (d :: (more ++ '\n' :: behind))) ending legible.spells
    (by rw [same]; rfl) stands_colon (Int.ofNat_lt.mpr (Nat.lt_add_of_pos_right Nat.two_pos)) (le_refl _)
  generalize cursor_eq : Cursor.onward _ c.column (behind.drop c.column) = c' at read_key
  have at_colon : At c' c.column (':' :: ' ' :: d' :: more') := by
    rw [← cursor_eq, ← behind_eq, drop_blanks, same']
    exact ⟨rfl, Nat.zero_add _, ending⟩
  obtain ⟨rest_eq', column_eq, ending'⟩ := at_colon
  have value := reaches_value
    (tokens ++ opening indent c.column .blockMappingStart ++ [.key] ++ [scalarToken (.text key)])
    (around indent c.column outer) ending' rest_eq' ascii' blank' remark'
  rw [column_eq] at value
  obtain ⟨c'', at_c'', reached⟩ := reads.reads
    (tokens ++ opening indent c.column .blockMappingStart ++ [.key] ++ [scalarToken (.text key)] ++ [.value])
    c.column (c := c'.onward 2 (d' :: more')) ⟨same'.symm, congrArg (· + 2) column_eq, ending'⟩
    (Int.ofNat_lt.mpr (Nat.lt_add_of_pos_right Nat.two_pos)) stands (Int.ofNat_le.mpr outside)
  refine ⟨c'', at_c'', question.trans (read_key.trans (value.trans ?_))⟩
  rw [entryToken, explicit]
  simpa only [List.append_assoc, List.cons_append, List.nil_append] using reached

theorem reaches_entry (legible : Legible (.text key)) (reads : ReadsValue v)
    (at_c : At c column (blockText column (.mapping [(.text key, v)]) ++ rest))
    (inside : indent ≤ column) (stands : Stands n rest) (outside : n ≤ column) : ∃ c', At c' n (rest.drop n) ∧
      Reaches (block c tokens indent outer true [])
        (block c' (tokens ++ opening indent column .blockMappingStart ++ entryToken key v) column
          (around indent column outer) true []) := by
  cases simple : isSimpleKey (.text key) with
  | true => exact reaches_simple legible simple reads at_c inside stands outside
  | false => exact reaches_explicit legible simple reads at_c inside stands outside

theorem blockText_mapping (entry : Scalar × Value) (entries : Assoc Scalar Value) :
    blockText column (.mapping (entry :: entries)) =
      blockText column (.mapping [entry]) ++ entriesText column entries := by
  have whole : entriesText column (entry :: entries) =
      blanks column ++ blockText column (.mapping (entry :: entries)) :=
    entriesText_eq (List.cons_ne_nil entry entries)
  rw [entriesText_cons, entriesText_eq (List.cons_ne_nil entry []), List.append_assoc,
    List.append_cancel_left_eq] at whole
  exact whole.symm

/-- The entries of a mapping. -/
theorem reaches_entries {entries : Assoc Scalar Value} (keyed : (Value.mapping entries).Keyed Legible)
    (reads : ∀ entry ∈ entries, ReadsValue entry.2) (nonempty : entries ≠ [])
    (at_c : At c column (blockText column (.mapping entries) ++ rest)) (inside : indent ≤ column)
    (stands : Stands n rest) (outside : n ≤ column) : ∃ c', At c' n (rest.drop n) ∧
      Reaches (block c tokens indent outer true [])
        (block c' (tokens ++ opening indent column .blockMappingStart ++ entryTokens entries) column
          (around indent column outer) true []) := by
  induction entries generalizing c tokens indent outer with
  | nil => exact absurd rfl nonempty
  | cons entry entries ih =>
      obtain ⟨reads_entry, reads_entries⟩ := List.forall_mem_cons.mp reads
      obtain ⟨key, value⟩ := entry
      cases keyed with
      | mapping texts distinct each =>
          obtain ⟨⟨key, rfl, legible⟩, later_texts⟩ := List.forall_mem_cons.mp texts
          have later : (Value.mapping entries).Keyed Legible :=
            .mapping later_texts (List.pairwise_cons.mp distinct).2 (List.forall_mem_cons.mp each).2
          have first : entryTokens ((.text key, value) :: entries) = entryToken key value ++ entryTokens entries := rfl
          rw [blockText_mapping, List.append_assoc] at at_c
          cases entries with
          | nil =>
              obtain ⟨c', at_c', reached⟩ := reaches_entry legible reads_entry
                at_c inside stands outside
              rw [first, entryTokens, List.append_nil]
              exact ⟨c', at_c', reached⟩
          | cons next entries =>
              rw [entriesText_eq (List.cons_ne_nil _ _), List.append_assoc] at at_c
              obtain ⟨c', at_c', reached⟩ := reaches_entry legible reads_entry
                at_c inside (stands_block later column rest) (Nat.le_refl _)
              rw [drop_blanks] at at_c'
              obtain ⟨c'', at_c'', reached'⟩ := ih later reads_entries (List.cons_ne_nil _ _) at_c'
                (le_refl (column : Int))
              rw [opening_self, around_self, List.append_nil] at reached'
              refine ⟨c'', at_c'', reached.trans ?_⟩
              rw [first, ← List.append_assoc]
              exact reached'

/-! ## All values -/

/-- A list or mapping that is open at a column is closed behind its last line. -/
theorem reads_nested {part : List Token} {start : Token}
    (tokens_eq : valueTokens false v = start :: part ++ [.blockEnd])
    (reads : ∀ {c : Cursor} {column n : Nat} {rest : List Char} {tokens : List Token} {indent : Int}
      {outer : List Int}, At c column (blockText column v ++ rest) → indent ≤ column → Stands n rest →
      n ≤ column → ∃ c', At c' n (rest.drop n) ∧ Reaches (block c tokens indent outer true [])
        (block c' (tokens ++ opening indent column start ++ part) column (around indent column outer) true [])) :
    ReadsBlock v := by
  intro tokens indent outer c column n rest at_c inside stands outside
  obtain ⟨c', at_c', reached⟩ := reads at_c inside.le stands (by omega)
  rw [opening, if_pos inside, around, if_pos inside] at reached
  have closed := reaches_blockEnd (tokens ++ [start] ++ part) outer at_c' stands outside inside
  refine ⟨c', at_c', reached.trans ?_⟩
  rw [tokens_eq]
  simpa only [List.append_assoc, List.cons_append, List.nil_append] using closed

/-- Every value is read as its tokens. -/
theorem readsValue (keyed : v.Keyed Legible) : ReadsValue v := by
  induction keyed with
  | scalar legible =>
      refine ⟨.scalar legible, fun tokens _ => ?_, by simp⟩
      exact fun at_c inside stands outside => reaches_flat tokens (.scalar legible) rfl at_c inside stands outside
  | @list items each ih =>
      refine ⟨.list each, ?_, fun others same item member => ?_⟩
      · cases items with
        | nil =>
            exact fun tokens _ => fun at_c inside stands outside =>
              reaches_flat tokens (.list each) rfl at_c inside stands outside
        | cons item items =>
            exact reads_nested rfl fun at_c inside stands outside => reaches_items
              (fun item member => (ih item member).reads) each (List.cons_ne_nil _ _) at_c inside stands outside
      · cases same
        exact ⟨(ih item member).reads, each item member⟩
  | @mapping entries texts distinct each ih =>
      refine ⟨.mapping texts distinct each, ?_, by simp⟩
      cases entries with
      | nil =>
          exact fun tokens _ => fun at_c inside stands outside =>
            reaches_flat tokens (.mapping texts distinct each) rfl at_c inside stands outside
      | cons entry entries =>
          exact reads_nested rfl fun at_c inside stands outside => reaches_entries
            (.mapping texts distinct each) ih (List.cons_ne_nil _ _) at_c inside stands outside

/-! ## Whole texts -/

/-- The reader is at the end of the text. -/
structure AtEnd (c : Cursor) : Prop where
  rest_eq : c.rest = []
  column_eq : c.column = 0
  ending : c.ending = none

/-- At the end of the text the open blocks are closed. -/
theorem scans_end (at_end : AtEnd c) (inside : indent ≤ 0) (finish : List Token)
    (closed : (block c tokens indent outer true []).closeBlocks (-1) = block c (tokens ++ finish) (-1) [] true []) :
    Scans 1 (block c tokens indent outer true []) (tokens ++ finish) := by
  have waits : (block c tokens indent outer true []).Waits := ⟨at_end.ending, 0, [], .finish, at_end.rest_eq⟩
  have peek : (block c tokens indent outer true []).cursor.peek? = none := by
    change c.rest.head? = none
    rw [at_end.rest_eq]
    rfl
  have inside' : indent ≤ c.column := by rwa [at_end.column_eq]
  have last : (block c tokens indent outer true []).next =
      .ok (block c (tokens ++ finish) (-1) [] false [], true) := by
    rw [waits.next_eq, dropStale_eq no_places]
    change resume ((block c tokens indent outer true []).closeBlocks c.column) = _
    rw [closeBlocks_inside inside', resume, peek]
    dsimp only
    rw [finishDocument, closed]
    rfl
  exact .done last

/-- Where reading on leads to the end, the tokens are found in as many steps as there are characters, and one. -/
theorem run_of_reaches {s : Scanner} (finish : List Token)
    (reached : Reaches s (block c tokens indent outer true [])) (at_end : AtEnd c) (inside : indent ≤ 0)
    (closed : (block c tokens indent outer true []).closeBlocks (-1) = block c (tokens ++ finish) (-1) [] true []) :
    run (s.cursor.rest.length + 1) s = tokens ++ finish := by
  obtain ⟨k, length, back⟩ := reached
  exact (back 1 _ (scans_end at_end inside finish closed)).run_eq (by omega)

/-- The text of a mapping is read as its tokens. -/
theorem scan_block {entries : Assoc Scalar Value} (keyed : (Value.mapping entries).Keyed Legible) :
    Token.scan ⟨blockText 0 (.mapping entries), none⟩ = valueTokens false (.mapping entries) := by
  obtain ⟨ch, more, same, ascii, _⟩ := exists_blockText keyed 0 []
  rw [List.append_nil] at same
  have mark : ((blockText 0 (.mapping entries)).head? == some '\uFEFF') = false := by
    rw [same]
    exact beq_false_of_ne fun equal => ne_of_ascii ascii (by decide) (Option.some.inj equal)
  rw [Token.scan]
  dsimp only
  rw [mark, if_neg Bool.false_ne_true]
  generalize start_eq : Cursor.start ⟨blockText 0 (.mapping entries), none⟩ = c
  have at_start : At c 0 (blockText 0 (.mapping entries) ++ []) := by
    rw [← start_eq, List.append_nil]
    exact ⟨rfl, rfl, rfl⟩
  have text : c.rest = blockText 0 (.mapping entries) := at_start.rest_eq.trans (List.append_nil _)
  have begins : start ⟨blockText 0 (.mapping entries), none⟩ = block c [] (-1) [] true [] := by
    rw [start, start_eq]
    rfl
  rw [begins, ← text]
  cases entries with
  | nil =>
      have reached : Reaches (block c [] (-1) [] true []) _ :=
        reaches_empty .mapping at_start.ending at_start.rest_eq .finish (by rw [at_start.column_eq]; decide)
      exact run_of_reaches [] reached ⟨rfl, rfl, at_start.ending⟩ (by decide) rfl
  | cons entry entries =>
      cases keyed with
      | mapping texts distinct each =>
          obtain ⟨c', at_c', reached⟩ := reaches_entries (.mapping texts distinct each)
            (fun entry member => readsValue (each entry member))
            (List.cons_ne_nil _ _) at_start (show (-1 : Int) ≤ (0 : Nat) by decide) .finish (Nat.le_refl _)
          have closed : (block c' ([] ++ opening (-1) 0 .blockMappingStart ++ entryTokens (entry :: entries)) 0
              (around (-1) 0 []) true []).closeBlocks (-1) =
              block c' (([] ++ opening (-1) 0 .blockMappingStart ++ entryTokens (entry :: entries)) ++ [.blockEnd])
                (-1) [] true [] := by
            rw [← emit_block]
            rfl
          exact run_of_reaches [.blockEnd] reached ⟨at_c'.rest_eq, at_c'.column_eq, at_c'.ending⟩ (le_refl _) closed

end

end Scanner

end DecisionTables.Yaml
