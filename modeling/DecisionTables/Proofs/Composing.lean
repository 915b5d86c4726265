import Mathlib
import DecisionTables.Proofs.Outlining
import DecisionTables.Yaml.Reader

/-!
# Values of tokens

The tokens of a value are composed to a tree, and the tree denotes the value.  Lists and mappings
need as many levels of room as they have, and a list directly below its key ends where no further
dash follows.
-/

namespace DecisionTables.Yaml

/-- The node of a scalar that is one token. -/
def Token.node : Token → Node
  | .plain text => .plain text
  | .literal content => .literal content
  | _ => .missing

mutual

/-- The tree of a value. -/
def nodeOf : Value → Node
  | .scalar s => (scalarToken s).node
  | .list items => .sequence (itemNodes items)
  | .mapping entries => .mapping (entryNodes entries)

/-- The trees of the items of a list. -/
def itemNodes : List Value → List Node
  | [] => []
  | item :: rest => nodeOf item :: itemNodes rest

/-- The trees of the keys and values of a mapping. -/
def entryNodes : List (Scalar × Value) → List (Node × Node)
  | [] => []
  | (key, value) :: rest => ((scalarToken key).node, nodeOf value) :: entryNodes rest

end

namespace Node

section

variable {block dash belowKey : Bool} {fuel room : Nat} {tokens rest stops : List Token} {s : Scalar} {cs : List Char}
  {t : Token} {v : Value} {node key value : Node}

/-! ## The first token -/

theorem read_scalar (spells : Spells s cs t) :
    read block dash (fuel + 1) room (t :: rest) = .ok (t.node, rest) := by
  cases spells <;> rfl

/-- What the first token of a value never is; only that of a list directly below its key is a dash. -/
def neverFirst (belowKey : Bool) : List Token :=
  .documentStart :: if belowKey then [.key, .value, .blockEnd] else [.blockEntry, .key, .value, .blockEnd]

theorem scalarToken_neverFirst (spells : Spells s cs t) (belowKey : Bool) : t ∉ neverFirst belowKey := by
  cases spells <;> cases belowKey <;> simp [neverFirst]

theorem exists_valueTokens (keyed : v.Keyed Legible) (belowKey : Bool) : ∃ t more,
    valueTokens belowKey v = t :: more ∧ t ∉ neverFirst belowKey := by
  cases keyed with
  | @scalar s legible =>
      exact ⟨scalarToken s, [], rfl, scalarToken_neverFirst legible.spells belowKey⟩
  | @list items _ =>
      cases items with
      | nil => exact ⟨_, _, rfl, by cases belowKey <;> decide⟩
      | cons item items => cases belowKey <;> exact ⟨_, _, rfl, by decide⟩
  | @mapping entries _ _ _ =>
      cases entries with
      | nil => exact ⟨_, _, rfl, by cases belowKey <;> decide⟩
      | cons entry entries => exact ⟨_, _, rfl, by cases belowKey <;> decide⟩

theorem readUnless_eq (start : t ∉ stops) : readUnless block dash stops (fuel + 1) room (t :: tokens) =
    read block dash fuel room (t :: tokens) := by
  have other : isNext (t :: tokens) stops = false := by simpa [isNext] using start
  rw [readUnless, other, if_neg Bool.false_ne_true]

/-! ## One entry further -/

theorem readBlockSequence_item {done : List Node}
    (item : readUnless true false [.blockEntry, .blockEnd] fuel room tokens = .ok (node, rest)) :
    readBlockSequence (fuel + 1) room done (.blockEntry :: tokens) =
      readBlockSequence fuel room (node :: done) rest := by
  rw [readBlockSequence, item]
  rfl

theorem readDashes_item {done : List Node}
    (item : readUnless true false [.blockEntry, .key, .value, .blockEnd] fuel room tokens = .ok (node, rest)) :
    readDashes (fuel + 1) room done (.blockEntry :: tokens) = readDashes fuel room (node :: done) rest := by
  rw [readDashes, item]
  rfl

theorem readBlockMapping_entry {done : List (Node × Node)} {behind : List Token}
    (first : readUnless true true [.key, .value, .blockEnd] fuel room tokens = .ok (key, .value :: behind))
    (second : readUnless true true [.key, .value, .blockEnd] fuel room behind = .ok (value, rest)) :
    readBlockMapping (fuel + 1) room done (.key :: tokens) =
      readBlockMapping fuel room ((key, value) :: done) rest := by
  simp only [readBlockMapping, bind, Except.bind, first, second]

/-! ## Lists and mappings -/

/-- The tokens of a value are composed to its tree, if there is room for its levels. -/
def Composes (v : Value) : Prop :=
  ∀ {belowKey dash : Bool} {fuel room : Nat} {rest : List Token}, (belowKey = true → dash = true) →
    3 * (valueTokens belowKey v).length + 2 ≤ fuel → v.depth ≤ room →
    (belowKey = true → rest.head? ≠ some .blockEntry) →
    read true dash fuel room (valueTokens belowKey v ++ rest) = .ok (nodeOf v, rest)

theorem Composes.part (composes : Composes v) (keyed : v.Keyed Legible)
    (never : stops ⊆ neverFirst belowKey) (allowed : belowKey = true → dash = true)
    (enough : 3 * (valueTokens belowKey v).length + 3 ≤ fuel) (inside : v.depth ≤ room)
    (ends : belowKey = true → rest.head? ≠ some .blockEntry) :
    readUnless true dash stops fuel room (valueTokens belowKey v ++ rest) = .ok (nodeOf v, rest) := by
  obtain ⟨fuel, rfl⟩ := Nat.exists_eq_succ_of_ne_zero (Nat.ne_zero_of_lt enough)
  obtain ⟨t, more, same, start⟩ := exists_valueTokens keyed belowKey
  have read := composes allowed (Nat.le_of_succ_le_succ enough) inside ends
  rw [same, List.cons_append] at read ⊢
  rw [readUnless_eq fun inside => start (never inside), read]

theorem Composes.item (composes : Composes v) (keyed : v.Keyed Legible) (never : stops ⊆ neverFirst false)
    (enough : 3 * (valueTokens false v).length + 3 ≤ fuel) (inside : v.depth ≤ room) :
    readUnless true dash stops fuel room (valueTokens false v ++ rest) = .ok (nodeOf v, rest) :=
  composes.part keyed never nofun enough inside nofun

theorem composes_scalar (legible : Legible s) : Composes (.scalar s) := by
  intro belowKey dash fuel room rest _ enough _ _
  obtain ⟨fuel, rfl⟩ := Nat.exists_eq_succ_of_ne_zero (Nat.ne_zero_of_lt enough)
  exact read_scalar legible.spells

theorem readBlockSequence_items {items : List Value} {done : List Node} (each : ∀ item ∈ items, Composes item)
    (keyed : ∀ item ∈ items, item.Keyed Legible) (enough : 3 * (itemTokens items).length + 1 ≤ fuel)
    (inside : ∀ item ∈ items, item.depth ≤ room) :
    readBlockSequence fuel room done (itemTokens items ++ .blockEnd :: rest) =
      .ok (.sequence (done.reverse ++ itemNodes items), rest) := by
  induction items generalizing done fuel with
  | nil =>
      obtain ⟨fuel, rfl⟩ := Nat.exists_eq_succ_of_ne_zero (Nat.ne_zero_of_lt enough)
      rw [itemNodes, List.append_nil]
      rfl
  | cons item items ih =>
      obtain ⟨composes, each⟩ := List.forall_mem_cons.mp each
      obtain ⟨keyed_item, keyed⟩ := List.forall_mem_cons.mp keyed
      obtain ⟨inside_item, inside⟩ := List.forall_mem_cons.mp inside
      obtain ⟨fuel, rfl⟩ := Nat.exists_eq_succ_of_ne_zero (Nat.ne_zero_of_lt enough)
      rw [itemTokens, List.length_append, List.length_cons] at enough
      rw [itemTokens, List.cons_append, List.cons_append, List.append_assoc,
        readBlockSequence_item (composes.item keyed_item (by decide) (by omega) inside_item),
        ih each keyed (by omega) inside, itemNodes, List.reverse_cons, List.append_assoc, List.singleton_append]

theorem readDashes_items {items : List Value} {done : List Node} (each : ∀ item ∈ items, Composes item)
    (keyed : ∀ item ∈ items, item.Keyed Legible) (enough : 3 * (itemTokens items).length + 1 ≤ fuel)
    (inside : ∀ item ∈ items, item.depth ≤ room) (ends : rest.head? ≠ some .blockEntry) :
    readDashes fuel room done (itemTokens items ++ rest) =
      .ok (.sequence (done.reverse ++ itemNodes items), rest) := by
  induction items generalizing done fuel with
  | nil =>
      obtain ⟨fuel, rfl⟩ := Nat.exists_eq_succ_of_ne_zero (Nat.ne_zero_of_lt enough)
      rw [itemNodes, List.append_nil, itemTokens, List.nil_append]
      unfold readDashes
      split
      · exact absurd rfl ends
      · rfl
  | cons item items ih =>
      obtain ⟨composes, each⟩ := List.forall_mem_cons.mp each
      obtain ⟨keyed_item, keyed⟩ := List.forall_mem_cons.mp keyed
      obtain ⟨inside_item, inside⟩ := List.forall_mem_cons.mp inside
      obtain ⟨fuel, rfl⟩ := Nat.exists_eq_succ_of_ne_zero (Nat.ne_zero_of_lt enough)
      rw [itemTokens, List.length_append, List.length_cons] at enough
      rw [itemTokens, List.cons_append, List.cons_append, List.append_assoc,
        readDashes_item (composes.item keyed_item (by decide) (by omega) inside_item),
        ih each keyed (by omega) inside, itemNodes, List.reverse_cons, List.append_assoc, List.singleton_append]

theorem readBlockMapping_entries {entries : Assoc Scalar Value} {done : List (Node × Node)}
    (each : ∀ entry ∈ entries, Legible entry.1 ∧ Composes entry.2)
    (keyed : ∀ entry ∈ entries, entry.2.Keyed Legible) (enough : 3 * (entryTokens entries).length + 1 ≤ fuel)
    (inside : ∀ entry ∈ entries, entry.2.depth ≤ room) :
    readBlockMapping fuel room done (entryTokens entries ++ .blockEnd :: rest) =
      .ok (.mapping (done.reverse ++ entryNodes entries), rest) := by
  induction entries generalizing done fuel with
  | nil =>
      obtain ⟨fuel, rfl⟩ := Nat.exists_eq_succ_of_ne_zero (Nat.ne_zero_of_lt enough)
      rw [entryNodes, List.append_nil]
      rfl
  | cons entry entries ih =>
      obtain ⟨key, value⟩ := entry
      obtain ⟨⟨legible, composes⟩, each⟩ := List.forall_mem_cons.mp each
      obtain ⟨keyed_value, keyed⟩ := List.forall_mem_cons.mp keyed
      obtain ⟨inside_value, inside⟩ := List.forall_mem_cons.mp inside
      obtain ⟨fuel, rfl⟩ := Nat.exists_eq_succ_of_ne_zero (Nat.ne_zero_of_lt enough)
      simp only [entryTokens, List.length_append, List.length_cons] at enough
      have ends : (entryTokens entries ++ .blockEnd :: rest).head? ≠ some .blockEntry := by
        cases entries <;> simp [entryTokens]
      generalize tail_eq : entryTokens entries ++ .blockEnd :: rest = tail at ends
      have first : readUnless true true [.key, .value, .blockEnd] fuel room
          (valueTokens false (.scalar key) ++ .value :: (valueTokens (isSimpleKey key) value ++ tail)) =
          .ok ((scalarToken key).node, .value :: (valueTokens (isSimpleKey key) value ++ tail)) :=
        Composes.item (composes_scalar legible) (.scalar legible) (by decide)
          (by change 3 * 1 + 3 ≤ fuel; omega) (Nat.zero_le room)
      have second : readUnless true true [.key, .value, .blockEnd] fuel room
          (valueTokens (isSimpleKey key) value ++ tail) = .ok (nodeOf value, tail) :=
        composes.part keyed_value (by cases isSimpleKey key <;> decide) (fun _ => rfl)
          (by change 3 * (valueTokens _ value).length + 3 ≤ fuel; omega) inside_value fun _ => ends
      have whole : entryTokens ((key, value) :: entries) ++ .blockEnd :: rest = .key ::
          (valueTokens false (.scalar key) ++ .value :: (valueTokens (isSimpleKey key) value ++ tail)) := by
        rw [← tail_eq]
        simp [entryTokens, valueTokens]
      rw [whole, readBlockMapping_entry first second, ← tail_eq, ih each keyed (by omega) inside, entryNodes,
        List.reverse_cons, List.append_assoc, List.singleton_append]

/-- The tokens of every value are composed to its tree. -/
theorem composes (keyed : v.Keyed Legible) : Composes v := by
  induction keyed with
  | scalar legible => exact composes_scalar legible
  | @list items each ih =>
      intro belowKey dash fuel room rest allowed enough inside ends
      obtain ⟨fuel, rfl⟩ := Nat.exists_eq_add_of_le' ((Nat.le_add_left 2 _).trans enough)
      obtain ⟨room, rfl⟩ := Nat.exists_eq_succ_of_ne_zero (Nat.ne_zero_of_lt inside)
      have levels := Value.itemsDepth_le_iff.mp (Nat.le_of_succ_le_succ inside)
      cases items with
      | nil => rfl
      | cons item items =>
          cases belowKey with
          | false =>
              have read : readBlockSequence (fuel + 1) room [] (itemTokens (item :: items) ++ .blockEnd :: rest) =
                  .ok (.sequence (itemNodes (item :: items)), rest) := readBlockSequence_items ih each (by
                change 3 * ((itemTokens (item :: items) ++ [Token.blockEnd]).length + 1) + 2 ≤ fuel + 2 at enough
                rw [List.length_append] at enough
                omega) levels
              change readBlockSequence (fuel + 1) room [] (itemTokens (item :: items) ++ [.blockEnd] ++ rest) = _
              rwa [List.append_assoc]
          | true =>
              have read : readDashes (fuel + 1) room [] (itemTokens (item :: items) ++ rest) =
                  .ok (.sequence (itemNodes (item :: items)), rest) := readDashes_items ih each
                (by change 3 * (itemTokens (item :: items)).length + 2 ≤ fuel + 2 at enough; omega) levels (ends rfl)
              rw [allowed rfl]
              exact read
  | @mapping entries texts distinct each ih =>
      intro belowKey dash fuel room rest allowed enough inside ends
      obtain ⟨fuel, rfl⟩ := Nat.exists_eq_add_of_le' ((Nat.le_add_left 2 _).trans enough)
      obtain ⟨room, rfl⟩ := Nat.exists_eq_succ_of_ne_zero (Nat.ne_zero_of_lt inside)
      have levels := Value.entriesDepth_le_iff.mp (Nat.le_of_succ_le_succ inside)
      have legible : ∀ entry ∈ entries, Legible entry.1 := fun entry member => by
        obtain ⟨key, same, legible⟩ := texts entry member
        rwa [same]
      cases entries with
      | nil => rfl
      | cons entry entries =>
          have read : readBlockMapping (fuel + 1) room [] (entryTokens (entry :: entries) ++ .blockEnd :: rest) =
              .ok (.mapping (entryNodes (entry :: entries)), rest) := readBlockMapping_entries
            (fun entry member => ⟨legible entry member, ih entry member⟩) each (by
              change 3 * ((entryTokens (entry :: entries) ++ [Token.blockEnd]).length + 1) + 2 ≤ fuel + 2 at enough
              rw [List.length_append] at enough
              omega) levels
          change readBlockMapping (fuel + 1) room [] (entryTokens (entry :: entries) ++ [.blockEnd] ++ rest) = _
          rwa [List.append_assoc]

/-- The tokens of a document are composed to the tree of its value. -/
theorem ofTokens_eq (keyed : v.Keyed Legible) (inside : v.depth ≤ room) :
    ofTokens room (valueTokens false v) = .ok (some (nodeOf v)) := by
  obtain ⟨t, more, same, start⟩ := exists_valueTokens keyed false
  have whole : read true false (4 * (valueTokens false v).length + 4) room (valueTokens false v) =
      .ok (nodeOf v, []) := by
    have read : read true false (4 * (valueTokens false v).length + 4) room (valueTokens false v ++ []) =
        .ok (nodeOf v, []) := composes keyed nofun (by omega) inside nofun
    rwa [List.append_nil] at read
  have filled : (valueTokens false v).isEmpty = false := by rw [same]; rfl
  have body : isNext (valueTokens false v) [.documentStart] = false := by
    rw [same]
    simpa [isNext] using fun equal : t = .documentStart => start (equal ▸ List.mem_cons_self)
  rw [ofTokens, filled, body]
  simp only [Bool.false_eq_true, if_false, lt_irrefl, decide_false, Bool.false_and, whole]
  rfl

end

end Node

/-! ## Values of trees -/

/-- A tree without faults denotes a value. -/
structure Denotes (node : Node) (v : Value) : Prop where
  value : valueOf node = .ok v
  faultless : (faultLevels node).flatten = []

section

variable {s : Scalar} {cs : List Char} {t : Token} {v : Value}

theorem denotes_scalar (spells : Spells s cs t) : Denotes t.node (.scalar s) := by
  cases spells with
  | plain _ value =>
      constructor
      · rw [Token.node, valueOf, value]
        rfl
      · rw [Token.node, faultLevels, value]
        rfl
  | quoted _ => exact ⟨rfl, rfl⟩

theorem keyOf_node (spells : Spells s cs t) : keyOf t.node = .ok s := by
  cases spells with
  | plain _ value =>
      have other : (Plain.kind (String.ofList cs) == .assign) = false := by
        refine beq_false_of_ne fun assign => ?_
        rw [scalarOf, assign] at value
        cases value
      rw [Token.node, keyOf, other, if_neg Bool.false_ne_true, value]
  | quoted _ => rfl

theorem mappingOf_eq {entries : Assoc Scalar Value} (texts : ∀ entry ∈ entries, ∃ key, entry.1 = .text key)
    (distinct : Assoc.Distinct entries) : mappingOf entries = .mapping entries := by
  have apart : entries.Pairwise fun a b => sameKey a.1 b.1 = false := by
    refine List.Pairwise.imp_of_mem (fun inside _ other => ?_) distinct
    obtain ⟨key, same⟩ := texts _ inside
    rw [same] at other ⊢
    rw [sameKey, other]
    rfl
  exact congrArg Value.mapping (@Assoc.Distinct.ofList_eq _ _ ⟨sameKey⟩ _ apart)

theorem denotes_list {items : List Value} (each : ∀ item ∈ items, Denotes (nodeOf item) item) :
    itemsOf (itemNodes items) = .ok items ∧ (itemFaultLevels (itemNodes items)).flatten = [] := by
  induction items with
  | nil => exact ⟨rfl, rfl⟩
  | cons item items ih =>
      obtain ⟨first, each⟩ := List.forall_mem_cons.mp each
      obtain ⟨values, faultless⟩ := ih each
      constructor
      · rw [itemNodes, itemsOf, first.value, values]
        rfl
      · rw [itemNodes, itemFaultLevels, flatten_joinLevels_eq_nil]
        exact ⟨first.faultless, faultless⟩

theorem denotes_mapping {entries : Assoc Scalar Value} 
    (each : ∀ entry ∈ entries, Legible entry.1 ∧ Denotes (nodeOf entry.2) entry.2) :
    entriesOf (entryNodes entries) = .ok entries ∧ (entryFaultLevels (entryNodes entries)).flatten = [] := by
  induction entries with
  | nil => exact ⟨rfl, rfl⟩
  | cons entry entries ih =>
      obtain ⟨key, value⟩ := entry
      obtain ⟨⟨legible, first⟩, each⟩ := List.forall_mem_cons.mp each
      obtain ⟨values, faultless⟩ := ih each
      have key_eq := keyOf_node legible.spells
      constructor
      · rw [entryNodes, entriesOf, key_eq]
        change (do return (key, ← valueOf (nodeOf value)) :: (← entriesOf (entryNodes entries))) = _
        rw [first.value, values]
        rfl
      · rw [entryNodes, entryFaultLevels, flatten_joinLevels_eq_nil, flatten_joinLevels_eq_nil, key_eq]
        exact ⟨rfl, first.faultless, faultless⟩

/-- The tree of a value denotes the value. -/
theorem denotes (keyed : v.Keyed Legible) : Denotes (nodeOf v) v := by
  induction keyed with
  | scalar legible => exact denotes_scalar legible.spells
  | @list items _ ih =>
      obtain ⟨values, faultless⟩ := denotes_list ih
      exact ⟨by rw [nodeOf, valueOf, values]; rfl, by rwa [nodeOf, faultLevels, List.flatten_cons, List.nil_append]⟩
  | @mapping entries texts distinct _ ih =>
      have each : ∀ entry ∈ entries, Legible entry.1 ∧ Denotes (nodeOf entry.2) entry.2 := fun entry member => by
        obtain ⟨key, same, legible⟩ := texts entry member
        exact ⟨by rwa [same], ih entry member⟩
      obtain ⟨values, faultless⟩ := denotes_mapping each
      have whole := mappingOf_eq (fun entry member => (texts entry member).imp fun _ both => both.1) distinct
      exact ⟨by rw [nodeOf, valueOf, values]; exact congrArg Except.ok whole,
        by rwa [nodeOf, faultLevels, List.flatten_cons, List.nil_append]⟩

end

/-! ## Reading the text of a mapping -/

theorem read_blockText {entries : Assoc Scalar Value} (keyed : (Value.mapping entries).Keyed Legible)
    (inside : (Value.mapping entries).depth ≤ Nesting.yamlRoom) :
    read ⟨blockText 0 (.mapping entries), none⟩ = .ok (.mapping entries) := by
  have tree := denotes keyed
  have faultless : fault? (nodeOf (.mapping entries)) = none := by
    rw [fault?, tree.faultless]
    rfl
  rw [read, Scanner.scan_block keyed, Node.ofTokens_eq keyed inside]
  dsimp only [bind, Except.bind]
  rw [faultless]
  exact tree.value

end DecisionTables.Yaml
