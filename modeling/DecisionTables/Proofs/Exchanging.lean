import Mathlib
import DecisionTables.Proofs.Parsing
import DecisionTables.Proofs.Resuming
import DecisionTables.State.Exchange

/-!
# Stored states as texts

A stored state whose keys are texts, with values that the format can carry and not too many
levels, comes back from its text: what is read in exports the same nested mapping up to the
order of keys, and the same text.
-/

namespace DecisionTables.StateId

/-- The mapping of mappings that a state exports. -/
def nested (σ : Store) (id : StateId) : Value :=
  .mapping (exportFrom σ (σ.state id))

/-! ## Reading in -/

/-- The sources of a mapping of mappings. -/
def storedSources (inner : Assoc Scalar (Assoc Scalar Value)) : Assoc Scalar Source :=
  inner.map fun entry => (entry.1, .stored entry.1 entry.2 [])

theorem storedEntries_eq (inner : Assoc Scalar (Assoc Scalar Value)) :
    (inner.mapValues Value.mapping).mapM storedEntry = .ok (storedSources inner) := by
  induction inner with
  | nil => rfl
  | cons entry rest ih =>
      have head : storedEntry (entry.1, .mapping entry.2) = .ok (entry.1, .stored entry.1 entry.2 []) := by
        rw [storedEntry, Value.toMapping_mapping]
        rfl
      change ((entry.1, Value.mapping entry.2) :: Assoc.mapValues Value.mapping rest).mapM storedEntry = _
      rw [List.mapM_cons, head, ih]
      rfl

/-- A state of stored values without defaults, under the names that they give themselves. -/
def Stores (τ : Store) (id : StateId) (inner : Assoc Scalar (Assoc Scalar Value)) : Prop :=
  List.Forall₂ (fun entry registered => entry.1 = registered.1 ∧
    τ.sources[registered.2.index]? = some (.stored entry.1 entry.2 [])) inner (τ.state id)

theorem Stores.nested_eq {τ : Store} {id : StateId} {inner : Assoc Scalar (Assoc Scalar Value)}
    (stores : Stores τ id inner) : nested τ id = .mapping (inner.mapValues .mapping) := by
  rw [Stores] at stores
  rw [nested]
  generalize τ.state id = registry at stores ⊢
  refine congrArg Value.mapping ?_
  induction stores with
  | nil => rfl
  | @cons entry registered rest registry head _ ih =>
      have values : (τ.source registered.2).values = entry.2 := by
        rw [Store.source_of_getElem? head.2]
        rfl
      change (registered.1, Value.mapping (τ.source registered.2).values) :: exportFrom τ registry =
        (entry.1, Value.mapping entry.2) :: Assoc.mapValues Value.mapping rest
      rw [ih, values, head.1]

/-- What is read in from a mapping of mappings is a state of these values. -/
theorem exists_ofNested {inner : Assoc Scalar (Assoc Scalar Value)} (distinct : Assoc.Distinct inner)
    (σ : Store) : ∃ id τ, runFrom (ofNested (.mapping (inner.mapValues .mapping))) σ = (.ok id, τ) ∧
      Stores τ id inner ∧ τ.Tidy (τ.state id) := by
  have separate : Assoc.Distinct (storedSources inner) := by
    rw [storedSources, Assoc.Distinct, List.pairwise_map]
    exact distinct
  obtain ⟨r, σ', added, _, related⟩ := runFrom_addSources (storedSources inner) σ
  refine ⟨⟨σ'.states.size⟩, { σ' with states := σ'.states.push r }, ?_, ?_, ?_⟩
  · rw [ofNested, storedEntries_eq]
    change runFrom (create (storedSources inner)) σ = _
    rw [create, separate.ofList_eq, runFrom_bind_ok added]
    rfl
  · rw [Stores, Store.state_pushed]
    rw [storedSources, List.forall₂_map_left_iff] at related
    refine related.imp fun entry registered both => ⟨both.1, both.2.trans ?_⟩
    rw [Source.nameIfBlank]
    split <;> rfl
  · rw [Store.state_pushed]
    obtain ⟨distinct, apart, settled⟩ := tidy_of_addSources separate added
    exact ⟨distinct, apart, settled⟩

/-- A mapping whose values are mappings. -/
theorem exists_inner {entries : Assoc Scalar Value} (all : ∀ entry ∈ entries, isMapping entry.2 = true) :
    ∃ inner, entries = Assoc.mapValues Value.mapping inner := by
  induction entries with
  | nil => exact ⟨[], rfl⟩
  | cons entry rest ih =>
      obtain ⟨head, tail⟩ := List.forall_mem_cons.mp all
      obtain ⟨inner, same⟩ := ih tail
      obtain ⟨key, value⟩ := entry
      cases value with
      | mapping values => exact ⟨(key, values) :: inner, by rw [same]; rfl⟩
      | _ => cases head

/-- A mapping of mappings with distinct keys can be read in. -/
theorem exists_ofValue {inner : Assoc Scalar (Assoc Scalar Value)} (distinct : Assoc.Distinct inner)
    (σ : Store) : ∃ id τ, runFrom (ofValue (.mapping (inner.mapValues .mapping))) σ = (.ok id, τ) ∧
      Stores τ id inner ∧ τ.Tidy (τ.state id) := by
  have all : (Assoc.mapValues Value.mapping inner).all (fun entry => isMapping entry.2) = true := by
    rw [List.all_eq_true]
    intro entry member
    obtain ⟨before, _, rfl⟩ := List.mem_map.mp member
    rfl
  rw [ofValue, if_pos all]
  exact exists_ofNested distinct σ

/-! ## The nested mapping, sorted -/

section

variable {P : Scalar → Prop} {σ : Store} {id : StateId}

/-- The nested mapping of a state is a mapping of mappings also when it is sorted. -/
theorem exists_sorted (keyed : (nested σ id).Keyed P) : ∃ inner, Assoc.Distinct inner ∧
    (nested σ id).sortedWherePossible = .mapping (Assoc.mapValues Value.mapping inner) := by
  have sorted := keyed.sortedWherePossible
  rw [nested, Value.sortedWherePossible_mapping] at sorted ⊢
  have all : ∀ entry ∈ Value.sortedIfPossible
      ((exportFrom σ (σ.state id)).mapValues Value.sortedWherePossible), isMapping entry.2 = true := by
    intro entry member
    obtain ⟨before, inside, rfl⟩ := List.mem_map.mp ((Value.sortedIfPossible_perm _).mem_iff.mp member)
    obtain ⟨registered, _, rfl⟩ := List.mem_map.mp inside
    rw [Value.sortedWherePossible_mapping]
    rfl
  obtain ⟨inner, same⟩ := exists_inner all
  rw [same] at sorted ⊢
  refine ⟨inner, ?_, rfl⟩
  cases sorted with
  | mapping _ distinct _ =>
      rw [Assoc.distinct_iff_keys, Assoc.keys_mapValues, ← Assoc.distinct_iff_keys] at distinct
      exact distinct

theorem runFrom_toWritable (σ : Store) (id : StateId) : runFrom id.toWritable σ =
    if Nesting.exportRoom < (nested σ id).depth then (.error .tooDeep, σ)
    else if (nested σ id).all Scalar.hasText then (.ok (nested σ id), σ)
    else (.error .wrongValue, σ) := by
  rw [toWritable]
  change runFrom (do
    if Nesting.exportRoom < (nested σ id).depth then throw .tooDeep
    if (nested σ id).all Scalar.hasText then pure (nested σ id) else throw .wrongValue) σ = _
  split_ifs <;> rfl

/-- The state can be written where all its keys are texts, all its values can be carried, and it has
not too many levels. -/
theorem runFrom_toJson (keyed : (nested σ id).Keyed Scalar.Portable)
    (shallow : (nested σ id).depth ≤ Nesting.exportRoom) :
    runFrom id.toJson σ = (.ok (Json.writeArranged (nested σ id).sortedWherePossible), σ) := by
  have writable : runFrom id.toWritable σ = (.ok (nested σ id), σ) := by
    rw [runFrom_toWritable, if_neg (Nat.not_lt.mpr shallow),
      if_pos (keyed.all fun _ => Scalar.hasText_of_portable)]
  rw [toJson, runFrom_bind_ok writable, Json.write, keyed.sorted_eq]
  rfl

/-- The text of a state is read in as a state with the same nested mapping, sorted. -/
theorem exists_ofJson (keyed : (nested σ id).Keyed Scalar.Portable)
    (shallow : (nested σ id).depth ≤ Nesting.exportRoom) (τ : Store) :
    ∃ inner copy τ', (nested σ id).sortedWherePossible = .mapping (Assoc.mapValues Value.mapping inner) ∧
      runFrom (ofJson (Json.writeArranged (nested σ id).sortedWherePossible)) τ = (.ok copy, τ') ∧
      Stores τ' copy inner ∧ τ'.Tidy (τ'.state copy) := by
  obtain ⟨inner, distinct, sorted⟩ := exists_sorted keyed
  obtain ⟨copy, τ', made, stores, tidy⟩ := exists_ofValue distinct τ
  have deep := ((Value.depth_sortedWherePossible (nested σ id)).le.trans shallow).trans Nesting.exportRoom_le
  have parsed := Json.parse_writeArranged keyed.sortedWherePossible deep
  refine ⟨inner, copy, τ', sorted, ?_, stores, tidy⟩
  rw [ofJson, parsed, sorted]
  exact made

end

/-! ## Round trips -/

/-- The text of a state in JavaScript object notation comes back.  Where all keys are texts, every
scalar can be carried, and there are not too many levels, the state has a text; on every store this
text is read in as a state that exports the same up to the order of keys and has the same text; and
the states with this text are those that export the same up to the order of keys. -/
theorem json_round_trip {σ : Store} {id : StateId} (keyed : (nested σ id).Keyed Scalar.Portable)
    (shallow : (nested σ id).depth ≤ Nesting.exportRoom) :
    ∃ text, runFrom id.toJson σ = (.ok text, σ) ∧
      (∀ τ, ∃ copy τ', runFrom (ofJson text) τ = (.ok copy, τ') ∧
        (nested σ id).Agrees (nested τ' copy) ∧ runFrom copy.toJson τ' = (.ok text, τ')) ∧
      ∀ τ other, (nested τ other).Keyed Scalar.Portable → (nested τ other).depth ≤ Nesting.exportRoom →
        ((runFrom other.toJson τ).1 = .ok text ↔ (nested σ id).Agrees (nested τ other)) := by
  refine ⟨_, runFrom_toJson keyed shallow, fun τ => ?_, fun τ other keyed' shallow' => ?_⟩
  · obtain ⟨inner, copy, τ', sorted, made, stores, _⟩ := exists_ofJson keyed shallow τ
    have same : nested τ' copy = (nested σ id).sortedWherePossible := stores.nested_eq.trans sorted.symm
    have agrees := keyed.agrees_sorted
    have keyed' := keyed.sortedWherePossible
    have shallow' := (Value.depth_sortedWherePossible (nested σ id)).le.trans shallow
    rw [← same] at agrees keyed' shallow'
    refine ⟨copy, τ', made, agrees, ?_⟩
    rw [runFrom_toJson keyed' shallow', agrees.sorted_eq keyed keyed']
  · rw [runFrom_toJson keyed' shallow', Value.agrees_iff keyed keyed']
    constructor
    · intro text
      exact (Json.writeArranged_inj keyed'.sortedWherePossible keyed.sortedWherePossible
        (Except.ok.inj text)).symm
    · intro same
      rw [same]

/-- A nested mapping with keys out of order. -/
def ledger : Value :=
  .mapping [(.text "sums", .mapping [(.text "é\t", .list [.text "😀", .null]), (.text "x", .scalar (.int 7))])]

theorem keyed_ledger : ledger.Keyed Scalar.Portable := by
  have seven : (Scalar.int 7).Portable := by
    rw [Scalar.Portable, Scalar.hasText, decide_eq_true_eq]
    decide +kernel
  refine .single trivial (.pair (by decide) trivial trivial (.list fun item member => ?_) (.scalar seven))
  rcases List.mem_pair.mp member with rfl | rfl <;> exact .scalar trivial

/-- A store with the state of the nested mapping. -/
def keeping : Store :=
  (runFrom (ofValue ledger) .empty).2

/-- The state comes back from its text on the empty store. -/
theorem ledger_comes_back : nested keeping ⟨0⟩ = ledger ∧
    ∃ text copy τ, runFrom (toJson ⟨0⟩) keeping = (.ok text, keeping) ∧
      runFrom (ofJson text) .empty = (.ok copy, τ) ∧ ledger.Agrees (nested τ copy) ∧
      runFrom copy.toJson τ = (.ok text, τ) := by
  have held : nested keeping ⟨0⟩ = ledger := rfl
  obtain ⟨text, written, back, _⟩ := json_round_trip (held ▸ keyed_ledger) (by rw [held]; decide)
  obtain ⟨copy, τ, read, agrees, again⟩ := back .empty
  exact ⟨held, text, copy, τ, written, read, held ▸ agrees, again⟩

/-- Empty lists in each other, so many more levels deep. -/
def tower : Nat → Value
  | 0 => .list []
  | n + 1 => .list [tower n]

theorem keyed_tower (n : Nat) : (tower n).Keyed Scalar.Portable := by
  induction n with
  | zero => exact .list fun _ impossible => absurd impossible List.not_mem_nil
  | succ n ih => exact .list fun item member => List.mem_singleton.mp member ▸ ih

theorem depth_tower (n : Nat) : (tower n).depth = n + 1 := by
  induction n with
  | zero => rfl
  | succ n ih => rw [tower, Value.depth, Value.itemsDepth, Value.itemsDepth, ih, Nat.max_zero]

/-- A store with a state of 600 lists in each other. -/
def towering : Store :=
  (runFrom (ofValue (.mapping [(.text "x", .mapping [(.text "a", tower 599)])])) .empty).2

/-- There is no text for a state with too many levels, whatever else its values are. -/
theorem towering_is_too_deep : (nested towering ⟨0⟩).Keyed Scalar.Portable ∧
    ∀ text, (runFrom (toJson ⟨0⟩) towering).1 ≠ .ok text := by
  have held : nested towering ⟨0⟩ = .mapping [(.text "x", .mapping [(.text "a", tower 599)])] := rfl
  have deep : (nested towering ⟨0⟩).depth = 602 := by
    simp [held, Value.depth, Value.entriesDepth, depth_tower]
  refine ⟨held ▸ .single trivial (.single trivial (keyed_tower 599)), fun text written => ?_⟩
  have stopped : runFrom (toWritable ⟨0⟩) towering = (.error .tooDeep, towering) := by
    rw [runFrom_toWritable, deep, if_pos (by decide)]
  rw [toJson, runFrom_bind_fault stopped] at written
  cases written

end DecisionTables.StateId
