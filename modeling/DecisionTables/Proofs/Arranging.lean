import Mathlib
import DecisionTables.Nesting
import DecisionTables.Value.Order

/-!
# Values up to the order of keys

Two values agree when they are the same but for the order in which their mappings hold the
keys.  Where all keys are texts every mapping can be sorted, and the value that is sorted all
through stands for all values that agree with it.
-/

namespace DecisionTables

/-! ## Association lists with the same entries -/

namespace Assoc

variable {κ : Type u} {ν : Type v} [BEq κ]

theorem Distinct.mapValues {μ : Type w} (f : ν → μ) {a : Assoc κ ν} (distinct : Distinct a) :
    Distinct (mapValues f a) := by
  rw [distinct_iff_keys, keys_mapValues, ← distinct_iff_keys]
  exact distinct

/-- Distinct entries stay distinct in another order. -/
theorem Distinct.perm [PartialEquivBEq κ] {a b : Assoc κ ν} (distinct : Distinct a) (same : a.Perm b) :
    Distinct b :=
  same.pairwise distinct fun apart => by
    rw [Bool.eq_false_iff] at apart ⊢
    exact fun equal => apart (PartialEquivBEq.symm equal)

end Assoc

namespace Value

/-! ## Induction -/

/-- What holds of scalars, and of lists and mappings if it holds of everything in them, holds of all
values. -/
@[elab_as_elim]
theorem induct {P : Value → Prop} (scalar : ∀ s, P (.scalar s))
    (list : ∀ items : List Value, (∀ item ∈ items, P item) → P (.list items))
    (mapping : ∀ entries : Assoc Scalar Value, (∀ entry ∈ entries, P entry.2) → P (.mapping entries))
    (v : Value) : P v :=
  @Value.rec P (fun items => ∀ item ∈ items, P item) (fun entries => ∀ entry ∈ entries, P entry.2)
    (fun entry => P entry.2) scalar list mapping
    (fun _ impossible => absurd impossible List.not_mem_nil)
    (fun _ _ head tail => List.forall_mem_cons.mpr ⟨head, tail⟩)
    (fun _ impossible => absurd impossible List.not_mem_nil)
    (fun _ _ head tail => List.forall_mem_cons.mpr ⟨head, tail⟩) (fun _ _ value => value) v

/-- All keys of mappings are texts and distinct, and every scalar, keys included, has a property. -/
inductive Keyed (P : Scalar → Prop) : Value → Prop where
  | scalar {s} (fits : P s) : Keyed P (.scalar s)
  | list {items} (each : ∀ item ∈ items, Keyed P item) : Keyed P (.list items)
  | mapping {entries : Assoc Scalar Value}
      (texts : ∀ entry ∈ entries, ∃ s, entry.1 = .text s ∧ P (.text s))
      (distinct : Assoc.Distinct entries) (each : ∀ entry ∈ entries, Keyed P entry.2) :
      Keyed P (.mapping entries)

/-- Two values are the same up to the order of keys. -/
inductive Agrees : Value → Value → Prop where
  | scalar {s} : Agrees (.scalar s) (.scalar s)
  | list {items others} (length : items.length = others.length)
      (each : ∀ (i : Nat) v w, items[i]? = some v → others[i]? = some w → Agrees v w) :
      Agrees (.list items) (.list others)
  | mapping {entries others : Assoc Scalar Value} (keys : entries.keys.Perm others.keys)
      (each : ∀ key v w, (key, v) ∈ entries → (key, w) ∈ others → Agrees v w) :
      Agrees (.mapping entries) (.mapping others)

/-! ## Arranging -/

/-- The entries of a mapping in order, if they can be sorted. -/
def sortedIfPossible (entries : Assoc Scalar Value) : Assoc Scalar Value :=
  (Scalar.sortEntries entries).toOption.getD entries

section

variable {f : Assoc Scalar Value → Except Fault (Assoc Scalar Value)} {g : Value → Value}

theorem arrangeItems_eq {items : List Value} (each : ∀ item ∈ items, arrange f item = .ok (g item)) :
    arrangeItems f items = .ok (items.map g) := by
  induction items with
  | nil => rfl
  | cons item rest ih =>
      obtain ⟨head, tail⟩ := List.forall_mem_cons.mp each
      rw [arrangeItems, head, ih tail]
      rfl

theorem arrangeEntries_eq {entries : Assoc Scalar Value}
    (each : ∀ entry ∈ entries, arrange f entry.2 = .ok (g entry.2)) :
    arrangeEntries f entries = .ok (entries.mapValues g) := by
  induction entries with
  | nil => rfl
  | cons entry rest ih =>
      obtain ⟨head, tail⟩ := List.forall_mem_cons.mp each
      obtain ⟨key, value⟩ := entry
      rw [arrangeEntries, head, ih tail]
      rfl

theorem arrange_list {items : List Value} (each : ∀ item ∈ items, arrange f item = .ok (g item)) :
    arrange f (.list items) = .ok (.list (items.map g)) := by
  rw [arrange, arrangeItems_eq each]
  rfl

theorem arrange_mapping {entries arranged : Assoc Scalar Value}
    (each : ∀ entry ∈ entries, arrange f entry.2 = .ok (g entry.2))
    (whole : f (entries.mapValues g) = .ok arranged) :
    arrange f (.mapping entries) = .ok (.mapping arranged) := by
  rw [arrange, arrangeEntries_eq each]
  change (do return Value.mapping (← f (entries.mapValues g))) = _
  rw [whole]
  rfl

end

theorem eq_sortedWherePossible {v w : Value}
    (arranged : arrange (fun entries => .ok (sortedIfPossible entries)) v = .ok w) :
    v.sortedWherePossible = w := by
  change (arrange (fun entries => .ok (sortedIfPossible entries)) v).toOption.getD v = w
  rw [arranged]
  rfl

theorem arrange_sortedWherePossible (v : Value) :
    arrange (fun entries => .ok (sortedIfPossible entries)) v = .ok v.sortedWherePossible := by
  induction v using Value.induct with
  | scalar s => rfl
  | list items ih => rw [arrange_list ih, eq_sortedWherePossible (arrange_list ih)]
  | mapping entries ih => rw [arrange_mapping ih rfl, eq_sortedWherePossible (arrange_mapping ih rfl)]

@[simp] theorem sortedWherePossible_scalar (s : Scalar) :
    (Value.scalar s).sortedWherePossible = .scalar s := rfl

@[simp] theorem sortedWherePossible_list (items : List Value) :
    (Value.list items).sortedWherePossible = .list (items.map sortedWherePossible) :=
  eq_sortedWherePossible (arrange_list fun item _ => arrange_sortedWherePossible item)

@[simp] theorem sortedWherePossible_mapping (entries : Assoc Scalar Value) :
    (Value.mapping entries).sortedWherePossible =
      .mapping (sortedIfPossible (entries.mapValues sortedWherePossible)) :=
  eq_sortedWherePossible (arrange_mapping (fun entry _ => arrange_sortedWherePossible entry.2) rfl)

end Value

/-! ## Keys that are texts -/

namespace Scalar

variable {ν : Type u} {entries others : Assoc Scalar ν}

/-- All keys are texts. -/
def AllTexts (entries : Assoc Scalar ν) : Prop :=
  ∀ entry ∈ entries, ∃ s, entry.1 = .text s

/-- The order in which sorting brings texts. -/
def NotAfter (a b : Scalar × ν) : Prop :=
  lt b.1 a.1 = false

theorem sortEntries_texts (texts : AllTexts entries) :
    sortEntries entries = .ok (sortBy Prod.fst entries) := by
  have all : (Assoc.keys entries).all isText = true := by
    rw [List.all_eq_true]
    intro key member
    obtain ⟨entry, inside, rfl⟩ := List.mem_map.mp member
    obtain ⟨s, same⟩ := texts entry inside
    rw [same]
    rfl
  have comparable : comparable entries.keys = true := by
    rw [Scalar.comparable, all, Bool.or_true, Bool.true_or]
  rw [sortEntries, if_pos comparable]

/-- Texts are sorted by their characters. -/
theorem sortBy_map_text (named : List (String × ν)) :
    sortBy Prod.fst (named.map fun e => (Scalar.text e.1, e.2)) =
      (named.mergeSort fun a b => !decide (b.1 < a.1)).map fun e => (Scalar.text e.1, e.2) := by
  have numbers : (named.map fun e => (Scalar.text e.1, e.2)).any
      (fun entry => entry.1.isNoNumber) = false := by
    rw [List.any_eq_false]
    intro entry member
    obtain ⟨e, _, rfl⟩ := List.mem_map.mp member
    exact Bool.false_ne_true
  rw [sortBy, numbers, if_neg Bool.false_ne_true]
  exact (List.map_mergeSort (f := fun e : String × ν => (Scalar.text e.1, e.2))
    fun a _ b _ => rfl).symm

theorem exists_named (texts : AllTexts entries) :
    ∃ named : List (String × ν), entries = named.map fun e => (Scalar.text e.1, e.2) := by
  induction entries with
  | nil => exact ⟨[], rfl⟩
  | cons entry rest ih =>
      obtain ⟨⟨s, same⟩, later⟩ := List.forall_mem_cons.mp texts
      obtain ⟨named, rfl⟩ := ih later
      exact ⟨(s, entry.2) :: named, by rw [List.map_cons, ← same]⟩

/-- Sorted texts are in order. -/
theorem pairwise_sortBy (texts : AllTexts entries) :
    (sortBy Prod.fst entries).Pairwise NotAfter := by
  obtain ⟨named, rfl⟩ := exists_named texts
  rw [sortBy_map_text, List.pairwise_map]
  have ordered : (named.mergeSort fun a b => !decide (b.1 < a.1)).Pairwise fun a b =>
      (!decide (b.1 < a.1)) = true := List.pairwise_mergeSort ?trans ?total named
  case trans =>
    intro a b c ab bc
    simp only [Bool.not_eq_true', decide_eq_false_iff_not, not_lt] at ab bc ⊢
    exact ab.trans bc
  case total =>
    intro a b
    simp only [Bool.or_eq_true, Bool.not_eq_true', decide_eq_false_iff_not, not_lt]
    exact le_total a.1 b.1
  exact ordered.imp fun le => (Bool.not_eq_true' _).mp le

/-- Texts are distinct keys exactly where none of them is repeated. -/
theorem distinct_iff_nodup (texts : AllTexts entries) :
    Assoc.Distinct entries ↔ (Assoc.keys entries).Nodup := by
  rw [Assoc.distinct_iff_keys, List.Nodup]
  refine List.Pairwise.iff_of_mem fun {k l} inside _ => ?_
  obtain ⟨entry, member, rfl⟩ := List.mem_map.mp inside
  obtain ⟨s, same⟩ := texts entry member
  rw [same]
  constructor
  · rintro apart rfl
    rw [text_beq, beq_self_eq_true] at apart
    cases apart
  · intro differ
    rw [Bool.eq_false_iff]
    exact fun equal => differ (eq_text_of_beq (sameKey_symm equal)).symm

theorem eq_of_key (texts : AllTexts entries) (distinct : Assoc.Distinct entries) {a b : Scalar × ν}
    (left : a ∈ entries) (right : b ∈ entries) (same : a.1 = b.1) : a = b :=
  List.inj_on_of_nodup_map ((distinct_iff_nodup texts).mp distinct) left right same

theorem nodup_of_distinct (texts : AllTexts entries) (distinct : Assoc.Distinct entries) :
    entries.Nodup :=
  .of_map Prod.fst ((distinct_iff_nodup texts).mp distinct)

/-- Distinct texts with the same values are the same entries in another order. -/
theorem perm_of_keys (texts : AllTexts entries) (texts' : AllTexts others)
    (distinct : Assoc.Distinct entries) (distinct' : Assoc.Distinct others)
    (keys : (Assoc.keys entries).Perm (Assoc.keys others))
    (each : ∀ key v w, (key, v) ∈ entries → (key, w) ∈ others → v = w) : entries.Perm others := by
  refine (List.perm_ext_iff_of_nodup (nodup_of_distinct texts distinct)
    (nodup_of_distinct texts' distinct')).mpr fun entry => ⟨fun member => ?_, fun member => ?_⟩
  · obtain ⟨⟨_, w⟩, inside, same⟩ := List.mem_map.mp (keys.mem_iff.mp (List.mem_map_of_mem member))
    obtain rfl : _ = entry.1 := same
    rw [show entry = (entry.1, w) from Prod.ext rfl (each entry.1 entry.2 w member inside)]
    exact inside
  · obtain ⟨⟨_, v⟩, inside, same⟩ := List.mem_map.mp (keys.mem_iff.mpr (List.mem_map_of_mem member))
    obtain rfl : _ = entry.1 := same
    rw [show entry = (entry.1, v) from Prod.ext rfl (each entry.1 v entry.2 inside member).symm]
    exact inside

/-- Distinct texts have one order. -/
theorem eq_of_perm (texts : AllTexts entries) (distinct : Assoc.Distinct entries)
    (same : entries.Perm others) (left : entries.Pairwise NotAfter)
    (right : others.Pairwise NotAfter) : entries = others := by
  refine List.Perm.eq_of_pairwise (fun a b inside inside' ab ba => ?_) left right same
  obtain ⟨s, first⟩ := texts a inside
  obtain ⟨t, second⟩ := texts b (same.mem_iff.mpr inside')
  rw [NotAfter, first, second] at ab ba
  have equal : s = t := by
    have ts : ¬ t < s := decide_eq_false_iff_not.mp ab
    have st : ¬ s < t := decide_eq_false_iff_not.mp ba
    exact le_antisymm (not_lt.mp ts) (not_lt.mp st)
  exact eq_of_key texts distinct inside (same.mem_iff.mpr inside') (by rw [first, second, equal])

/-- In whatever order distinct texts come, they are sorted alike. -/
theorem sortBy_eq_of_perm (texts : AllTexts entries) (distinct : Assoc.Distinct entries)
    (same : entries.Perm others) : sortBy Prod.fst entries = sortBy Prod.fst others := by
  have moved := sortBy_perm Prod.fst entries
  have moved' := sortBy_perm Prod.fst others
  have texts' : AllTexts others := fun entry member => texts entry (same.mem_iff.mpr member)
  refine eq_of_perm (fun entry member => texts entry (moved.mem_iff.mp member)) (distinct.perm moved.symm)
    ((moved.trans same).trans moved'.symm) (pairwise_sortBy texts) (pairwise_sortBy texts')

end Scalar

namespace Value

/-! ## The sorted value -/

section

variable {P : Scalar → Prop} {v w u : Value} {entries : Assoc Scalar Value}

theorem Keyed.texts (keyed : Keyed P (.mapping entries)) : Scalar.AllTexts entries := by
  cases keyed with
  | mapping texts _ _ => exact fun entry member => (texts entry member).imp fun _ => And.left

/-- A mapping with one key. -/
theorem Keyed.single {key : String} (text : P (.text key)) (keyed : Keyed P v) :
    Keyed P (.mapping [(.text key, v)]) := by
  refine .mapping (fun entry member => ?_) (List.pairwise_singleton _ _) fun entry member => ?_
  · rw [List.mem_singleton.mp member]
    exact ⟨key, rfl, text⟩
  · rw [List.mem_singleton.mp member]
    exact keyed

/-- A mapping with two keys. -/
theorem Keyed.pair {key other : String} (apart : key ≠ other) (text : P (.text key)) (text' : P (.text other))
    (keyed : Keyed P v) (keyed' : Keyed P w) : Keyed P (.mapping [(.text key, v), (.text other, w)]) := by
  refine .mapping (fun entry member => ?_) ?_ fun entry member => ?_
  · rcases List.mem_pair.mp member with rfl | rfl
    · exact ⟨key, rfl, text⟩
    · exact ⟨other, rfl, text'⟩
  · refine List.pairwise_pair.mpr ?_
    rw [Scalar.text_beq]
    exact beq_false_of_ne apart
  · rcases List.mem_pair.mp member with rfl | rfl
    · exact keyed
    · exact keyed'

theorem allTexts_mapValues {f : Value → Value} (texts : Scalar.AllTexts entries) :
    Scalar.AllTexts (entries.mapValues f) := by
  intro entry member
  obtain ⟨before, inside, rfl⟩ := List.mem_map.mp member
  exact texts before inside

theorem sortedIfPossible_texts (texts : Scalar.AllTexts entries) :
    sortedIfPossible entries = Scalar.sortBy Prod.fst entries := by
  rw [sortedIfPossible, Scalar.sortEntries_texts texts]
  rfl

/-- A value whose keys are texts can be sorted. -/
theorem Keyed.sorted_eq (keyed : Keyed P v) : v.sorted = .ok v.sortedWherePossible := by
  induction keyed with
  | scalar fits => rfl
  | list _ ih => rw [sorted, arrange_list ih, sortedWherePossible_list]
  | @mapping entries texts distinct each ih =>
      have texts : Scalar.AllTexts (entries.mapValues sortedWherePossible) :=
        allTexts_mapValues fun entry member => (texts entry member).imp fun _ => And.left
      rw [sorted, arrange_mapping ih (Scalar.sortEntries_texts texts), sortedWherePossible_mapping,
        sortedIfPossible_texts texts]

/-- Sorting keeps the kind of a value. -/
theorem Keyed.sortedWherePossible (keyed : Keyed P v) : Keyed P v.sortedWherePossible := by
  induction keyed with
  | scalar fits => exact .scalar fits
  | list _ ih =>
      rw [sortedWherePossible_list]
      refine .list fun item member => ?_
      obtain ⟨before, inside, rfl⟩ := List.mem_map.mp member
      exact ih before inside
  | @mapping entries texts distinct each ih =>
      have all : Scalar.AllTexts (entries.mapValues Value.sortedWherePossible) :=
        allTexts_mapValues fun entry member => (texts entry member).imp fun _ => And.left
      have moved := Scalar.sortBy_perm Prod.fst (entries.mapValues Value.sortedWherePossible)
      rw [sortedWherePossible_mapping, sortedIfPossible_texts all]
      refine .mapping (fun entry member => ?_) ((distinct.mapValues _).perm moved.symm) fun entry member => ?_
      · obtain ⟨before, inside, rfl⟩ := List.mem_map.mp (moved.mem_iff.mp member)
        exact texts before inside
      · obtain ⟨before, inside, rfl⟩ := List.mem_map.mp (moved.mem_iff.mp member)
        exact ih before inside

/-! ## Agreement -/

theorem Agrees.symm (agrees : Agrees v w) : Agrees w v := by
  induction agrees with
  | scalar => exact .scalar
  | list length _ ih => exact .list length.symm fun i v w left right => ih i w v right left
  | mapping keys _ ih => exact .mapping keys.symm fun key v w left right => ih key w v right left

theorem Agrees.trans (first : Agrees u v) (second : Agrees v w) : Agrees u w := by
  induction first generalizing w with
  | scalar => exact second
  | @list items others length each ih =>
      cases second with
      | list length' each' =>
          refine .list (length.trans length') fun i a c left right => ?_
          have inside : i < others.length := length ▸ (List.getElem?_eq_some_iff.mp left).1
          have middle : others[i]? = some others[i] := List.getElem?_eq_getElem inside
          exact ih i a _ left middle (each' i _ c middle right)
  | @mapping entries others keys each ih =>
      cases second with
      | mapping keys' each' =>
          refine .mapping (keys.trans keys') fun key a c left right => ?_
          have inside : key ∈ Assoc.keys others := keys.mem_iff.mp (List.mem_map_of_mem left)
          obtain ⟨⟨_, b⟩, middle, rfl⟩ := List.mem_map.mp inside
          exact ih _ a b left middle (each' _ b c middle right)

/-- A value agrees with itself sorted. -/
theorem Keyed.agrees_sorted (keyed : Keyed P v) : Agrees v v.sortedWherePossible := by
  induction keyed with
  | scalar fits => exact .scalar
  | @list items each ih =>
      rw [sortedWherePossible_list]
      refine .list (List.length_map _).symm fun i v w left right => ?_
      rw [List.getElem?_map, left] at right
      cases right
      exact ih v (List.mem_of_getElem? left)
  | @mapping entries texts distinct each ih =>
      have texts : Scalar.AllTexts entries :=
        fun entry member => (texts entry member).imp fun _ => And.left
      have moved := Scalar.sortBy_perm Prod.fst (entries.mapValues Value.sortedWherePossible)
      rw [sortedWherePossible_mapping, sortedIfPossible_texts (allTexts_mapValues texts)]
      refine .mapping ?_ fun key v w left right => ?_
      · have same := (moved.map Prod.fst).symm
        change (Assoc.keys (entries.mapValues Value.sortedWherePossible)).Perm _ at same
        rw [Assoc.keys_mapValues] at same
        exact same
      · obtain ⟨⟨_, u⟩, inside, same⟩ := List.mem_map.mp (moved.mem_iff.mp right)
        cases same
        cases Scalar.eq_of_key texts distinct left inside rfl
        exact ih _ inside

/-- Values that agree are the same when they are sorted. -/
theorem Agrees.sorted_eq (agrees : Agrees v w) (left : Keyed P v) (right : Keyed P w) :
    v.sortedWherePossible = w.sortedWherePossible := by
  induction agrees with
  | scalar => rfl
  | @list items others length _ ih =>
      cases left with
      | list each =>
          cases right with
          | list each' =>
              rw [sortedWherePossible_list, sortedWherePossible_list]
              refine congrArg Value.list (List.ext_getElem? fun i => ?_)
              rw [List.getElem?_map, List.getElem?_map]
              cases found : items[i]? with
              | none =>
                  have beyond := List.getElem?_eq_none_iff.mp found
                  rw [length] at beyond
                  rw [List.getElem?_eq_none beyond]
              | some a =>
                  have inside : i < others.length := length ▸ (List.getElem?_eq_some_iff.mp found).1
                  have found' : others[i]? = some others[i] := List.getElem?_eq_getElem inside
                  rw [found']
                  exact congrArg some (ih i a _ found found' (each a (List.mem_of_getElem? found))
                    (each' _ (List.mem_of_getElem? found')))
  | @mapping entries others keys _ ih =>
      have texts := left.texts
      have texts' := right.texts
      cases left with
      | mapping _ distinct each =>
          cases right with
          | mapping _ distinct' each' =>
              have same : (entries.mapValues Value.sortedWherePossible).Perm
                  (others.mapValues Value.sortedWherePossible) := by
                refine Scalar.perm_of_keys (allTexts_mapValues texts) (allTexts_mapValues texts')
                  (distinct.mapValues _) (distinct'.mapValues _) ?_ fun key a b member member' => ?_
                · rw [Assoc.keys_mapValues, Assoc.keys_mapValues]
                  exact keys
                · obtain ⟨⟨_, v⟩, inside, same⟩ := List.mem_map.mp member
                  cases same
                  obtain ⟨⟨_, w⟩, inside', same⟩ := List.mem_map.mp member'
                  cases same
                  exact ih _ v w inside inside' (each _ inside) (each' _ inside')
              rw [sortedWherePossible_mapping, sortedWherePossible_mapping,
                sortedIfPossible_texts (allTexts_mapValues texts),
                sortedIfPossible_texts (allTexts_mapValues texts'),
                Scalar.sortBy_eq_of_perm (allTexts_mapValues texts) (distinct.mapValues _) same]

theorem agrees_iff (left : Keyed P v) (right : Keyed P w) :
    Agrees v w ↔ v.sortedWherePossible = w.sortedWherePossible := by
  refine ⟨fun agrees => agrees.sorted_eq left right, fun same => ?_⟩
  have agrees := left.agrees_sorted
  rw [same] at agrees
  exact agrees.trans right.agrees_sorted.symm

/-! ## What sorting keeps -/

theorem sortedIfPossible_perm (entries : Assoc Scalar Value) : (sortedIfPossible entries).Perm entries := by
  rw [sortedIfPossible, Scalar.sortEntries]
  split
  · exact Scalar.sortBy_perm Prod.fst entries
  · exact .refl _

theorem itemsDepth_le_iff {items : List Value} {n : Nat} :
    itemsDepth items ≤ n ↔ ∀ item ∈ items, item.depth ≤ n := by
  induction items with
  | nil => simp [itemsDepth]
  | cons item rest ih => rw [itemsDepth, Nat.max_le, ih, List.forall_mem_cons]

theorem entriesDepth_le_iff {n : Nat} :
    entriesDepth entries ≤ n ↔ ∀ entry ∈ entries, entry.2.depth ≤ n := by
  induction entries with
  | nil => simp [entriesDepth]
  | cons entry rest ih =>
      obtain ⟨key, value⟩ := entry
      rw [entriesDepth, Nat.max_le, ih, List.forall_mem_cons]

theorem allItems_eq (p : Scalar → Bool) (items : List Value) : allItems p items = items.all (all p) := by
  induction items with
  | nil => rfl
  | cons item rest ih => rw [allItems, ih, List.all_cons]

theorem allEntries_eq (p : Scalar → Bool) (entries : Assoc Scalar Value) :
    allEntries p entries = entries.all fun entry => p entry.1 && all p entry.2 := by
  induction entries with
  | nil => rfl
  | cons entry rest ih =>
      obtain ⟨key, value⟩ := entry
      rw [allEntries, ih, List.all_cons]

/-- Sorting makes and drops no levels. -/
theorem depth_sortedWherePossible (v : Value) : v.sortedWherePossible.depth = v.depth := by
  induction v using Value.induct with
  | scalar s => rfl
  | list items ih =>
      rw [sortedWherePossible_list, depth, depth]
      refine congrArg (· + 1) (eq_of_forall_ge_iff fun n => ?_)
      rw [itemsDepth_le_iff, itemsDepth_le_iff, List.forall_mem_map]
      exact forall₂_congr fun item member => by rw [ih item member]
  | mapping entries ih =>
      rw [sortedWherePossible_mapping, depth, depth]
      refine congrArg (· + 1) (eq_of_forall_ge_iff fun n => ?_)
      simp only [entriesDepth_le_iff, (sortedIfPossible_perm _).mem_iff]
      rw [Assoc.mapValues, List.forall_mem_map]
      exact forall₂_congr fun entry member => by rw [ih entry member]

/-- Sorting keeps what all scalars have. -/
theorem all_sortedWherePossible (p : Scalar → Bool) (v : Value) : v.sortedWherePossible.all p = v.all p := by
  induction v using Value.induct with
  | scalar s => rfl
  | list items ih =>
      rw [sortedWherePossible_list, all, all, allItems_eq, allItems_eq, Bool.eq_iff_iff, List.all_eq_true,
        List.all_eq_true, List.forall_mem_map]
      exact forall₂_congr fun item member => by rw [ih item member]
  | mapping entries ih =>
      rw [sortedWherePossible_mapping, all, all, allEntries_eq, allEntries_eq,
        (sortedIfPossible_perm _).all_eq, Bool.eq_iff_iff, List.all_eq_true, List.all_eq_true,
        Assoc.mapValues, List.forall_mem_map]
      exact forall₂_congr fun entry member => by rw [ih entry member]

/-- What every scalar of a value has can be tested. -/
theorem Keyed.all {p : Scalar → Bool} (keyed : Keyed P v) (imp : ∀ s, P s → p s = true) : v.all p = true := by
  induction keyed with
  | scalar fits => exact imp _ fits
  | list _ ih =>
      rw [Value.all, allItems_eq, List.all_eq_true]
      exact ih
  | mapping texts _ _ ih =>
      rw [Value.all, allEntries_eq, List.all_eq_true]
      intro entry member
      obtain ⟨s, same, fits⟩ := texts entry member
      rw [same, imp _ fits, ih entry member]
      rfl

end

/-! ## Values in order -/

/-- All keys of mappings are texts in order. -/
inductive Ordered : Value → Prop where
  | scalar {s} : Ordered (.scalar s)
  | list {items} (each : ∀ item ∈ items, Ordered item) : Ordered (.list items)
  | mapping {entries : Assoc Scalar Value} (texts : Scalar.AllTexts entries)
      (distinct : Assoc.Distinct entries) (ordered : entries.Pairwise Scalar.NotAfter)
      (each : ∀ entry ∈ entries, Ordered entry.2) : Ordered (.mapping entries)

/-- A value in order is sorted already. -/
theorem Ordered.sorted_eq {v : Value} (ordered : Ordered v) : v.sortedWherePossible = v := by
  induction ordered with
  | scalar => rfl
  | @list items _ ih =>
      have same : items.map Value.sortedWherePossible = items := by
        conv_rhs => rw [← List.map_id items]
        exact List.map_congr_left ih
      rw [sortedWherePossible_list, same]
  | @mapping entries texts distinct ordered _ ih =>
      have same : entries.mapValues Value.sortedWherePossible = entries := by
        conv_rhs => rw [← List.map_id entries]
        exact List.map_congr_left fun entry member => Prod.ext rfl (ih entry member)
      rw [sortedWherePossible_mapping, same, sortedIfPossible_texts texts]
      have moved := Scalar.sortBy_perm Prod.fst entries
      exact congrArg Value.mapping
        (Scalar.eq_of_perm texts distinct moved.symm ordered (Scalar.pairwise_sortBy texts)).symm

end Value

end DecisionTables
