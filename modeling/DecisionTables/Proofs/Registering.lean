import DecisionTables.Proofs.Adding
import DecisionTables.Proofs.Lockstep.Opening
import DecisionTables.Proofs.Opened
import DecisionTables.Proofs.Writing

/-!
# What contexts register

A context that is opened registers new sources of its own and, over them, the sources of
its state.  So under the name of a stored source it finds that source, and what it has
registered besides is not in the state.
-/

namespace DecisionTables

/-! ## Registering over others -/

namespace Assoc

variable {κ : Type u} {ν : Type v}

theorem mapValues_congr {μ : Type w} {f g : ν → μ} {a : Assoc κ ν}
    (same : ∀ v ∈ values a, f v = g v) : mapValues f a = mapValues g a := by
  refine List.map_congr_left fun entry member => ?_
  rw [same entry.2 (List.mem_map_of_mem member)]

variable [BEq κ]

theorem find?_congr [PartialEquivBEq κ] (a : Assoc κ ν) {key other : κ} (same : (key == other) = true) :
    find? a key = find? a other := by
  induction a with
  | nil => rfl
  | cons entry rest ih =>
      obtain ⟨k, v⟩ := entry
      have keys : (k == key) = (k == other) := by
        rw [Bool.eq_iff_iff]
        exact ⟨fun found => PartialEquivBEq.trans found same,
          fun found => PartialEquivBEq.trans found (PartialEquivBEq.symm same)⟩
      rw [find?, find?, keys, ih]

/-- Of distinct entries that are written over others the one with the key is found, else what was
there before. -/
theorem find?_insertAll [PartialEquivBEq κ] {entries : Assoc κ ν} (distinct : Distinct entries)
    (a : Assoc κ ν) (key : κ) :
    find? (insertAll a entries) key = (find? entries key).or (find? a key) := by
  induction entries generalizing a with
  | nil => rfl
  | cons entry rest ih =>
      obtain ⟨k, v⟩ := entry
      obtain ⟨apart, distinct⟩ := List.pairwise_cons.mp distinct
      change find? (insertAll (insert a k v) rest) key = _
      rw [ih distinct, find?]
      split
      · rename_i same
        have missing : find? rest key = none := by
          rw [← find?_congr rest same]
          refine find?_eq_none fun e member => ?_
          rw [BEq.comm]
          exact apart e member
        have self : (k == k) = true := PartialEquivBEq.trans same (PartialEquivBEq.symm same)
        rw [missing, ← find?_congr (insert a k v) same, find?_insert_self a v self]
        rfl
      · rename_i differ
        rw [find?_insert_of_ne a v (Bool.eq_false_iff.mpr differ)]

theorem insert_of_missing {a : Assoc κ ν} {key : κ} (missing : find? a key = none) (value : ν) :
    insert a key value = a ++ [(key, value)] := by
  induction a with
  | nil => rfl
  | cons entry rest ih =>
      obtain ⟨k, v⟩ := entry
      rw [find?] at missing
      split at missing
      · cases missing
      · rename_i differ
        rw [insert, if_neg differ, ih missing, List.cons_append]

theorem mem_values_insert {a : Assoc κ ν} {key : κ} {value v : ν}
    (member : v ∈ values (insert a key value)) : v ∈ values a ∨ v = value := by
  obtain ⟨entry, inside, rfl⟩ := List.mem_map.mp member
  exact (mem_or_eq_of_mem_insert inside).imp (List.mem_map_of_mem ·) And.left

/-- What is in an association after more was written was there before, or is a value that was written. -/
theorem mem_or_mem_values_of_mem_insertAll {a entries : Assoc κ ν} {entry : κ × ν}
    (member : entry ∈ insertAll a entries) : entry ∈ a ∨ entry.2 ∈ values entries := by
  induction entries generalizing a with
  | nil => exact .inl member
  | cons head rest ih =>
      rcases ih member with inside | later
      · rcases mem_or_eq_of_mem_insert inside with old | ⟨new, _⟩
        · exact .inl old
        · exact .inr (List.mem_cons.mpr (.inl new))
      · exact .inr (List.mem_cons_of_mem _ later)

theorem nodup_values_insert {a : Assoc κ ν} {key : κ} {value : ν} (apart : (values a).Nodup)
    (fresh : value ∉ values a) : (values (insert a key value)).Nodup := by
  induction a with
  | nil => exact List.nodup_cons.mpr ⟨List.not_mem_nil, List.nodup_nil⟩
  | cons entry rest ih =>
      obtain ⟨k, v⟩ := entry
      obtain ⟨outside, apart⟩ := List.nodup_cons.mp apart
      rw [insert]
      split
      · exact List.nodup_cons.mpr ⟨fun inside => fresh (List.mem_cons_of_mem _ inside), apart⟩
      · refine List.nodup_cons.mpr ⟨fun inside => ?_, ih apart fun inside =>
          fresh (List.mem_cons_of_mem _ inside)⟩
        rcases mem_values_insert inside with inside | same
        · exact outside inside
        · exact fresh (List.mem_cons.mpr (.inl same.symm))

theorem nodup_values_insertAll {a entries : Assoc κ ν} (apart : (values (a ++ entries)).Nodup) :
    (values (insertAll a entries)).Nodup ∧
      ∀ v ∈ values (insertAll a entries), v ∈ values (a ++ entries) := by
  induction entries generalizing a with
  | nil =>
      rw [List.append_nil] at apart ⊢
      exact ⟨apart, fun _ => id⟩
  | cons entry rest ih =>
      obtain ⟨k, v⟩ := entry
      have split : ∀ b : Assoc κ ν, values (b ++ rest) = values b ++ values rest :=
        fun b => List.map_append
      have shape : values (a ++ (k, v) :: rest) = values a ++ v :: values rest := List.map_append
      rw [shape] at apart ⊢
      obtain ⟨left, right, disjoint⟩ := List.nodup_append.mp apart
      obtain ⟨outside, right⟩ := List.nodup_cons.mp right
      have inserted : (values (insert a k v ++ rest)).Nodup := by
        rw [split]
        refine List.nodup_append.mpr ⟨nodup_values_insert left fun inside =>
          disjoint v inside v List.mem_cons_self rfl, right, ?_⟩
        intro x inside y later same
        rcases mem_values_insert inside with inside | new
        · exact disjoint x inside y (List.mem_cons_of_mem _ later) same
        · rw [← new, same] at outside
          exact outside later
      obtain ⟨nodup, known⟩ := ih inserted
      refine ⟨nodup, fun x member => ?_⟩
      have inside := known x member
      rw [split] at inside
      rcases List.mem_append.mp inside with old | later
      · rcases mem_values_insert old with old | new
        · exact List.mem_append_left _ old
        · exact List.mem_append_right _ (List.mem_cons.mpr (.inl new))
      · exact List.mem_append_right _ (List.mem_cons_of_mem _ later)

theorem find?_mapValues {μ : Type w} (f : ν → μ) (a : Assoc κ ν) (key : κ) :
    find? (mapValues f a) key = (find? a key).map f := by
  induction a with
  | nil => rfl
  | cons entry rest ih =>
      obtain ⟨k, v⟩ := entry
      change find? ((k, f v) :: mapValues f rest) key = _
      rw [find?, find?, ih]
      split <;> rfl

theorem mem_values_of_find? {a : Assoc κ ν} {key : κ} {value : ν} (found : find? a key = some value) :
    value ∈ values a := by
  obtain ⟨_, _, member⟩ := exists_mem_of_find? found
  exact List.mem_map_of_mem member

/-- Where no value is there twice, what changes for one value changes under its key alone. -/
theorem mapValues_eq_adjust {μ : Type w} {f g : ν → μ} {a : Assoc κ ν} {key : κ} {value : ν}
    {change : μ → μ} (apart : (values a).Nodup) (found : find? a key = some value)
    (others : ∀ v, v ≠ value → g v = f v) (here : g value = change (f value)) :
    mapValues g a = adjust (mapValues f a) key change := by
  induction a with
  | nil => cases found
  | cons entry rest ih =>
      obtain ⟨k, v⟩ := entry
      obtain ⟨outside, apart⟩ := List.nodup_cons.mp apart
      change (k, g v) :: mapValues g rest = adjust ((k, f v) :: mapValues f rest) key change
      rw [find?] at found
      rw [adjust]
      split at found
      · rename_i same
        cases found
        rw [if_pos same, here]
        refine congrArg _ (mapValues_congr fun w member => others w fun equal => ?_)
        exact outside (equal ▸ member)
      · rename_i differ
        have elsewhere : v ≠ value := fun equal => outside (equal ▸ mem_values_of_find? found)
        rw [if_neg differ, others v elsewhere, ih apart found]

end Assoc

/-! ## Contexts over a state -/

namespace Store

variable {σ σ' σ'' : Store}

/-- Sources were added, and nothing else has changed. -/
structure Added (σ σ' : Store) : Prop where
  room : σ'.room = σ.room
  states : σ'.states = σ.states
  contexts : σ'.contexts = σ.contexts
  traces : σ'.traces = σ.traces
  sources : Kept (fun _ => False) Source.Alike σ.sources σ'.sources

theorem Added.refl (σ : Store) : σ.Added σ :=
  ⟨rfl, rfl, rfl, rfl, .refl Source.Alike.refl _⟩

theorem Added.trans (first : σ.Added σ') (second : σ'.Added σ'') : σ.Added σ'' where
  room := second.room.trans first.room
  states := second.states.trans first.states
  contexts := second.contexts.trans first.contexts
  traces := second.traces.trans first.traces
  sources := first.sources.trans Source.Alike.trans second.sources fun _ _ no => no

theorem Added.push (σ : Store) (s : Source) : σ.Added { σ with sources := σ.sources.push s } :=
  ⟨rfl, rfl, rfl, rfl, .push Source.Alike.refl _ _⟩

theorem Added.found (added : σ.Added σ') {i : Nat} {s : Source} (found : σ.sources[i]? = some s) :
    σ'.sources[i]? = some s := by
  obtain ⟨t, found', _, same⟩ := added.sources i s found
  rw [found', same not_false]

theorem Added.state_eq (added : σ.Added σ') (id : StateId) : σ'.state id = σ.state id := by
  rw [state, state, added.states]

theorem Added.source_eq (added : σ.Added σ') {id : SourceId} (inside : id.index < σ.sources.size) :
    σ'.source id = σ.source id := by
  have found := Array.getElem?_eq_getElem inside
  rw [source_of_getElem? (added.found found), source_of_getElem? found]

theorem Added.mapValues_source (added : σ.Added σ') {r : Registry}
    (known : ∀ id ∈ r.values, id.index < σ.sources.size) : r.mapValues σ'.source = r.mapValues σ.source :=
  Assoc.mapValues_congr fun id member => added.source_eq (known id member)

theorem Added.tidy (added : σ.Added σ') {r : Registry} (tidy : σ.Tidy r) : σ'.Tidy r := by
  refine ⟨tidy.distinct, tidy.apart, fun entry member => ?_⟩
  obtain ⟨s, found, settled⟩ := tidy.settled entry member
  exact ⟨s, added.found found, settled⟩

theorem Added.context_eq (added : σ.Added σ') (ctx : ContextId) : σ'.context ctx = σ.context ctx := by
  rw [context, context, added.contexts]

/-- A registry of sources that are not in an earlier store, none of them under two names. -/
structure Own (σ σ' : Store) (own : Registry) : Prop where
  added : σ.Added σ'
  apart : own.values.Nodup
  fresh : ∀ id ∈ own.values, σ.sources.size ≤ id.index
  known : ∀ id ∈ own.values, id.index < σ'.sources.size

theorem Own.empty (σ : Store) : σ.Own σ [] :=
  ⟨.refl σ, List.nodup_nil, fun _ impossible => absurd impossible List.not_mem_nil,
    fun _ impossible => absurd impossible List.not_mem_nil⟩

theorem Own.insert {own : Registry} (registered : σ.Own σ' own) (name : Scalar) (s : Source) :
    σ.Own { σ' with sources := σ'.sources.push s } (Assoc.insert own name ⟨σ'.sources.size⟩) := by
  refine ⟨registered.added.trans (.push σ' s), ?_, fun id member => ?_, fun id member => ?_⟩
  · exact Assoc.nodup_values_insert registered.apart fun inside =>
      Nat.lt_irrefl _ (registered.known _ inside)
  · rcases Assoc.mem_values_insert member with old | rfl
    · exact registered.fresh id old
    · exact registered.added.sources.size_le
  · rw [Array.size_push]
    rcases Assoc.mem_values_insert member with old | rfl
    · exact Nat.lt_succ_of_lt (registered.known id old)
    · exact Nat.lt_succ_self _

end Store

/-- What a context brings along, by name: fixed sources, and its request, which is not one of them. -/
abbrev Brought := Assoc Scalar (Option Source)

namespace Brought

/-- Fixed sources under their own names, over what is there. -/
def adding (brought : Brought) (sources : List Source) : Brought :=
  brought.insertAll (sources.map fun s => (s.name, some s))

/-- The constants, then the request, then the tables. -/
def ofContext (request : Scalar) (catalog : Option Catalog) : Brought :=
  Brought.adding (Assoc.insert (Brought.adding [] [.constant]) request none) (ContextId.tableSources catalog)

end Brought

namespace Store

variable {σ σ' : Store} {request : SourceId}

/-- An identity stands for what is brought along: a fixed source, or the request. -/
def Brings (σ : Store) (request id : SourceId) : Option Source → Prop
  | some s => s.Fixed ∧ σ.sources[id.index]? = some s
  | none => id = request

/-- A registry holds what is brought along, name by name. -/
def Registers (σ : Store) (request : SourceId) : Registry → Brought → Prop :=
  List.Forall₂ fun e f => e.1 = f.1 ∧ σ.Brings request e.2 f.2

theorem Registers.keep {own : Registry} {brought : Brought} (registers : σ.Registers request own brought)
    (found : ∀ (i : Nat) (s : Source), s.Fixed → σ.sources[i]? = some s → σ'.sources[i]? = some s) :
    σ'.Registers request own brought := by
  refine registers.imp fun e f pair => ⟨pair.1, ?_⟩
  obtain ⟨name, what⟩ := f
  cases what with
  | none => exact pair.2
  | some s => exact ⟨pair.2.1, found _ s pair.2.1 pair.2.2⟩

theorem Registers.insert {own : Registry} {brought : Brought} (registers : σ.Registers request own brought)
    (name : Scalar) (id : SourceId) (what : Option Source) (brings : σ.Brings request id what) :
    σ.Registers request (Assoc.insert own name id) (Assoc.insert brought name what) := by
  refine Assoc.insert_rel (K := fun k l => k = l) (R := σ.Brings request) registers ?_ rfl brings
  intro _ _ same
  rw [same]

end Store

namespace ContextId

variable {σ σ' : Store}

theorem own_addAllRegistered {own : Registry} (registered : σ.Own σ' own) (sources : List Source) :
    ∃ own' σ'', runFrom (addAllRegistered own sources) σ' = (.ok own', σ'') ∧ σ.Own σ'' own' := by
  induction sources generalizing own σ' with
  | nil => exact ⟨own, σ', rfl, registered⟩
  | cons s rest ih =>
      have added : runFrom (Engine.addSource s) σ' =
        (.ok ⟨σ'.sources.size⟩, { σ' with sources := σ'.sources.push s }) := rfl
      obtain ⟨own', σ'', ran, registered'⟩ := ih (registered.insert s.name s)
      refine ⟨own', σ'', ?_, registered'⟩
      rw [addAllRegistered, addRegistered, bind_assoc, runFrom_bind_ok added, pure_bind, ran]

/-- What is added is registered under its own name, over what was registered before. -/
theorem registers_addAllRegistered {request : SourceId} {own : Registry} {brought : Brought}
    (registers : σ.Registers request own brought) (sources : List Source)
    (fixed : ∀ s ∈ sources, s.Fixed) :
    ∃ own' σ', runFrom (addAllRegistered own sources) σ = (.ok own', σ') ∧ σ.Added σ' ∧
      σ'.Registers request own' (brought.adding sources) := by
  induction sources generalizing σ own brought with
  | nil => exact ⟨own, σ, rfl, .refl σ, registers⟩
  | cons s rest ih =>
      have added : runFrom (Engine.addSource s) σ =
        (.ok ⟨σ.sources.size⟩, { σ with sources := σ.sources.push s }) := rfl
      have pushed := Store.Added.push σ s
      have registers₁ := (registers.keep fun _ _ _ => pushed.found).insert s.name ⟨σ.sources.size⟩
        (some s) ⟨fixed s List.mem_cons_self, Array.getElem?_push_size⟩
      obtain ⟨own', σ', ran, added', registers'⟩ :=
        ih registers₁ fun t member => fixed t (List.mem_cons_of_mem _ member)
      refine ⟨own', σ', ?_, pushed.trans added', registers'⟩
      rw [addAllRegistered, addRegistered, bind_assoc, runFrom_bind_ok added, pure_bind, ran]

theorem fixed_of_mem_tableSources {catalog : Option Catalog} {s : Source}
    (member : s ∈ tableSources catalog) : s.Fixed := by
  cases catalog with
  | none => exact absurd member List.not_mem_nil
  | some c =>
      obtain ⟨t, _, rfl⟩ := List.mem_map.mp member
      exact trivial

/-- The tables are registered over the constants and the request. -/
theorem registers_tables (request constant : SourceId) (name : Scalar) (catalog : Option Catalog)
    (found : σ.sources[constant.index]? = some .constant) :
    ∃ own σ', runFrom (addAllRegistered (Assoc.insert [(Source.constant.name, constant)] name request)
        (tableSources catalog)) σ = (.ok own, σ') ∧ σ.Added σ' ∧
      σ'.Registers request own (.ofContext name catalog) := by
  have constants : σ.Registers request [(Source.constant.name, constant)] (Brought.adding [] [.constant]) :=
    .cons ⟨rfl, trivial, found⟩ .nil
  exact registers_addAllRegistered (constants.insert name request none rfl) _
    fun s => fixed_of_mem_tableSources

/-- A context that is opened registers its own sources and, over them, those of its state. -/
theorem runFrom_openTraced (σ : Store) (state : StateId) (catalog : Option Catalog) (request : Source)
    (backend : Option Backend) (trace : TraceId) :
    ∃ σ₁ own requestId, σ.Own σ₁ own ∧ σ₁.Registers requestId own (.ofContext request.name catalog) ∧
      σ₁.sources[requestId.index]? = some request ∧ σ.sources.size ≤ requestId.index ∧
      runFrom (openTraced state catalog request backend trace) σ =
        (.ok ⟨σ₁.contexts.size⟩,
          { σ₁ with
            contexts := σ₁.contexts.push
              ⟨state, catalog, backend, requestId, own.insertAll (σ₁.state state), .empty, trace⟩ }) := by
  let σ₁ : Store := { σ with sources := σ.sources.push .constant }
  let σ₂ : Store := { σ₁ with sources := σ₁.sources.push request }
  have ran₁ : runFrom (addAllRegistered [] [.constant]) σ =
    (.ok [(Source.constant.name, ⟨σ.sources.size⟩)], σ₁) := rfl
  have added : runFrom (Engine.addSource request) σ₁ = (.ok ⟨σ₁.sources.size⟩, σ₂) := rfl
  have own₁ : σ.Own σ₁ [(Source.constant.name, ⟨σ.sources.size⟩)] := (Store.Own.empty σ).insert _ .constant
  have found : σ₂.sources[σ.sources.size]? = some .constant :=
    (Store.Added.push σ₁ request).found Array.getElem?_push_size
  obtain ⟨own, σ₃, ran₂, own₂⟩ := own_addAllRegistered (own₁.insert request.name request)
    (tableSources catalog)
  obtain ⟨_, _, ran₂', added₂, registers⟩ := registers_tables ⟨σ₁.sources.size⟩
    ⟨σ.sources.size⟩ request.name catalog found
  cases ran₂.symm.trans ran₂'
  have fresh : σ.sources.size ≤ σ₁.sources.size := (Store.Added.push σ .constant).sources.size_le
  refine ⟨σ₃, own, ⟨σ₁.sources.size⟩, own₂, registers, added₂.found Array.getElem?_push_size, fresh, ?_⟩
  rw [openTraced, runFrom_bind_ok ran₁, runFrom_bind_ok added, runFrom_bind_ok ran₂]
  rfl

/-- A reset copy is a context that is opened on a reset copy of the state, and in which the sources that it
lacks are registered besides. -/
theorem runFrom_copyReset_ok {ctx copy : ContextId} :
    runFrom ctx.copyReset σ = (.ok copy, σ') ↔
      ∃ state σ₁ σ₂ registry σ₃,
        runFrom (σ.context ctx).state.copyReset σ = (.ok state, σ₁) ∧
        runFrom (openTraced state (σ.context ctx).catalog (σ₁.source (σ.context ctx).request).reset
          (σ.context ctx).backend (σ.context ctx).trace) σ₁ = (.ok copy, σ₂) ∧
        runFrom (addMissing (σ₂.context copy).registry ((σ.context ctx).registry.mapValues σ₂.source)) σ₂ =
          (.ok registry, σ₃) ∧
        σ' = σ₃.setContext copy { σ₃.context copy with registry := registry } := by
  constructor
  · intro ran
    obtain ⟨_, _, read, ran⟩ := runFrom_bind_value ran
    cases read
    obtain ⟨state, σ₁, copied, ran⟩ := runFrom_bind_value ran
    obtain ⟨_, _, read, ran⟩ := runFrom_bind_value ran
    cases read
    obtain ⟨_, σ₂, opened, ran⟩ := runFrom_bind_value ran
    obtain ⟨_, _, read, ran⟩ := runFrom_bind_value ran
    cases read
    obtain ⟨registry, σ₃, completed, ran⟩ := runFrom_bind_value ran
    cases ran
    exact ⟨state, σ₁, σ₂, registry, σ₃, copied, opened, completed, rfl⟩
  · rintro ⟨state, σ₁, σ₂, registry, σ₃, copied, opened, completed, rfl⟩
    rw [copyReset, runFrom_bind_ok (runFrom_get σ), runFrom_bind_ok copied, runFrom_bind_ok (runFrom_get σ₁)]
    refine (runFrom_bind_ok opened _).trans ?_
    rw [runFrom_bind_ok (runFrom_get σ₂)]
    exact runFrom_bind_ok completed _

end ContextId

/-- What a context brings along is fixed, but for its request. -/
theorem Brought.fixed_of_mem {request : Scalar} {catalog : Option Catalog} {s : Source}
    (member : some s ∈ Assoc.values (ofContext request catalog)) : s.Fixed := by
  obtain ⟨entry, inside, same⟩ := List.mem_map.mp member
  rcases Assoc.mem_or_mem_values_of_mem_insertAll inside with before | table
  · rcases Assoc.mem_or_eq_of_mem_insert before with constant | ⟨requested, _⟩
    · cases List.mem_singleton.mp constant
      cases same
      exact trivial
    · rw [same] at requested
      cases requested
  · obtain ⟨_, listed, value⟩ := List.mem_map.mp table
    obtain ⟨t, there, rfl⟩ := List.mem_map.mp listed
    rw [same] at value
    cases value
    exact ContextId.fixed_of_mem_tableSources there

namespace Store

/-- A context is over a state and sources of its own: it has registered the sources of the state
as they are now, and these are not the same as its own ones. -/
structure Over (σ : Store) (ctx : ContextId) (state : StateId) (own : Registry) : Prop where
  inside : ctx.index < σ.contexts.size
  traced : (σ.context ctx).trace.index < σ.traces.size
  registry : (σ.context ctx).registry = own.insertAll (σ.state state)
  distinct : Assoc.Distinct (σ.state state)
  apart : (own ++ σ.state state).values.Nodup
  known : ∀ id ∈ (own ++ σ.state state).values, id.index < σ.sources.size

variable {σ : Store} {ctx : ContextId} {state : StateId} {own : Registry}

theorem Tidy.known {r : Registry} (tidy : σ.Tidy r) : ∀ id ∈ r.values, id.index < σ.sources.size := by
  intro id member
  obtain ⟨entry, inside, rfl⟩ := List.mem_map.mp member
  obtain ⟨s, found, _⟩ := tidy.settled entry inside
  exact (Array.getElem?_eq_some_iff.mp found).1

/-- Sources of its own beside those of a state are all apart. -/
theorem Own.beside {σ' : Store} (registered : σ.Own σ' own) (tidy : σ.Tidy (σ.state state)) :
    (own ++ σ.state state).values.Nodup ∧
      ∀ id ∈ (own ++ σ.state state).values, id.index < σ'.sources.size := by
  have shape : (own ++ σ.state state).values = own.values ++ (σ.state state).values := List.map_append
  rw [shape]
  constructor
  · refine List.nodup_append.mpr ⟨registered.apart, tidy.apart, fun id new id' old same => ?_⟩
    have outside := registered.fresh id new
    have inside := tidy.known id' old
    rw [same] at outside
    omega
  · intro id member
    rcases List.mem_append.mp member with new | old
    · exact registered.known id new
    · exact Nat.lt_of_lt_of_le (tidy.known id old) registered.added.sources.size_le

/-- A source that a context finds is that of the state, or its own one where the state has none. -/
theorem Over.find? (above : σ.Over ctx state own) {name : Scalar} {id : SourceId}
    (found : (σ.context ctx).registry.find? name = some id) :
    (σ.state state).find? name = some id ∨
      (σ.state state).find? name = none ∧ id ∉ (σ.state state).values := by
  rw [above.registry, Assoc.find?_insertAll above.distinct] at found
  cases stored : (σ.state state).find? name with
  | some id' =>
      rw [stored] at found
      exact .inl found
  | none =>
      rw [stored] at found
      have shape : (own ++ σ.state state).values = own.values ++ (σ.state state).values := List.map_append
      have apart := above.apart
      rw [shape] at apart
      refine .inr ⟨rfl, fun inside => ?_⟩
      exact (List.nodup_append.mp apart).2.2 id (Assoc.mem_values_of_find? found) id inside rfl

theorem Over.find?_stored (above : σ.Over ctx state own) {name : Scalar} {id : SourceId}
    (stored : (σ.state state).find? name = some id) :
    (σ.context ctx).registry.find? name = some id := by
  rw [above.registry, Assoc.find?_insertAll above.distinct, stored]
  rfl

/-- In a context over a state, the name of a stored source stands for that source. -/
theorem Over.find?_scope (above : σ.Over ctx state own) {name : Scalar} {id : SourceId}
    (stored : (σ.state state).find? name = some id) :
    Assoc.find? (σ.scope (σ.context ctx).registry) name = some (id, σ.source id) := by
  rw [scope, Assoc.find?_mapValues, above.find?_stored stored]
  rfl

theorem Over.registered (above : σ.Over ctx state own) :
    (σ.context ctx).registry.values.Nodup ∧
      ∀ id ∈ (σ.context ctx).registry.values, id.index < σ.sources.size := by
  obtain ⟨apart, known⟩ := Assoc.nodup_values_insertAll above.apart
  rw [above.registry]
  exact ⟨apart, fun id member => above.known id (known id member)⟩

/-- What only adds to the store leaves a context over its state. -/
theorem Over.keep {σ' : Store} (above : σ.Over ctx state own) (keeps : Keeps Owned.nothing σ σ')
    (known : state.index < σ.states.size) : σ'.Over ctx state own := by
  have context := keeps.context_eq above.inside not_false
  have registry := keeps.state_eq known
  refine ⟨?_, ?_, ?_, ?_, ?_, ?_⟩
  · exact Nat.lt_of_lt_of_le above.inside keeps.contexts.size_le
  · rw [context]
    exact Nat.lt_of_lt_of_le above.traced keeps.traces.size_le
  · rw [context, registry]
    exact above.registry
  · rw [registry]
    exact above.distinct
  · rw [registry]
    exact above.apart
  · rw [registry]
    exact fun id member => Nat.lt_of_lt_of_le (above.known id member) keeps.sources.size_le

end Store

/-- A context was opened over a state: it has computed and reported nothing, and nothing that was
there has changed. -/
structure Store.FreshOver (σ opened : Store) (ctx : ContextId) (state : StateId) (own : Registry) :
    Prop where
  above : opened.Over ctx state own
  progress : opened.progress ctx = .start
  states : opened.states = σ.states
  keeps : Keeps Owned.nothing σ opened

/-- A context over a state and a catalog has registered what it brings along, with its request, which is not
one of the stored sources. -/
structure Store.OpenedWith (σ : Store) (ctx : ContextId) (state : StateId) (own : Registry)
    (catalog : Option Catalog) (request : Source) : Prop where
  above : σ.Over ctx state own
  state_eq : (σ.context ctx).state = state
  catalog_eq : (σ.context ctx).catalog = catalog
  registers : σ.Registers (σ.context ctx).request own (.ofContext request.name catalog)
  requested : σ.sources[(σ.context ctx).request.index]? = some request
  outside : (σ.context ctx).request ∉ (σ.state state).values

/-- Opening a context on a state with distinct sources gives a context over that state, with what it brings
along. -/
theorem ContextId.exists_open_with {σ : Store} {state : StateId} (tidy : σ.Tidy (σ.state state))
    (catalog : Option Catalog) (request : Source) (backend : Option Backend) :
    ∃ ctx opened own, runFrom (ContextId.open state catalog request backend) σ = (.ok ctx, opened) ∧
      σ.FreshOver opened ctx state own ∧ opened.OpenedWith ctx state own catalog request ∧
      (opened.context ctx).backend = backend := by
  let traced : Store := { σ with traces := σ.traces.push #[] }
  have added : runFrom Engine.addTrace σ = (.ok ⟨σ.traces.size⟩, traced) := rfl
  obtain ⟨σ₁, own, requestId, registered, registers, requested, new, ran⟩ := runFrom_openTraced traced state
    catalog request backend ⟨σ.traces.size⟩
  have states : σ₁.states = σ.states := registered.added.states
  have traces : σ₁.traces = σ.traces.push #[] := registered.added.traces
  have same : traced.state state = σ₁.state state := (registered.added.state_eq state).symm
  have tidied : traced.Tidy (traced.state state) := ⟨tidy.distinct, tidy.apart, tidy.settled⟩
  have outside : requestId ∉ (traced.state state).values := fun inside =>
    Nat.lt_irrefl _ (Nat.lt_of_lt_of_le (tidied.known requestId inside) new)
  obtain ⟨apart, known⟩ := registered.beside tidied
  have distinct := tidied.distinct
  rw [same] at apart known distinct outside
  have opened := (runFrom_bind_ok added _).trans ran
  have keeps := OnlyAdds.open state catalog request backend σ
  rw [ContextId.open, opened] at keeps
  refine ⟨_, _, own, opened, ⟨?above, ?_, states, keeps⟩, ⟨?above, ?_, ?_, ?_, ?_, ?_⟩, ?_⟩
  case above =>
    refine ⟨?_, ?_, ?_, distinct, apart, known⟩
    · rw [Array.size_push]
      exact Nat.lt_succ_self _
    · rw [Store.context_pushed, traces, Array.size_push]
      exact Nat.lt_succ_self _
    · rw [Store.context_pushed]
      rfl
  · rw [Store.progress, Store.context_pushed]
    refine congrArg (Progress.mk .empty) ?_
    change σ₁.traces.getD σ.traces.size #[] = #[]
    rw [traces, Array.getD_eq_getD_getElem?, Array.getElem?_push_size]
    rfl
  · rw [Store.context_pushed]
  · rw [Store.context_pushed]
  · rw [Store.context_pushed]
    exact registers
  · rw [Store.context_pushed]
    exact requested
  · rw [Store.context_pushed]
    exact outside
  · rw [Store.context_pushed]

/-- Opening a context on a state with distinct sources gives a context over that state. -/
theorem ContextId.exists_open_over {σ : Store} {state : StateId} (tidy : σ.Tidy (σ.state state))
    (catalog : Option Catalog) (request : Source) (backend : Option Backend) :
    ∃ ctx opened own, runFrom (ContextId.open state catalog request backend) σ = (.ok ctx, opened) ∧
      σ.FreshOver opened ctx state own ∧ (opened.context ctx).backend = backend := by
  obtain ⟨ctx, opened, own, ran, fresh, _, backend_eq⟩ := exists_open_with tidy catalog request backend
  exact ⟨ctx, opened, own, ran, fresh, backend_eq⟩

end DecisionTables
