import Mathlib
import DecisionTables.Proofs.Confining
import DecisionTables.Proofs.Effects
import DecisionTables.Proofs.Reopening

/-!
# What a reset copy takes over

A reset copy is opened as every context is, on reset copies of the request and of the stored
sources, and it takes over what it lacks then.  So it has a source under every name that the
context has, and a reset copy of the copy has the same.  But a name that was bound when the
context was opened is not one that the copy lacks: what was registered under it by hand is
not taken over.
-/

namespace DecisionTables

/-! ## Entries that are missing -/

namespace Assoc

section

variable {κ : Type u} {ν : Type v} {μ : Type w} [BEq κ]

theorem mapValues_insert (f : ν → μ) (a : Assoc κ ν) (key : κ) (value : ν) :
    mapValues f (insert a key value) = insert (mapValues f a) key (f value) := by
  induction a with
  | nil => rfl
  | cons entry rest ih =>
      obtain ⟨k, v⟩ := entry
      change mapValues f (insert ((k, v) :: rest) key value) =
        insert ((k, f v) :: mapValues f rest) key (f value)
      rw [insert, insert]
      split
      · rfl
      · exact congrArg _ ih

theorem mapValues_insertAll (f : ν → μ) (a entries : Assoc κ ν) :
    mapValues f (insertAll a entries) = insertAll (mapValues f a) (mapValues f entries) := by
  induction entries generalizing a with
  | nil => rfl
  | cons entry rest ih =>
      change mapValues f (insertAll (insert a entry.1 entry.2) rest) = _
      rw [ih, mapValues_insert]
      rfl

theorem find?_append (a b : Assoc κ ν) (key : κ) : find? (a ++ b) key = (find? a key).or (find? b key) := by
  induction a with
  | nil => rfl
  | cons entry rest ih =>
      obtain ⟨k, v⟩ := entry
      rw [List.cons_append, find?, find?, ih]
      split <;> rfl

/-- A name that is there stays there, whatever is written. -/
theorem isSome_find?_insertAll [PartialEquivBEq κ] {a : Assoc κ ν} {key : κ}
    (found : (find? a key).isSome) (entries : List (κ × ν)) : (find? (insertAll a entries) key).isSome := by
  induction entries generalizing a with
  | nil => exact found
  | cons entry rest ih =>
      refine ih ?_
      cases same : entry.1 == key with
      | true =>
          have self : (entry.1 == entry.1) = true := PartialEquivBEq.trans same (PartialEquivBEq.symm same)
          rw [← find?_congr _ same, find?_insert_self a entry.2 self]
          rfl
      | false =>
          rw [find?_insert_of_ne a entry.2 same]
          exact found

/-- A key that is there stays there, whatever is written. -/
theorem mem_keys_insertAll {a : Assoc κ ν} {key : κ} (member : key ∈ a.keys) (entries : List (κ × ν)) :
    key ∈ (a.insertAll entries).keys := by
  induction entries generalizing a with
  | nil => exact member
  | cons entry rest ih =>
      refine ih ?_
      rw [keys_insert]
      split
      · exact member
      · exact List.mem_append_left _ member

theorem contains_of_mem {a : Assoc κ ν} {entry : κ × ν} (self : (entry.1 == entry.1) = true)
    (member : entry ∈ a) : a.contains entry.1 = true := by
  induction a with
  | nil => cases member
  | cons head rest ih =>
      obtain ⟨k, v⟩ := head
      rw [contains, find?]
      split
      · rfl
      · rename_i differ
        rcases List.mem_cons.mp member with rfl | later
        · exact (differ self).elim
        · exact ih later

/-- Under a name that is not written, what was there is found. -/
theorem find?_insertAll_of_ne [PartialEquivBEq κ] (a : Assoc κ ν) {entries : List (κ × ν)} {key : κ}
    (others : ∀ entry ∈ entries, (entry.1 == key) = false) : find? (insertAll a entries) key = find? a key := by
  induction entries generalizing a with
  | nil => rfl
  | cons entry rest ih =>
      obtain ⟨first, others⟩ := List.forall_mem_cons.mp others
      change find? (insertAll (insert a entry.1 entry.2) rest) key = _
      rw [ih _ others, find?_insert_of_ne _ _ first]

end

/-- The entries whose names are missing, reset; of several with one name only the first is. -/
def missing (a : Assoc Scalar Source) : List (Scalar × Source) → Assoc Scalar Source
  | [] => []
  | (name, source) :: rest =>
    if a.contains name then missing a rest
    else (name, source.reset) :: missing (a ++ [(name, source.reset)]) rest

variable {a : Assoc Scalar Source}

theorem find?_missing (a : Assoc Scalar Source) (entries : List (Scalar × Source)) (name : Scalar) :
    (find? a name).or (find? (missing a entries) name) =
      (find? a name).or ((find? entries name).map Source.reset) := by
  induction entries generalizing a with
  | nil => rfl
  | cons entry rest ih =>
      obtain ⟨key, source⟩ := entry
      rw [missing, find?]
      by_cases same : (key == name) = true
      · have keys : find? a key = find? a name := find?_congr a same
        cases there : find? a name with
        | some s => rfl
        | none =>
            rw [contains, keys, there, if_pos same, if_neg (by exact Bool.false_ne_true), find?, if_pos same]
            rfl
      · rw [if_neg same]
        cases contained : a.contains key with
        | true =>
            rw [if_pos rfl]
            exact ih a
        | false =>
            have later := ih (a ++ [(key, source.reset)])
            rw [find?_append, find?, if_neg same, find?_nil, Option.or_none] at later
            rw [if_neg Bool.false_ne_true, find?, if_neg same]
            exact later

/-- What was missing is missing once more, where it is looked for in the same place. -/
theorem missing_missing (a : Assoc Scalar Source) (entries : List (Scalar × Source)) :
    missing a (missing a entries) = missing a entries := by
  induction entries generalizing a with
  | nil => rfl
  | cons entry rest ih =>
      obtain ⟨key, source⟩ := entry
      rw [missing]
      cases contained : a.contains key with
      | true =>
          rw [if_pos rfl]
          exact ih a
      | false =>
          rw [if_neg Bool.false_ne_true, missing, contained, if_neg Bool.false_ne_true, Source.reset_reset, ih]

/-- Nothing is missing that is there, if names are equal to themselves. -/
theorem missing_append {b : Assoc Scalar Source} (own : ∀ entry ∈ b, (entry.1 == entry.1) = true)
    (there : ∀ entry ∈ b, entry ∈ a) (entries : List (Scalar × Source)) :
    missing a (b ++ entries) = missing a entries := by
  induction b with
  | nil => rfl
  | cons entry rest ih =>
      obtain ⟨self, own⟩ := List.forall_mem_cons.mp own
      obtain ⟨inside, there⟩ := List.forall_mem_cons.mp there
      have contained : a.contains entry.1 = true := contains_of_mem self inside
      rw [List.cons_append, missing, if_pos contained]
      exact ih own there

end Assoc

/-! ## What contexts register -/

/-- What a context brings along, with its request among it. -/
def Brought.sources (brought : Brought) (request : Source) : Assoc Scalar Source :=
  brought.mapValues (·.getD request)

/-- What a context registers when it is opened: what it brings along, and over it what its state holds. -/
def Holdings.opening (catalog : Option Catalog) (request : Source) (held : Holdings) : Assoc Scalar Source :=
  ((Brought.ofContext request.name catalog).sources request).insertAll held

/-- The name that a source is registered under by hand. -/
def ContextId.registrationKey (name : String) (source : Source) : Scalar :=
  if name.isEmpty then source.name else .text name

/-- Sources that are registered by hand, under the names that they get. -/
def ContextId.registrations (given : List (String × Source)) : List (Scalar × Source) :=
  given.map fun entry => (registrationKey entry.1 entry.2, entry.2)

/-- Register sources by hand, one after the other. -/
def ContextId.registerAll (ctx : ContextId) : List (String × Source) → Engine Unit
  | [] => return
  | (name, source) :: rest => do
    ctx.register name source
    ctx.registerAll rest

namespace Store

/-- The sources that a context has registered, under their names. -/
def entries (σ : Store) (ctx : ContextId) : Assoc Scalar Source :=
  (σ.context ctx).registry.mapValues σ.source

/-- The source that a context finds under a name. -/
def registered (σ : Store) (ctx : ContextId) (name : Scalar) : Option Source :=
  (σ.entries ctx).find? name

/-- A context that has computed nothing, what it was opened on, and what it has registered. -/
structure Equipped (σ : Store) (ctx : ContextId) (catalog : Option Catalog) (request : Source)
    (held : Holdings) (entries : Assoc Scalar Source) : Prop where
  inside : ctx.index < σ.contexts.size
  memo : (σ.context ctx).memo = .empty
  catalog : (σ.context ctx).catalog = catalog
  requested : σ.sources[(σ.context ctx).request.index]? = some request
  tidy : σ.Tidy (σ.state (σ.context ctx).state)
  held : σ.holdings (σ.context ctx).state = held
  apart : (σ.context ctx).registry.values.Nodup
  known : ∀ id ∈ (σ.context ctx).registry.values, id.index < σ.sources.size
  entries : σ.entries ctx = entries

variable {σ σ' : Store} {ctx : ContextId} {catalog : Option Catalog} {request : Source} {held : Holdings}
  {entries : Assoc Scalar Source}

theorem Equipped.keep (equipped : σ.Equipped ctx catalog request held entries) (added : σ.Added σ') :
    σ'.Equipped ctx catalog request held entries := by
  have context := added.context_eq ctx
  have known := equipped.known
  refine ⟨?_, ?_, ?_, ?_, ?_, ?_, ?_, ?_, ?_⟩
  · rw [added.contexts]
    exact equipped.inside
  · rw [context]
    exact equipped.memo
  · rw [context]
    exact equipped.catalog
  · rw [context]
    exact added.found equipped.requested
  · rw [context, added.state_eq]
    exact added.tidy equipped.tidy
  · rw [context, holdings, added.state_eq, added.mapValues_source equipped.tidy.known]
    exact equipped.held
  · rw [context]
    exact equipped.apart
  · rw [context]
    exact fun id member => Nat.lt_of_lt_of_le (known id member) added.sources.size_le
  · rw [Store.entries, context, added.mapValues_source known]
    exact equipped.entries

/-- The registry of a context may be replaced by another one of sources that are there. -/
theorem Equipped.withRegistry (equipped : σ.Equipped ctx catalog request held entries) {r : Registry}
    (apart : r.values.Nodup) (known : ∀ id ∈ r.values, id.index < σ.sources.size) :
    (σ.setContext ctx { σ.context ctx with registry := r }).Equipped ctx catalog request held
      (r.mapValues σ.source) := by
  have context := context_setContext equipped.inside { σ.context ctx with registry := r }
  refine ⟨?_, ?_, ?_, ?_, ?_, ?_, ?_, ?_, ?_⟩
  · exact Nat.lt_of_lt_of_eq equipped.inside Array.size_setIfInBounds.symm
  · rw [context]
    exact equipped.memo
  · rw [context]
    exact equipped.catalog
  · rw [context]
    exact equipped.requested
  · rw [context]
    exact ⟨equipped.tidy.distinct, equipped.tidy.apart, equipped.tidy.settled⟩
  · rw [context]
    exact equipped.held
  · rw [context]
    exact apart
  · rw [context]
    exact known
  · rw [Store.entries, context]
    rfl

theorem Registers.sources_eq {requestId : SourceId} {own : Registry} {brought : Brought}
    (registers : σ.Registers requestId own brought) (requested : σ.sources[requestId.index]? = some request) :
    own.mapValues σ.source = brought.sources request := by
  induction registers with
  | nil => rfl
  | @cons e f _ _ first _ ih =>
      obtain ⟨name, id⟩ := e
      obtain ⟨_, what⟩ := f
      obtain ⟨rfl, brings⟩ := first
      have here : σ.source id = what.getD request := by
        cases what with
        | none =>
            obtain rfl : id = requestId := brings
            exact source_of_getElem? requested
        | some s => exact source_of_getElem? brings.2
      change (name, σ.source id) :: Assoc.mapValues σ.source _ = (name, what.getD request) :: _
      rw [here, ih]
      rfl

end Store

namespace ContextId

variable {σ σ' : Store} {ctx : ContextId} {catalog : Option Catalog} {request : Source} {held : Holdings}
  {entries : Assoc Scalar Source}

/-- A context that is opened registers what it brings along, and over it what its state holds. -/
theorem exists_openTraced_equipped {state : StateId} (tidy : σ.Tidy (σ.state state))
    (catalog : Option Catalog) (request : Source) (backend : Option Backend) (trace : TraceId) :
    ∃ ctx σ', runFrom (openTraced state catalog request backend trace) σ = (.ok ctx, σ') ∧
      σ'.Equipped ctx catalog request (σ.holdings state) ((σ.holdings state).opening catalog request) ∧
      σ'.room = σ.room ∧ ∀ id : SourceId, id.index < σ.sources.size → σ'.source id = σ.source id := by
  obtain ⟨σ₁, own, requestId, registered, registers, requested, _, ran⟩ :=
    runFrom_openTraced σ state catalog request backend trace
  have added := registered.added
  obtain ⟨apart, known⟩ := registered.beside tidy
  obtain ⟨apart, inside⟩ := Assoc.nodup_values_insertAll apart
  have same := added.state_eq state
  have held : σ₁.holdings state = σ.holdings state := by
    rw [Store.holdings, same, added.mapValues_source tidy.known]
    rfl
  refine ⟨_, _, ran, ?_, added.room, fun id => added.source_eq⟩
  have context := σ₁.context_pushed
    ⟨state, catalog, backend, requestId, own.insertAll (σ₁.state state), .empty, trace⟩
  refine ⟨?_, ?_, ?_, ?_, ?_, ?_, ?_, ?_, ?_⟩
  · rw [Array.size_push]
    exact Nat.lt_succ_self _
  · rw [context]
  · rw [context]
  · rw [context]
    exact requested
  · rw [context]
    change Store.Tidy _ (σ₁.state state)
    rw [same]
    have tidied := added.tidy tidy
    exact ⟨tidied.distinct, tidied.apart, tidied.settled⟩
  · rw [context]
    exact held
  · rw [context, same]
    exact apart
  · rw [context, same]
    exact fun id member => known id (inside id member)
  · rw [Store.entries, context]
    change (own.insertAll (σ₁.state state)).mapValues σ₁.source = _
    rw [Assoc.mapValues_insertAll, registers.sources_eq requested]
    exact congrArg _ held

theorem exists_open_equipped {state : StateId} (tidy : σ.Tidy (σ.state state)) (catalog : Option Catalog)
    (request : Source) (backend : Option Backend) :
    ∃ ctx σ', runFrom (ContextId.open state catalog request backend) σ = (.ok ctx, σ') ∧
      σ'.Equipped ctx catalog request (σ.holdings state) ((σ.holdings state).opening catalog request) ∧
      σ'.room = σ.room := by
  let traced : Store := { σ with traces := σ.traces.push #[] }
  have added : runFrom Engine.addTrace σ = (.ok ⟨σ.traces.size⟩, traced) := rfl
  have tidied : traced.Tidy (traced.state state) := ⟨tidy.distinct, tidy.apart, tidy.settled⟩
  obtain ⟨ctx, σ', ran, equipped, room, _⟩ :=
    exists_openTraced_equipped tidied catalog request backend ⟨σ.traces.size⟩
  exact ⟨ctx, σ', (runFrom_bind_ok added _).trans ran, equipped, room⟩

/-- What is registered by hand is written over what was registered under its name. -/
theorem exists_register_equipped (equipped : σ.Equipped ctx catalog request held entries) (name : String)
    (source : Source) :
    ∃ σ', runFrom (ctx.register name source) σ = (.ok (), σ') ∧
      σ'.Equipped ctx catalog request held (entries.insert (registrationKey name source) source) ∧
      σ'.room = σ.room := by
  let σ₁ : Store := { σ with sources := σ.sources.push source }
  let r := (σ.context ctx).registry.insert (registrationKey name source) ⟨σ.sources.size⟩
  have pushed := Store.Added.push σ source
  have equipped₁ : σ₁.Equipped ctx catalog request held entries := equipped.keep pushed
  have known : ∀ id ∈ r.values, id.index < σ₁.sources.size := by
    intro id member
    rw [Array.size_push]
    rcases Assoc.mem_values_insert member with old | rfl
    · exact Nat.lt_succ_of_lt (equipped.known id old)
    · exact Nat.lt_succ_self _
  have apart : r.values.Nodup :=
    Assoc.nodup_values_insert equipped.apart fun inside => Nat.lt_irrefl _ (equipped.known _ inside)
  have written : r.mapValues σ₁.source = entries.insert (registrationKey name source) source := by
    have new : σ₁.source ⟨σ.sources.size⟩ = source := by rw [Store.source_push, if_pos rfl]
    have old : (σ.context ctx).registry.mapValues σ₁.source = entries :=
      (pushed.mapValues_source equipped.known).trans equipped.entries
    rw [Assoc.mapValues_insert, new, old]
  have equipped₂ := equipped₁.withRegistry apart known
  rw [written] at equipped₂
  exact ⟨_, rfl, equipped₂, rfl⟩

theorem exists_registerAll_equipped (equipped : σ.Equipped ctx catalog request held entries)
    (given : List (String × Source)) :
    ∃ σ', runFrom (ctx.registerAll given) σ = (.ok (), σ') ∧
      σ'.Equipped ctx catalog request held (entries.insertAll (registrations given)) ∧ σ'.room = σ.room := by
  induction given generalizing σ entries with
  | nil => exact ⟨σ, rfl, equipped, rfl⟩
  | cons entry rest ih =>
      obtain ⟨name, source⟩ := entry
      obtain ⟨σ₁, ran, equipped₁, room⟩ := exists_register_equipped equipped name source
      obtain ⟨σ₂, ran', equipped₂, room'⟩ := ih equipped₁
      exact ⟨σ₂, (runFrom_bind_ok ran _).trans ran', equipped₂, room'.trans room⟩

end ContextId

/-! ## Reset copies -/

theorem Source.Fixed.reset_eq {s : Source} (fixed : s.Fixed) : s.reset = s := by
  obtain ⟨name, content⟩ := s
  cases content with
  | memory kind values defaults => exact fixed.elim
  | _ => rfl

theorem Source.Settled.reset {name : Scalar} {s : Source} (settled : s.Settled name) :
    s.reset.Settled name := by
  rw [Source.Settled, Source.name_reset]
  exact settled

/-- What a context brings along is itself its reset copy, but for its request. -/
theorem Brought.sources_reset (request : Source) (name : Scalar) (catalog : Option Catalog) :
    (Brought.ofContext name catalog).sources request.reset =
      ((Brought.ofContext name catalog).sources request).mapValues Source.reset := by
  rw [sources, sources, Assoc.mapValues, Assoc.mapValues, Assoc.mapValues, List.map_map]
  refine List.map_congr_left fun entry member => ?_
  obtain ⟨key, what⟩ := entry
  cases what with
  | none => rfl
  | some s =>
      have fixed : s.Fixed := Brought.fixed_of_mem (List.mem_map_of_mem member)
      exact congrArg (Prod.mk key) fixed.reset_eq.symm

/-- A context that is opened on reset copies registers reset copies. -/
theorem Holdings.opening_reset (catalog : Option Catalog) (request : Source) (held : Holdings) :
    Holdings.opening catalog request.reset (held.mapValues Source.reset) =
      (held.opening catalog request).mapValues Source.reset := by
  rw [opening, opening, Assoc.mapValues_insertAll, Source.name_reset, Brought.sources_reset]

theorem Assoc.mapValues_reset_reset (a : Assoc Scalar Source) :
    (a.mapValues Source.reset).mapValues Source.reset = a.mapValues Source.reset := by
  rw [mapValues, mapValues, List.map_map]
  refine List.map_congr_left fun entry _ => ?_
  rw [Function.comp_apply, Source.reset_reset]

section

variable {σ : Store}

theorem StateId.added_addSources (entries : Assoc Scalar Source) (σ : Store) :
    ∃ r σ', runFrom (addSources entries) σ = (.ok r, σ') ∧ σ.Added σ' := by
  induction entries generalizing σ with
  | nil => exact ⟨[], σ, rfl, .refl σ⟩
  | cons entry rest ih =>
      obtain ⟨name, source⟩ := entry
      have added : runFrom (Engine.addSource (source.nameIfBlank name)) σ =
        (.ok ⟨σ.sources.size⟩, { σ with sources := σ.sources.push (source.nameIfBlank name) }) := rfl
      obtain ⟨r, σ', ran, later⟩ := ih { σ with sources := σ.sources.push (source.nameIfBlank name) }
      refine ⟨(name, ⟨σ.sources.size⟩) :: r, σ', ?_, (Store.Added.push σ _).trans later⟩
      rw [addSources, runFrom_bind_ok added, runFrom_bind_ok ran]
      rfl

/-- A reset copy of a state holds reset copies under the same names. -/
theorem StateId.exists_copyReset_holding {state : StateId} (tidy : σ.Tidy (σ.state state)) :
    ∃ r σ', runFrom state.copyReset σ =
        (.ok ⟨σ'.states.size⟩, { σ' with states := σ'.states.push r }) ∧ σ.Added σ' ∧ σ'.Tidy r ∧
      r.mapValues σ'.source = (σ.holdings state).mapValues Source.reset := by
  let entries : Assoc Scalar Source := (σ.state state).map fun entry => (entry.1, (σ.source entry.2).reset)
  have mapped : runFrom (state.mapSources Source.reset) σ = (.ok entries, σ) := rfl
  have distinct : Assoc.Distinct entries := by
    rw [Assoc.Distinct, List.pairwise_map]
    exact tidy.distinct
  obtain ⟨r, σ', ran, _, related⟩ := runFrom_addSources entries σ
  obtain ⟨_, _, ran', added⟩ := added_addSources entries σ
  cases ran.symm.trans ran'
  refine ⟨r, σ', ?_, added, tidy_of_addSources distinct ran, ?_⟩
  · rw [copyReset, runFrom_bind_ok mapped, create, distinct.ofList_eq, runFrom_bind_ok ran]
    rfl
  · -- a source that is settled keeps its name, and so does its reset copy
    have named : ∀ entry ∈ entries, entry.2.nameIfBlank entry.1 = entry.2 := by
      intro entry member
      obtain ⟨registered, inside, rfl⟩ := List.mem_map.mp member
      obtain ⟨s, found, settled⟩ := tidy.settled registered inside
      change (σ.source registered.2).reset.nameIfBlank registered.1 = (σ.source registered.2).reset
      rw [Store.source_of_getElem? found]
      exact settled.reset.nameIfBlank_eq
    have same : ∀ {entries : Assoc Scalar Source} {r : Registry},
        (∀ entry ∈ entries, entry.2.nameIfBlank entry.1 = entry.2) →
        List.Forall₂ (fun e f => e.1 = f.1 ∧ σ'.sources[f.2.index]? = some (e.2.nameIfBlank e.1)) entries r →
        r.mapValues σ'.source = entries := by
      intro entries r named related
      induction related with
      | nil => rfl
      | @cons e f _ _ first _ ih =>
          obtain ⟨own, named⟩ := List.forall_mem_cons.mp named
          have here : (f.1, σ'.source f.2) = e := by
            rw [Store.source_of_getElem? first.2, own, ← first.1]
          exact List.cons_eq_cons.mpr ⟨here, ih named⟩
    rw [same named related, Store.holdings, Assoc.mapValues, Assoc.mapValues, List.map_map]
    rfl

end

namespace ContextId

variable {σ σ' : Store} {ctx : ContextId} {catalog : Option Catalog} {request : Source} {held : Holdings}
  {entries : Assoc Scalar Source}

/-- What is taken over comes behind what is there: reset copies, each of them a new source. -/
theorem exists_addMissing_entries (given : List (Scalar × Source)) {r : Registry}
    (apart : r.values.Nodup) (known : ∀ id ∈ r.values, id.index < σ.sources.size) :
    ∃ r' σ', runFrom (addMissing r given) σ = (.ok r', σ') ∧ σ.Added σ' ∧ r'.values.Nodup ∧
      (∀ id ∈ r'.values, id.index < σ'.sources.size) ∧
      r'.mapValues σ'.source = r.mapValues σ.source ++ (r.mapValues σ.source).missing given := by
  induction given generalizing σ r with
  | nil =>
      refine ⟨r, σ, rfl, .refl σ, apart, known, ?_⟩
      rw [Assoc.missing, List.append_nil]
  | cons entry rest ih =>
      obtain ⟨name, source⟩ := entry
      have names : (r.mapValues σ.source).contains name = r.contains name := by
        rw [Assoc.contains, Assoc.contains, Assoc.find?_mapValues, Option.isSome_map]
      rw [Assoc.missing, names, addMissing]
      cases contained : r.contains name with
      | true => exact ih apart known
      | false =>
          let σ₁ : Store := { σ with sources := σ.sources.push source.reset }
          let r₁ : Registry := r ++ [(name, ⟨σ.sources.size⟩)]
          have pushed := Store.Added.push σ source.reset
          have absent : r.find? name = none := Option.not_isSome_iff_eq_none.mp (Bool.eq_false_iff.mp contained)
          have inserted : r.insert name ⟨σ.sources.size⟩ = r₁ := Assoc.insert_of_missing absent _
          have added : runFrom (addRegistered r name source.reset) σ = (.ok r₁, σ₁) := by
            rw [← inserted]
            rfl
          have apart₁ : r₁.values.Nodup := by
            rw [← inserted]
            exact Assoc.nodup_values_insert apart fun inside => Nat.lt_irrefl _ (known _ inside)
          have known₁ : ∀ id ∈ r₁.values, id.index < σ₁.sources.size := by
            intro id member
            rw [Array.size_push]
            rw [← inserted] at member
            rcases Assoc.mem_values_insert member with old | rfl
            · exact Nat.lt_succ_of_lt (known id old)
            · exact Nat.lt_succ_self _
          have entries₁ : r₁.mapValues σ₁.source = r.mapValues σ.source ++ [(name, source.reset)] := by
            have old : r.mapValues σ₁.source = r.mapValues σ.source := pushed.mapValues_source known
            have new : σ₁.source ⟨σ.sources.size⟩ = source.reset := by rw [Store.source_push, if_pos rfl]
            rw [← old, ← new]
            exact List.map_append
          obtain ⟨r', σ', ran, later, apart', known', entries'⟩ := ih apart₁ known₁
          refine ⟨r', σ', ?_, pushed.trans later, apart', known', ?_⟩
          · rw [if_neg Bool.false_ne_true, runFrom_bind_ok added, ran]
          · rw [if_neg Bool.false_ne_true, entries', entries₁, List.append_assoc]
            rfl

/-- A reset copy is equipped with reset copies of what the context was opened on, and of what it lacks
then. -/
theorem exists_copyReset_equipped (equipped : σ.Equipped ctx catalog request held entries) :
    ∃ copy σ', runFrom ctx.copyReset σ = (.ok copy, σ') ∧ σ'.room = σ.room ∧
      σ'.Equipped copy catalog request.reset (held.mapValues Source.reset)
        ((held.opening catalog request).mapValues Source.reset ++
          ((held.opening catalog request).mapValues Source.reset).missing entries) := by
  let c := σ.context ctx
  obtain ⟨r, σ₁, copied, added₁, tidy, holds⟩ := StateId.exists_copyReset_holding equipped.tidy
  let σ₂ : Store := { σ₁ with states := σ₁.states.push r }
  let state : StateId := ⟨σ₁.states.size⟩
  have stored : σ₂.state state = r := σ₁.state_pushed r
  have tidy₂ : σ₂.Tidy (σ₂.state state) := by
    rw [stored]
    exact ⟨tidy.distinct, tidy.apart, tidy.settled⟩
  have held₂ : σ₂.holdings state = held.mapValues Source.reset := by
    rw [Store.holdings, stored, ← equipped.held]
    exact holds
  have requested : (σ₂.source c.request).reset = request.reset := by
    have found : σ₂.sources[c.request.index]? = some request := added₁.found equipped.requested
    rw [Store.source_of_getElem? found]
  obtain ⟨copy, σ₃, opened, equipped₃, room₃, sources₃⟩ :=
    exists_openTraced_equipped tidy₂ c.catalog request.reset c.backend c.trace
  rw [held₂, Holdings.opening_reset, equipped.catalog] at equipped₃
  -- what the context has registered is there as it was
  have given : c.registry.mapValues σ₃.source = entries := by
    rw [← equipped.entries]
    refine Assoc.mapValues_congr fun id member => ?_
    have inside := equipped.known id member
    rw [sources₃ id (Nat.lt_of_lt_of_le inside added₁.sources.size_le)]
    exact added₁.source_eq inside
  obtain ⟨r', σ₄, completed, added₄, apart, known, entries₄⟩ :=
    exists_addMissing_entries entries equipped₃.apart equipped₃.known
  have equipped₄ := (equipped₃.keep added₄).withRegistry apart known
  have registered : (σ₃.context copy).registry.mapValues σ₃.source = _ := equipped₃.entries
  rw [entries₄, registered] at equipped₄
  rw [← requested] at opened
  rw [← given] at completed
  exact ⟨copy, σ₄.setContext copy { σ₄.context copy with registry := r' },
    runFrom_copyReset_ok.mpr ⟨state, σ₂, σ₃, r', σ₄, copied, opened, completed, rfl⟩,
    (added₄.room.trans room₃).trans added₁.room, equipped₄⟩

end ContextId

/-! ## Copies beside each other -/

section

variable {σ τ : Store} {r r' : Registry}

/-- Registries of the same sources have these in the same places. -/
theorem Store.forall₂_of_mapValues_eq (same : r.mapValues σ.source = r'.mapValues τ.source) :
    List.Forall₂ (fun e f => e.1 = f.1 ∧ σ.source e.2 = τ.source f.2) r r' := by
  refine List.Forall₂.imp (fun e f equal => Prod.mk.inj equal) ?_
  rw [← List.forall₂_map_right_iff (f := fun e : Scalar × SourceId => (e.1, τ.source e.2)),
    ← List.forall₂_map_left_iff (f := fun e : Scalar × SourceId => (e.1, σ.source e.2)), List.forall₂_eq_eq_eq]
  exact same

theorem Pairing.scopes_zipped (same : r.mapValues σ.source = r'.mapValues τ.source) :
    (zipped r r').Scopes (σ.scope r) (τ.scope r') := by
  have alike := Store.forall₂_of_mapValues_eq same
  rw [Scopes, Store.scope, Store.scope, Assoc.mapValues, Assoc.mapValues, List.forall₂_map_left_iff,
    List.forall₂_map_right_iff]
  rw [List.forall₂_iff_zip] at alike ⊢
  exact ⟨alike.1, fun inside => ⟨(alike.2 inside).1, sources_zipped inside, (alike.2 inside).2⟩⟩

end

namespace Store.Equipped

variable {σ τ : Store} {ctx other : ContextId} {catalog catalog' : Option Catalog} {request request' : Source}
  {held held' : Holdings} {entries : Assoc Scalar Source}

/-- Contexts that have registered the same and have computed nothing resolve every coordinate alike. -/
theorem read_eq (equipped : σ.Equipped ctx catalog request held entries)
    (equipped' : τ.Equipped other catalog' request' held' entries) (room : σ.room = τ.room) (c : Coordinate) :
    (runFrom (ctx.read c) σ).1 = (runFrom (other.read c) τ).1 := by
  let P := Pairing.zipped (σ.context ctx).registry (τ.context other).registry
  have tracks := Pairing.tracks_resolve (P := P) (Pairing.single_zipped equipped.apart equipped'.apart)
    (Pairing.scopes_zipped (equipped.entries.trans equipped'.entries.symm)) σ.room c
  have memos : P.Memos (σ.progress ctx).memo (τ.progress other).memo := by
    change P.Memos (σ.context ctx).memo (τ.context other).memo
    rw [equipped.memo, equipped'.memo]
    exact ⟨rfl, .nil, rfl⟩
  rw [ContextId.read, ContextId.read, ctx.runFrom_evaluate, other.runFrom_evaluate, Store.resolver,
    Store.resolver, ← room]
  have ends := tracks (σ.progress ctx) (τ.progress other) ⟨memos, trivial⟩
  exact ends.fst_eq (fun _ => id) fun _ => id

end Store.Equipped

namespace Session

open ContextId

/-- A reset copy has a source under every name that its context has, also where sources were registered by
hand.  The source is a reset copy of what the context was opened with under this name, else of what it finds
there.  So it is a reset copy of what the context finds wherever nothing was registered over a name that was
bound before; and a reset copy of the copy finds the same as the copy, and resolves every coordinate alike,
as long as no name differs from itself. -/
theorem reset_copies_take_over {room : Option Nat} {s : Session} (reached : s.Reached room) {state : StateId}
    (held : s.Holds state) (catalog : Option Catalog) (request : Source) (backend : Option Backend)
    (given : List (String × Source)) :
    ∃ ctx opened σ copy σ' again σ'',
      runFrom (ContextId.open state catalog request backend) s.store = (.ok ctx, opened) ∧
      runFrom (ctx.registerAll given) opened = (.ok (), σ) ∧
      runFrom ctx.copyReset σ = (.ok copy, σ') ∧ runFrom copy.copyReset σ' = (.ok again, σ'') ∧
      (∀ name, (σ'.registered copy name).isSome = (σ.registered ctx name).isSome) ∧
      (∀ name, σ'.registered copy name =
        ((opened.registered ctx name).or (σ.registered ctx name)).map Source.reset) ∧
      (∀ name, opened.registered ctx name = none ∨
          (∀ entry ∈ registrations given, (entry.1 == name) = false) →
        σ'.registered copy name = (σ.registered ctx name).map Source.reset) ∧
      (∀ name, σ''.registered again name = σ'.registered copy name) ∧
      ((∀ name ∈ (σ.context ctx).registry.keys, (name == name) = true) →
        ∀ c, (runFrom (again.read c) σ'').1 = (runFrom (copy.read c) σ').1) := by
  obtain ⟨ctx, opened, ran, equipped, _⟩ :=
    exists_open_equipped (reached.tidy held) catalog request backend
  obtain ⟨σ, ran₁, equipped₁, _⟩ := exists_registerAll_equipped equipped given
  obtain ⟨copy, σ', ran₂, _, equipped₂⟩ := exists_copyReset_equipped equipped₁
  obtain ⟨again, σ'', ran₃, room₃, equipped₃⟩ := exists_copyReset_equipped equipped₂
  let first := (s.store.holdings state).opening catalog request
  let base := first.mapValues Source.reset
  rw [Holdings.opening_reset, Assoc.mapValues_reset_reset, Assoc.mapValues_reset_reset] at equipped₃
  have found : ∀ name, σ'.registered copy name =
      ((opened.registered ctx name).or (σ.registered ctx name)).map Source.reset := by
    intro name
    rw [Store.registered, Store.registered, Store.registered, equipped₂.entries, equipped.entries,
      equipped₁.entries, Assoc.find?_append, Assoc.find?_missing, Assoc.find?_mapValues, Option.map_or]
  have kept : ∀ name, (opened.registered ctx name).isSome → (σ.registered ctx name).isSome := by
    intro name
    rw [Store.registered, Store.registered, equipped.entries, equipped₁.entries]
    exact fun there => Assoc.isSome_find?_insertAll there _
  refine ⟨ctx, opened, σ, copy, σ', again, σ'', ran, ran₁, ran₂, ran₃, ?bound, found, ?mirrored, ?same, ?read⟩
  case bound =>
    intro name
    rw [found name, Option.isSome_map, Option.isSome_or]
    cases there : (opened.registered ctx name).isSome with
    | true => rw [kept name there, Bool.true_or]
    | false => rw [Bool.false_or]
  case mirrored =>
    intro name either
    rw [found name]
    rcases either with absent | others
    · rw [absent, Option.none_or]
    · have same : σ.registered ctx name = opened.registered ctx name := by
        rw [Store.registered, Store.registered, equipped.entries, equipped₁.entries,
          Assoc.find?_insertAll_of_ne _ others]
      rw [same, Option.or_self]
  case same =>
    intro name
    rw [Store.registered, Store.registered, equipped₃.entries, equipped₂.entries, Assoc.find?_append,
      Assoc.find?_missing, Assoc.find?_append]
    have resets := Assoc.find?_missing base (first.insertAll (registrations given)) name
    cases there : base.find? name with
    | some source => rw [Option.some_or, Option.some_or]
    | none =>
        rw [there, Option.none_or, Option.none_or] at resets
        rw [Option.none_or, Option.none_or, resets, Option.map_map]
        exact congrArg (Option.map · _) (funext Source.reset_reset)
  case read =>
    intro selves
    have own : ∀ entry ∈ base, (entry.1 == entry.1) = true := by
      intro entry member
      refine selves entry.1 ?_
      have names : (σ.context ctx).registry.keys = (first.insertAll (registrations given)).keys := by
        rw [← Assoc.keys_mapValues σ.source]
        exact congrArg Assoc.keys equipped₁.entries
      rw [names]
      refine Assoc.mem_keys_insertAll ?_ _
      rw [← Assoc.keys_mapValues Source.reset]
      exact List.mem_map_of_mem member
    rw [Assoc.missing_append own fun _ => id, Assoc.missing_missing] at equipped₃
    exact equipped₃.read_eq equipped₂ room₃

/-- A source that is registered by hand, with its default. -/
def handmade (name : String) : Source :=
  .request (.text name) [] [(.text "n", .scalar (.int 7))]

/-- A context over a table, and the store after a source was registered in it by hand. -/
def withHandmade (name : String) : Store :=
  (runFrom (registerAll ⟨0⟩ [(name, handmade name)])
    (runFrom (ContextId.open ⟨0⟩ (some (.ofList [sizeTable])) (.requestOf []) none) plain.store).2).2

/-- Under a name of its own such a source is taken over, also by a copy of the copy. -/
theorem handmade_is_taken_over : ∃ (copy again : ContextId) (σ' σ'' : Store),
    runFrom (copyReset ⟨0⟩) (withHandmade "mine") = (.ok copy, σ') ∧
    runFrom copy.copyReset σ' = (.ok again, σ'') ∧
    σ'.registered copy (.text "mine") = some (handmade "mine").reset ∧
    (runFrom (again.read ⟨"mine", "n"⟩) σ'').1 = (runFrom (copy.read ⟨"mine", "n"⟩) σ').1 := by
  have reached : plain.Reached (some Nesting.evaluationRoom) := ⟨_, rfl⟩
  have held : plain.Holds ⟨0⟩ := .state (List.mem_of_getElem? (i := 0) (by cbv))
  obtain ⟨ctx, opened, σ, copy, σ', again, σ'', ran, registered, copied, copied', _, _, mirrored, _, read⟩ :=
    reset_copies_take_over reached held (some (.ofList [sizeTable])) (.requestOf []) none
      [("mine", handmade "mine")]
  obtain rfl : ctx = ⟨0⟩ := Except.ok.inj ((congrArg Prod.fst ran).symm.trans (by cbv))
  obtain rfl := congrArg Prod.snd ran
  obtain rfl : withHandmade "mine" = σ := congrArg Prod.snd registered
  refine ⟨copy, again, σ', σ'', copied, copied', ?_, read ?_ _⟩
  · rw [mirrored (.text "mine") (.inl (by cbv))]
    cbv
  · decide +kernel

/-- Under the name of the request it is not: the copy has the request that the context was opened with, and
not what the context finds. -/
theorem handmade_over_request_is_lost : ∃ (copy : ContextId) (σ' : Store),
    runFrom (copyReset ⟨0⟩) (withHandmade "request") = (.ok copy, σ') ∧
    (withHandmade "request").registered ⟨0⟩ (.text "request") = some (handmade "request") ∧
    σ'.registered copy (.text "request") = some (.requestOf []) ∧
    σ'.registered copy (.text "request") ≠
      ((withHandmade "request").registered ⟨0⟩ (.text "request")).map Source.reset ∧
    (runFrom (copy.read ⟨"request", "n"⟩) σ').1 =
      .error (.engine (.missingFragment "n" (.text "request"))) := by
  have finds : (withHandmade "request").registered ⟨0⟩ (.text "request") = some (handmade "request") := by cbv
  have copied : (runFrom (copyReset ⟨0⟩) (withHandmade "request")).1 = .ok ⟨1⟩ := by cbv
  have left : (runFrom (copyReset ⟨0⟩) (withHandmade "request")).2.registered ⟨1⟩ (.text "request") =
    some (.requestOf []) := by cbv
  have read : (runFrom (ContextId.read ⟨1⟩ ⟨"request", "n"⟩)
      (runFrom (copyReset ⟨0⟩) (withHandmade "request")).2).1 =
    .error (.engine (.missingFragment "n" (.text "request"))) := by decide +kernel
  have ran : runFrom (copyReset ⟨0⟩) (withHandmade "request") =
      (.ok ⟨1⟩, (runFrom (copyReset ⟨0⟩) (withHandmade "request")).2) := by
    rw [← copied]
  refine ⟨⟨1⟩, _, ran, finds, left, ?_, read⟩
  rw [left, finds]
  intro same
  have values := congrArg (Option.map fun s : Source => s.values.length) same
  cases values

end Session

end DecisionTables
