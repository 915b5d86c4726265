import Mathlib
import DecisionTables.Proofs.Ending
import DecisionTables.Proofs.Mirroring
import DecisionTables.Proofs.Opened

/-!
# Other tables in the place of tables

What a context sees when it is opened over tables that stand for others, each under the name
of the one that it stands for: the same sources but for these tables, under the same names,
and the same chains of named conditions.
-/

namespace DecisionTables

variable {R : Table → Table → Prop}

/-- The same source, or a table that stands for another. -/
inductive Source.Altered (R : Table → Table → Prop) : Source → Source → Prop where
  | same (s : Source) : Altered R s s
  | table {t u : Table} (tables : R t u) : Altered R (.ofTable t) (.ofTable u)

namespace Source.Altered

variable {s s' : Source}

theorem symm (swap : ∀ {t u}, R t u → R u t) (altered : s.Altered R s') : s'.Altered R s := by
  cases altered with
  | same => exact .same s
  | table tables => exact .table (swap tables)

theorem name_eq (names : ∀ {t u}, R t u → t.name = u.name) (altered : s.Altered R s') :
    s.name = s'.name := by
  cases altered with
  | same => rfl
  | table tables => exact congrArg Scalar.text (names tables)

end Source.Altered

/-- What is found at a fragment of two sources: the same result without computing anything, related tables,
or the same named condition. -/
inductive Source.AlteredAt (R : Table → Table → Prop) (fragment : String) (s s' : Source) : Prop where
  | direct (result : Except Fault String) (left : s.direct? fragment = some result)
      (right : s'.direct? fragment = some result)
  | table (t u : Table) (left : s.content = .table t) (right : s'.content = .table u) (tables : R t u)
  | condition (named : Assoc String Condition) (c : Condition) (left : s.content = .conditions named)
      (right : s'.content = .conditions named) (registered : named.find? fragment = some c)

theorem Source.Altered.alteredAt {s s' : Source} (refl : ∀ t, R t t)
    (altered : s.Altered R s') (fragment : String) : s.AlteredAt R fragment s' := by
  cases altered with
  | table tables => exact .table _ _ rfl rfl tables
  | same =>
      rcases s.direct_or_computed fragment with
        ⟨result, direct⟩ | ⟨t, content⟩ | ⟨named, c, content, registered⟩
      · exact .direct result direct direct
      · exact .table t t content content (refl t)
      · exact .condition named c content content registered

/-! ## Scopes -/

namespace Scope

/-- The same scope but for tables that stand for others. -/
def Altered (R : Table → Table → Prop) : Scope → Scope → Prop :=
  List.Forall₂ fun e f => e.1 = f.1 ∧ e.2.2.Altered R f.2.2

variable {scope scope' : Scope} {c : Coordinate}

theorem Altered.symm (swap : ∀ {t u}, R t u → R u t) (altered : scope.Altered R scope') :
    scope'.Altered R scope :=
  List.Forall₂.flip (altered.imp fun _ _ pair => ⟨pair.1.symm, pair.2.symm swap⟩)

theorem Altered.find? (altered : scope.Altered R scope') (name : Scalar) :
    Option.Rel (fun v w : SourceId × Source => v.2.Altered R w.2)
      (Assoc.find? scope name) (Assoc.find? scope' name) :=
  Assoc.find?_rel altered fun _ _ same => by rw [same]

theorem Altered.find (altered : scope.Altered R scope') {name : Scalar} {id : SourceId}
    {source : Source} (found : Assoc.find? scope name = some (id, source)) :
    ∃ id' source', Assoc.find? scope' name = some (id', source') ∧ source.Altered R source' := by
  have related := altered.find? name
  rw [found] at related
  cases found' : Assoc.find? scope' name with
  | none =>
      rw [found'] at related
      cases related
  | some entry =>
      rw [found'] at related
      cases related with
      | some pair => exact ⟨entry.1, entry.2, rfl, pair⟩

theorem Altered.depth_eq (altered : scope.Altered R scope') : scope.depth = scope'.depth := by
  have counts : scope.tableCount = scope'.tableCount ∧ scope.conditionCount = scope'.conditionCount := by
    induction altered with
    | nil => exact ⟨rfl, rfl⟩
    | @cons e f _ _ head _ ih =>
        obtain ⟨_, _, source⟩ := e
        obtain ⟨_, _, source'⟩ := f
        obtain ⟨tables, conditions⟩ := ih
        have same : source.tableCount = source'.tableCount ∧
            source.conditionCount = source'.conditionCount := by
          cases head.2 with
          | same => exact ⟨rfl, rfl⟩
          | table => exact ⟨rfl, rfl⟩
        rw [tableCount, tableCount, conditionCount, conditionCount, same.1, same.2, tables, conditions]
        exact ⟨rfl, rfl⟩
  rw [depth, depth, counts.1, counts.2]

theorem Altered.follow (altered : scope.Altered R scope') {next : Coordinate}
    (follows : scope.follow c = some next) : scope'.follow c = some next := by
  obtain ⟨_, _, named, condition, found, content, registered, rfl⟩ := condition_of_follow follows
  obtain ⟨_, _, found', related⟩ := altered.find found
  cases related with
  | same => exact follow_of_condition found' content registered
  | table => cases content

theorem Altered.endless (altered : scope.Altered R scope') (endless : scope.Endless c) :
    scope'.Endless c := by
  intro n
  induction n generalizing c with
  | zero => exact Option.some_ne_none c
  | succ n ih =>
      obtain ⟨next, follows, endless⟩ := endless.follow
      rw [chain, altered.follow follows]
      exact ih endless

end Scope

/-! ## Catalogs -/

namespace Catalog

variable {tables tables' : List Table} (names : ∀ {t u}, R t u → t.name = u.name)

include names

theorem altered_ofList (altered : List.Forall₂ R tables tables') :
    List.Forall₂ (fun e f => e.1 = f.1 ∧ R e.2 f.2) (ofList tables).entries (ofList tables').entries := by
  refine Assoc.insertAll_rel .nil ?_
  rw [List.forall₂_map_left_iff, List.forall₂_map_right_iff]
  exact altered.imp fun t u same => ⟨names same, same⟩

/-- Tables that stand for others are found under the same names. -/
theorem altered_table (altered : List.Forall₂ R tables tables') (name : String) :
    (∃ t u, (ofList tables).table name = .ok t ∧ (ofList tables').table name = .ok u ∧ R t u) ∨
    (ofList tables).table name = .error (.unknownTable name) ∧
      (ofList tables').table name = .error (.unknownTable name) := by
  have keys : ∀ e f : String, e = f → (e == name) = (f == name) := fun _ _ same => by rw [same]
  have related : Option.Rel R ((ofList tables).entries.find? name) ((ofList tables').entries.find? name) :=
    Assoc.find?_rel (altered_ofList names altered) keys
  unfold table
  revert related
  generalize (ofList tables).entries.find? name = left
  generalize (ofList tables').entries.find? name = right
  intro related
  cases related with
  | none => exact .inr ⟨rfl, rfl⟩
  | some same => exact .inl ⟨_, _, rfl, rfl, same⟩

end Catalog

/-! ## Stores -/

/-- Two stores with the same sources and states but for tables that stand for others. -/
structure Store.Altered (R : Table → Table → Prop) (σ σ' : Store) : Prop where
  size : σ.sources.size = σ'.sources.size
  source : ∀ id, (σ.source id).Altered R (σ'.source id)
  states : σ.states = σ'.states

namespace Store

variable {σ σ' : Store}

theorem Altered.refl (σ : Store) : σ.Altered R σ :=
  ⟨rfl, fun id => .same (σ.source id), rfl⟩

theorem Altered.push (stores : σ.Altered R σ') {s s' : Source} (sources : s.Altered R s') :
    ({ σ with sources := σ.sources.push s }).Altered R
      { σ' with sources := σ'.sources.push s' } := by
  refine ⟨?_, fun id => ?_, stores.states⟩
  · rw [Array.size_push, Array.size_push, stores.size]
  · rw [source_push, source_push, stores.size]
    split
    · exact sources
    · exact stores.source id

/-- The same registry gives scopes that differ in these tables only. -/
theorem Altered.scope (stores : σ.Altered R σ') (r : Registry) :
    (σ.scope r).Altered R (σ'.scope r) := by
  unfold Store.scope Scope.Altered Assoc.mapValues
  rw [List.forall₂_map_left_iff, List.forall₂_map_right_iff]
  exact List.forall₂_same.mpr fun entry _ => ⟨rfl, stores.source entry.2⟩

end Store

/-! ## Contexts -/

namespace ContextId

variable {σ σ' : Store} (names : ∀ {t u}, R t u → t.name = u.name)

include names

theorem altered_addAllRegistered {sources sources' : List Source}
    (related : List.Forall₂ (Source.Altered R) sources sources') (stores : σ.Altered R σ')
    (r : Registry) :
    ∃ own τ τ', runFrom (addAllRegistered r sources) σ = (.ok own, τ) ∧
      runFrom (addAllRegistered r sources') σ' = (.ok own, τ') ∧ τ.Altered R τ' := by
  induction related generalizing σ σ' r with
  | nil => exact ⟨r, σ, σ', rfl, rfl, stores⟩
  | @cons s s' rest rest' head _ ih =>
      have added : runFrom (Engine.addSource s) σ =
        (.ok ⟨σ.sources.size⟩, { σ with sources := σ.sources.push s }) := rfl
      have added' : runFrom (Engine.addSource s') σ' =
        (.ok ⟨σ'.sources.size⟩, { σ' with sources := σ'.sources.push s' }) := rfl
      obtain ⟨own, τ, τ', ran, ran', stores'⟩ :=
        ih (stores.push head) (r.insert s.name ⟨σ.sources.size⟩)
      refine ⟨own, τ, τ', ?_, ?_, stores'⟩
      · rw [addAllRegistered, addRegistered, bind_assoc, runFrom_bind_ok added, pure_bind, ran]
      · rw [addAllRegistered, addRegistered, bind_assoc, runFrom_bind_ok added', pure_bind,
          ← head.name_eq names, ← stores.size, ran']

/-- Contexts over tables that stand for others see the same but for these. -/
theorem altered_open (state : StateId) {tables tables' : List Table}
    (altered : List.Forall₂ R tables tables') (request : Source)
    (backend : Option Backend) {ctx ctx' : ContextId} {opened opened' : Store}
    (ran : runFrom (ContextId.open state (some (.ofList tables)) request backend) σ = (.ok ctx, opened))
    (ran' : runFrom (ContextId.open state (some (.ofList tables')) request backend) σ =
      (.ok ctx', opened')) :
    (opened.scope (opened.context ctx).registry).Altered R
      (opened'.scope (opened'.context ctx').registry) := by
  have sources : List.Forall₂ (Source.Altered R) (tableSources (some (.ofList tables)))
      (tableSources (some (.ofList tables'))) := by
    simp only [tableSources, Catalog.tables, Assoc.values, List.map_map]
    rw [List.forall₂_map_left_iff, List.forall₂_map_right_iff]
    exact (Catalog.altered_ofList names altered).imp fun _ _ same => .table same.2
  let traced : Store := { σ with traces := σ.traces.push #[] }
  have added : runFrom Engine.addTrace σ = (.ok ⟨σ.traces.size⟩, traced) := rfl
  let σ₁ : Store := { traced with sources := traced.sources.push .constant }
  let σ₂ : Store := { σ₁ with sources := σ₁.sources.push request }
  have constants : runFrom (addAllRegistered [] [.constant]) traced =
    (.ok [(Source.constant.name, ⟨traced.sources.size⟩)], σ₁) := rfl
  have requested : runFrom (Engine.addSource request) σ₁ = (.ok ⟨σ₁.sources.size⟩, σ₂) := rfl
  obtain ⟨own, τ, τ', tabled, tabled', stores⟩ := altered_addAllRegistered names sources (.refl σ₂)
    (Assoc.insert [(Source.constant.name, ⟨traced.sources.size⟩)] request.name ⟨σ₁.sources.size⟩)
  rw [ContextId.open, runFrom_bind_ok added, openTraced, runFrom_bind_ok constants,
    runFrom_bind_ok requested] at ran ran'
  rw [runFrom_bind_ok tabled] at ran
  rw [runFrom_bind_ok tabled'] at ran'
  cases ran
  cases ran'
  rw [Store.context_pushed, Store.context_pushed]
  have states : τ.state state = τ'.state state := by
    rw [Store.state, Store.state, stores.states]
  rw [states]
  exact stores.scope _

end ContextId

end DecisionTables
