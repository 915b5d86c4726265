import Mathlib
import DecisionTables.Proofs.Opened
import DecisionTables.Proofs.Transparency
import DecisionTables.Session

/-!
# Reads do not depend on each other

A context remembers what it has computed for one read and uses it for the next.  No read
can tell: each gives what it would give as the first read of the context, and what an
evaluation without any memory gives, unless these run too deep.
-/

namespace DecisionTables

/-- An operation on a context that only reads. -/
inductive Read where
  | value (c : Coordinate)
  | evaluate (c : Condition)
  | outcome (table : String)
  | check (r : Rule)
  | select (table : String)
  | decideTable (t : Table)

namespace Read

/-- The operation of a read. -/
def operation : Read → ContextOperation
  | value c => .value c
  | evaluate c => .evaluate c
  | outcome table => .outcome table
  | check r => .check r
  | select table => .select table
  | decideTable t => .decideTable t

/-- The evaluation behind a read, with the tables of a catalog. -/
def step (catalog : Catalog) : Read → Resolver → Evaluation Answer
  | value c, resolve => return .text (← resolve c)
  | evaluate c, resolve => do
    let (holds, actual) ← c.evaluate resolve
    return .judged holds actual
  | outcome table, resolve => do
    let t ← Evaluation.ofExcept (catalog.table table)
    return .outcome (← t.decideOnce resolve)
  | check r, resolve => return .truth (← r.check resolve)
  | select table, resolve => do
    let t ← Evaluation.ofExcept (catalog.table table)
    return .text (← t.select resolve).name
  | decideTable t, resolve => return .outcome (← t.decide resolve)

/-- A read only resolves coordinates, or it decides a table of the catalog. -/
theorem uniform_or_table (catalog : Catalog) (read : Read) :
    Uniform (read.step catalog) ∨ ∃ t name, catalog.table name = .ok t ∧
      read.step catalog = fun resolve => return .outcome (← t.decideOnce resolve) := by
  cases read with
  | value c =>
      refine .inl fun E respected r s along => ?_
      exact respected.bind (along c) fun _ => respected.pure _
  | evaluate c =>
      refine .inl fun E respected r s along => ?_
      exact respected.bind (c.uniform_evaluate E respected r s along) fun _ => respected.pure _
  | outcome table =>
      cases found : catalog.table table with
      | ok t =>
          refine .inr ⟨t, table, found, ?_⟩
          funext resolve
          rw [step, found]
          rfl
      | error error =>
          refine .inl fun E respected r s along => ?_
          rw [step, step, found]
          exact respected.fail error
  | check r =>
      refine .inl fun E respected r' s along => ?_
      exact respected.bind (r.uniform_check E respected r' s along) fun _ => respected.pure _
  | select table =>
      refine .inl fun E respected r s along => ?_
      refine respected.bind (respected.ofExcept (catalog.table table)) fun t => ?_
      exact respected.bind (t.uniform_select E respected r s along) fun _ => respected.pure _
  | decideTable t =>
      refine .inl fun E respected r s along => ?_
      exact respected.bind (t.uniform_decide E respected r s along) fun _ => respected.pure _

end Read

/-! ## The evaluation behind a read -/

/-- Every table of the catalog is found by its own name. -/
def Catalog.Named (catalog : Catalog) : Prop :=
  ∀ name t, catalog.table name = .ok t → t.name = name

theorem Catalog.Named.own {catalog : Catalog} (named : catalog.Named) {name : String} {t : Table}
    (found : catalog.table name = .ok t) : catalog.table t.name = .ok t := by
  rw [named name t found, found]

section

variable {scope : Scope} {catalog owner : Catalog}

/-- A read of tables that a catalog owns leaves the knowledge of the engine sound. -/
theorem Read.settling (coherent : scope.Coherent) (owned : scope.Owned owner)
    (own : ∀ name t, catalog.table name = .ok t → owner.table t.name = .ok t) (read : Read)
    (room : Option Nat) {p : Progress} (settling : Settling scope owner p) :
    Records scope owner p (runFrom (read.step catalog (scope.resolve room)) p).2 := by
  have recorded : scope.Recorded owner (scope.resolve room) := by
    rw [Scope.resolve, ← scope.resolveBy_all]
    exact Scope.recorded_resolveBy coherent owned scope.depth room
  rcases read.uniform_or_table catalog with uniform | ⟨t, name, found, same⟩
  · exact (recorded.step uniform settling).1
  · rw [same]
    have records := (recorded.table (own name t found) settling).1
    rw [runFrom_bind]
    revert records
    rcases runFrom (t.decideOnce (scope.resolve room)) p with ⟨result, p'⟩
    intro records
    cases result with
    | ok o => exact records
    | error f => exact records

/-- A read with less knowledge goes along with the engine. -/
theorem Read.refreshing (coherent : scope.Coherent) (owned : scope.Owned catalog)
    (named : catalog.Named) (read : Read) (R : Retention) (room : Option Nat) :
    (refreshing scope catalog).Tracks (read.step catalog (scope.resolveBy R scope.depth room))
      (read.step catalog (scope.resolve room)) := by
  rw [Scope.resolve, ← scope.resolveBy_all]
  have along := Scope.refreshing_resolveBy coherent owned R scope.depth room
  rcases read.uniform_or_table catalog with uniform | ⟨t, name, found, same⟩
  · exact uniform.tracks along
  · rw [same]
    exact Tracking.tracks_bind (refreshing_table
      (fun l => Scope.confirmed_resolveBy coherent owned l R.spares_blank scope.depth room)
      (Scope.recorded_resolveBy coherent owned scope.depth room) along (named.own found)) fun _ =>
        Tracking.tracks_pure _

theorem Read.not_cutOff (read : Read) (R : Retention) {room : Option Nat}
    (ample : Scope.Ample scope.depth room) (ends : ∀ c, ¬ scope.Endless c) (p : Progress) :
    ¬ CutOff (read.step catalog (scope.resolveBy R scope.depth room)) p := by
  rcases read.uniform_or_table catalog with uniform | ⟨t, name, _, same⟩
  · exact uniform.not_cutOff (Scope.not_cutOff_of_ends ample ends) p
  · rw [same, cutOff_bind_left fun _ _ => not_cutOff_pure _]
    exact Scope.not_cutOff_table ample ends t p

/-- Where less knowledge is enough, it gives the same. -/
theorem Read.eq_of_refreshes (coherent : scope.Coherent) (owned : scope.Owned catalog)
    (named : catalog.Named) (read : Read) (R : Retention) (room : Option Nat) {q p : Progress}
    (refreshes : Refreshes scope catalog q p) :
    (runFrom (read.step catalog (scope.resolveBy R scope.depth room)) q).1 = .error .tooDeep ∨
      (runFrom (read.step catalog (scope.resolve room)) p).1 =
        (runFrom (read.step catalog (scope.resolveBy R scope.depth room)) q).1 :=
  (read.refreshing coherent owned named R room q p refreshes).tooDeep_or_eq (fun _ => id) fun _ => id

end

/-! ## Contexts -/

namespace Store

variable {σ : Store} {ctx : ContextId} {p : Progress}

/-- A context that is read from, with what it may come to know. -/
structure Reading (σ : Store) (ctx : ContextId) (scope : Scope) (catalog : Catalog)
    (room : Option Nat) : Prop where
  inside : ctx.index < σ.contexts.size
  traced : (σ.context ctx).trace.index < σ.traces.size
  catalog_eq : (σ.context ctx).catalog = some catalog
  scope_eq : σ.scope (σ.context ctx).registry = scope
  room_eq : σ.room = room
  refreshes : Refreshes scope catalog .start (σ.progress ctx)

variable {scope : Scope} {catalog : Catalog} {room : Option Nat}

theorem Reading.withProgress (reading : σ.Reading ctx scope catalog room)
    (refreshes : Refreshes scope catalog .start p) :
    (σ.withProgress ctx p).Reading ctx scope catalog room := by
  have context := context_withProgress reading.inside p
  refine ⟨?_, ?_, ?_, ?_, reading.room_eq, ?_⟩
  · exact Nat.lt_of_lt_of_eq reading.inside Array.size_setIfInBounds.symm
  · rw [context]
    exact Nat.lt_of_lt_of_eq reading.traced Array.size_setIfInBounds.symm
  · rw [context]
    exact reading.catalog_eq
  · rw [context]
    exact reading.scope_eq
  · unfold progress
    rw [context]
    exact (congrArg (Refreshes scope catalog .start)
      (congrArg (Progress.mk p.memo) (trace_withProgress reading.traced p))).mpr refreshes

end Store

namespace ContextId

variable {σ : Store} {ctx : ContextId} {catalog : Catalog}

/-- An evaluation in a context, and what is told of its value. -/
theorem runFrom_tell {α : Type} (ctx : ContextId) (step : Resolver → Evaluation α) (σ : Store)
    (tell : α → Answer) :
    runFrom (do return Reply.answer (tell (← ctx.evaluate step))) σ =
      ((runFrom (do return tell (← step (σ.resolver ctx))) (σ.progress ctx)).1.map .answer,
        σ.withProgress ctx (runFrom (do return tell (← step (σ.resolver ctx))) (σ.progress ctx)).2) := by
  rw [runFrom_bind, runFrom_bind, ctx.runFrom_evaluate]
  rcases runFrom (step (σ.resolver ctx)) (σ.progress ctx) with ⟨result, p⟩
  cases result <;> rfl

/-- An operation that reads runs the evaluation behind the read. -/
theorem runFrom_read (found : (σ.context ctx).catalog = some catalog) (read : Read) :
    runFrom (Session.onContext ctx read.operation) σ =
      ((runFrom (read.step catalog (σ.resolver ctx)) (σ.progress ctx)).1.map .answer,
        σ.withProgress ctx (runFrom (read.step catalog (σ.resolver ctx)) (σ.progress ctx)).2) := by
  cases read with
  | value c => exact ctx.runFrom_tell (fun resolve => resolve c) σ .text
  | evaluate c =>
      exact ctx.runFrom_tell (fun resolve => c.evaluate resolve) σ fun (holds, actual) =>
        .judged holds actual
  | check r => exact ctx.runFrom_tell (fun resolve => r.check resolve) σ .truth
  | decideTable t => exact ctx.runFrom_tell (fun resolve => t.decide resolve) σ .outcome
  | outcome table =>
      rw [Read.operation, Session.onContext, ContextId.outcome, bind_assoc, runFrom_bind,
        runFrom_table found, Read.step]
      cases catalog.table table with
      | ok t => exact ctx.runFrom_tell t.decideOnce σ .outcome
      | error error => exact congrArg (Prod.mk _) (σ.withProgress_progress ctx).symm
  | select table =>
      rw [Read.operation, Session.onContext, runFrom_bind, runFrom_table found, Read.step]
      cases catalog.table table with
      | ok t => exact ctx.runFrom_tell (fun resolve => t.select resolve) σ fun r => .text r.name
      | error error => exact congrArg (Prod.mk _) (σ.withProgress_progress ctx).symm

/-- The store after some reads. -/
def afterReads (ctx : ContextId) : List Read → Store → Store
  | [], σ => σ
  | read :: rest, σ => ctx.afterReads rest (runFrom (Session.onContext ctx read.operation) σ).2

end ContextId

namespace Store.Reading

variable {σ : Store} {ctx : ContextId} {scope : Scope} {catalog : Catalog} {room : Option Nat}

/-- A read gives what its evaluation gives in the scope of the context. -/
theorem result_eq (reading : σ.Reading ctx scope catalog room) (read : Read) :
    (runFrom (Session.onContext ctx read.operation) σ).1 =
      (runFrom (read.step catalog (scope.resolve room)) (σ.progress ctx)).1.map .answer := by
  rw [ContextId.runFrom_read reading.catalog_eq, resolver, reading.scope_eq, reading.room_eq]

theorem read (coherent : scope.Coherent) (owned : scope.Owned catalog) (named : catalog.Named)
    (reading : σ.Reading ctx scope catalog room) (read : Read) :
    (runFrom (Session.onContext ctx read.operation) σ).2.Reading ctx scope catalog room := by
  have records := read.settling coherent owned (fun _ _ => named.own) room reading.refreshes.settling
  rw [ContextId.runFrom_read reading.catalog_eq, resolver, reading.scope_eq, reading.room_eq]
  refine reading.withProgress ⟨?_, ?_, records.settling⟩
  · exact reading.refreshes.known.trans records.le
  · exact reading.refreshes.computing.trans records.computing.symm

theorem afterReads (coherent : scope.Coherent) (owned : scope.Owned catalog) (named : catalog.Named)
    (reading : σ.Reading ctx scope catalog room) (before : List Read) :
    (ctx.afterReads before σ).Reading ctx scope catalog room := by
  induction before generalizing σ with
  | nil => exact reading
  | cons read rest ih => exact ih (reading.read coherent owned named read)

end Store.Reading

theorem refreshes_start (scope : Scope) (catalog : Catalog) :
    Refreshes scope catalog .start .start :=
  ⟨.refl _, rfl, .known, fun _ impossible => absurd impossible List.not_mem_nil⟩

/-- A context that was just opened can be read from. -/
theorem Store.Opened.reading {S : Source → Prop} {σ : Store} {ctx : ContextId} {catalog : Catalog}
    (opened : σ.Opened S ctx catalog) {room : Option Nat} (limited : σ.room = room) :
    σ.Reading ctx (σ.scope (σ.context ctx).registry) catalog room := by
  refine ⟨opened.inside, opened.traced, opened.catalog, rfl, limited, ?_⟩
  rw [opened.progress]
  exact refreshes_start _ catalog

theorem Store.All.owned {σ : Store} {catalog : Catalog} {r : Registry}
    (all : σ.All catalog.Owns r) : (σ.scope r).Owned catalog := by
  intro entry member
  obtain ⟨registered, inside, rfl⟩ := List.mem_map.mp member
  exact all registered inside

theorem eq_tooDeep_of_map {α β : Type} {f : α → β} {result : Except Fault α}
    (deep : result.map f = .error .tooDeep) : result = .error .tooDeep := by
  cases result with
  | ok a => cases deep
  | error e =>
      cases deep
      rfl

/-! ## Contexts over their own tables -/

namespace Catalog

variable {tables : List Table}

/-- A table of a catalog is there under its own name. -/
theorem name_of_mem_entries {entry : String × Table} (member : entry ∈ (ofList tables).entries) :
    entry.2.name = entry.1 := by
  refine Assoc.forall_mem_insertAll (P := fun entry => entry.2.name = entry.1)
    (fun _ impossible => absurd impossible List.not_mem_nil) (fun entry member => ?_) entry member
  obtain ⟨t, _, rfl⟩ := List.mem_map.mp member
  rfl

theorem named_ofList (tables : List Table) : (ofList tables).Named := by
  intro name t found
  unfold table at found
  split at found
  · rename_i u known
    cases found
    exact name_of_mem_entries (Assoc.mem_of_find? known)
  · cases found

theorem table_of_mem {t : Table} (member : t ∈ (ofList tables).tables) :
    (ofList tables).table t.name = .ok t := by
  obtain ⟨⟨name, u⟩, inside, rfl⟩ := List.mem_map.mp member
  have found : (ofList tables).entries.find? name = some u :=
    (Assoc.distinct_ofList _).find?_of_mem inside
  have found' : (ofList tables).table name = .ok u := by
    rw [table, found]
  rw [named_ofList tables name u found', found']

end Catalog

/-- Each read of a context gives what it would give as the very first, and what an evaluation
without any memory gives, whatever was read before and however it ended, unless these run too deep.
With ample room they do not where every chain of named conditions ends. -/
theorem ContextId.reads_are_transparent (σ : Store) {state : StateId} (tables : List Table)
    {request : Source} (requested : ∀ t, request.content ≠ .table t)
    (stored : σ.All (fun s => ∀ t, s.content ≠ .table t) (σ.state state))
    (backend : Option Backend) :
    ∃ ctx opened, runFrom (ContextId.open state (some (.ofList tables)) request backend) σ =
        (.ok ctx, opened) ∧
      ∀ (before : List Read) (read : Read),
        let scope := opened.scope (opened.context ctx).registry
        let first := (runFrom (Session.onContext ctx read.operation) opened).1
        let later := (runFrom (Session.onContext ctx read.operation) (ctx.afterReads before opened)).1
        let anew := (runFrom (read.step (.ofList tables)
          (scope.resolveBy .nothing scope.depth σ.room)) .start).1.map Reply.answer
        (first = .error .tooDeep ∨ later = first) ∧ (anew = .error .tooDeep ∨ later = anew) ∧
          (Scope.Ample scope.depth σ.room → (∀ c, ¬ scope.Endless c) →
            later = first ∧ later = anew) := by
  have constant : (Catalog.ofList tables).Owns .constant := fun _ impossible => by cases impossible
  have sources : ∀ t ∈ (Catalog.ofList tables).tables, (Catalog.ofList tables).Owns (.ofTable t) := by
    intro t member u same
    cases same
    exact Catalog.table_of_mem member
  obtain ⟨ctx, opened, ran, room, open'⟩ := exists_open constant sources
    (fun t same => (requested t same).elim)
    (fun entry member t same => (stored entry member t same).elim) backend
  refine ⟨ctx, opened, ran, fun before read => ?_⟩
  intro scope first later anew
  have coherent : scope.Coherent := opened.coherent_scope _
  have named := Catalog.named_ofList tables
  have owned : scope.Owned (.ofList tables) := open'.all.owned
  have reading : opened.Reading ctx scope (.ofList tables) σ.room := open'.reading room
  have reading' := reading.afterReads coherent owned named before
  have first_eq : first = (runFrom (read.step (.ofList tables)
      (scope.resolveBy .all scope.depth σ.room)) .start).1.map .answer := by
    rw [scope.resolveBy_all, ← open'.progress]
    exact reading.result_eq read
  have later_eq : later = (runFrom (read.step (.ofList tables) (scope.resolve σ.room))
      ((ctx.afterReads before opened).progress ctx)).1.map .answer := reading'.result_eq read
  have same : ∀ R, (runFrom (read.step (.ofList tables)
        (scope.resolveBy R scope.depth σ.room)) .start).1.map Reply.answer = .error .tooDeep ∨
      later = (runFrom (read.step (.ofList tables)
        (scope.resolveBy R scope.depth σ.room)) .start).1.map Reply.answer := by
    intro R
    rcases read.eq_of_refreshes coherent owned named R σ.room reading'.refreshes with deep | same
    · rw [deep]
      exact .inl rfl
    · rw [later_eq, same]
      exact .inr rfl
  have settles : Scope.Ample scope.depth σ.room → (∀ c, ¬ scope.Endless c) → ∀ R,
      (runFrom (read.step (.ofList tables) (scope.resolveBy R scope.depth σ.room)) .start).1.map
        Reply.answer ≠ .error .tooDeep :=
    fun ample ends R deep => read.not_cutOff R ample ends .start (eq_tooDeep_of_map deep)
  rw [first_eq]
  refine ⟨same .all, same .nothing, fun ample ends => ⟨?_, ?_⟩⟩
  · exact (same .all).resolve_left (settles ample ends .all)
  · exact (same .nothing).resolve_left (settles ample ends .nothing)

namespace ContextId

/-- Tables each of which reads the one before it. -/
def chained : Nat → List Table
  | 0 => [.make "0" [⟨"1", [⟨.row .condition, "1", "~"⟩, ⟨.row .outcome, "outcome", "yes"⟩]⟩] none]
  | n + 1 =>
    .make (toString (n + 1)) [⟨"1", [⟨.row .condition, toString n ++ "::outcome", "~"⟩,
      ⟨.row .outcome, "outcome", "yes"⟩]⟩] none :: chained n

/-- The store with a context over many such tables, in the room that there is for nesting. -/
def overChained : Store :=
  (runFrom (ContextId.open ⟨0⟩ (some (.ofList (chained 85))) (.requestOf []) none)
    { Store.bounded with states := #[[]] }).2

/-- The fault that something ended with. -/
def fault? {α : Type} : Except Fault α → Option Fault
  | .ok _ => none
  | .error f => some f

theorem exists_of_fault? {α : Type} {result : Except Fault α} (none : fault? result = none) :
    ∃ a, result = .ok a := by
  cases result with
  | ok a => exact ⟨a, rfl⟩
  | error f => cases none

/-- A long chain of tables runs too deep at once, but not after half of it was read. -/
theorem later_read_differs :
    (runFrom (Session.onContext ⟨0⟩ (Read.value ⟨"85", "outcome"⟩).operation)
        (ContextId.afterReads ⟨0⟩ [.value ⟨"42", "outcome"⟩] overChained)).1 ≠
      (runFrom (Session.onContext ⟨0⟩ (Read.value ⟨"85", "outcome"⟩).operation) overChained).1 := by
  have differ :
      (fault? (runFrom (Session.onContext ⟨0⟩ (Read.value ⟨"85", "outcome"⟩).operation)
          (ContextId.afterReads ⟨0⟩ [.value ⟨"42", "outcome"⟩] overChained)).1,
        fault? (runFrom (Session.onContext ⟨0⟩
          (Read.value ⟨"85", "outcome"⟩).operation) overChained).1) = (none, some .tooDeep) := by
    decide +kernel
  intro same
  rw [same, Prod.mk.injEq] at differ
  cases differ.1.symm.trans differ.2

/-- A stored state of values and of a named condition that is about one of them. -/
def counted : Store :=
  { Store.empty with
    sources := #[.stored (.text "counter") [(.text "n", .scalar (.int 1))] [],
      .ofConditions [("started", .parse "counter::n" ">0")]]
    states := #[[(.text "counter", ⟨0⟩), (.text "conditions", ⟨1⟩)]] }

/-- Two tables that read each other, the first only where a named condition holds. -/
def circling : List Table :=
  [.make "left" [⟨"1", [⟨.row .condition, "conditions::started", "true"⟩,
      ⟨.row .condition, "right::outcome", "~"⟩]⟩] none,
    .make "right" [⟨"1", [⟨.row .condition, "left::outcome", "~"⟩]⟩] none]

/-- The store with a context over these tables and that state. -/
def overCounted : Store :=
  (runFrom (ContextId.open ⟨0⟩ (some (.ofList circling)) (.requestOf []) none) counted).2

theorem left_after_right :
    fault? (runFrom (Session.onContext ⟨0⟩ (Read.value ⟨"left", "outcome"⟩).operation)
        (afterReads ⟨0⟩ [.outcome "right", .value ⟨"conditions", "started"⟩] overCounted)).1 =
      some (.engine (.cyclicTable "left")) := by
  have requested : ∀ t, (Source.requestOf []).content ≠ .table t :=
    fun _ impossible => by cases impossible
  have stored : counted.All (fun s => ∀ t, s.content ≠ .table t) (counted.state ⟨0⟩) := by
    intro entry member
    rcases List.mem_cons.mp member with rfl | later
    · exact fun _ impossible => by cases impossible
    · obtain rfl := List.mem_singleton.mp later
      exact fun _ impossible => by cases impossible
  have opens : (runFrom (ContextId.open ⟨0⟩ (some (.ofList circling)) (.requestOf []) none)
      counted).1 = .ok ⟨0⟩ := by cbv
  have first : fault? (runFrom (Session.onContext ⟨0⟩
      (Read.value ⟨"left", "outcome"⟩).operation) overCounted).1 =
        some (.engine (.cyclicTable "left")) := by decide +kernel
  obtain ⟨ctx, opened, ran, transparent⟩ :=
    reads_are_transparent counted circling requested stored none
  obtain rfl : ContextId.mk 0 = ctx := Except.ok.inj (opens.symm.trans (congrArg Prod.fst ran))
  obtain rfl : overCounted = opened := congrArg Prod.snd ran
  rcases (transparent [.outcome "right", .value ⟨"conditions", "started"⟩]
      (.value ⟨"left", "outcome"⟩)).1 with deep | same
  · rw [deep] at first
    cases first
  · rw [same, first]

end ContextId

end DecisionTables
