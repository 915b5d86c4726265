import DecisionTables.Proofs.Running

/-!
# Opened contexts

A context that was just opened has computed and reported nothing.  Its registry holds
the constants, the request, the tables, and the sources of the stored state, so what
is true of each of these is true of everything registered.
-/

namespace DecisionTables

/-- Nothing computed and nothing reported. -/
def Progress.start : Progress := ⟨.empty, #[]⟩

/-! ## Registries of one kind -/

/-- All sources of a registry are of some kind. -/
def Store.All (S : Source → Prop) (σ : Store) (r : Registry) : Prop :=
  ∀ entry ∈ r, S (σ.source entry.2)

/-- Sources of some kind were added, and nothing else has changed. -/
structure Store.Grown (S : Source → Prop) (σ σ' : Store) : Prop where
  room : σ'.room = σ.room
  states : σ'.states = σ.states
  contexts : σ'.contexts = σ.contexts
  traces : σ'.traces = σ.traces
  source : ∀ id, S (σ.source id) → S (σ'.source id)

namespace Store

variable {S : Source → Prop} {σ σ' : Store}

theorem Grown.refl (σ : Store) : σ.Grown S σ :=
  ⟨rfl, rfl, rfl, rfl, fun _ kind => kind⟩

theorem Grown.trans {σ'' : Store} (first : σ.Grown S σ') (second : σ'.Grown S σ'') :
    σ.Grown S σ'' where
  room := second.room.trans first.room
  states := second.states.trans first.states
  contexts := second.contexts.trans first.contexts
  traces := second.traces.trans first.traces
  source id kind := second.source id (first.source id kind)

theorem All.grow {r : Registry} (all : σ.All S r) (grown : σ.Grown S σ') : σ'.All S r :=
  fun entry member => grown.source entry.2 (all entry member)

theorem source_push (σ : Store) (s : Source) (id : SourceId) :
    ({ σ with sources := σ.sources.push s }).source id =
      if id.index = σ.sources.size then s else σ.source id := by
  unfold source
  rw [Array.getD_eq_getD_getElem?, Array.getD_eq_getD_getElem?, Array.getElem?_push]
  split
  · rfl
  · rfl

theorem Grown.push {s : Source} (kind : S s) :
    σ.Grown S { σ with sources := σ.sources.push s } := by
  refine ⟨rfl, rfl, rfl, rfl, fun id same => ?_⟩
  rw [source_push]
  split
  · exact kind
  · exact same

theorem All.insert {r : Registry} (all : σ.All S r) (name : Scalar) {id : SourceId}
    (kind : S (σ.source id)) : σ.All S (Assoc.insert r name id) := by
  intro entry member
  rcases Assoc.mem_or_eq_of_mem_insert member with old | ⟨new, _⟩
  · exact all entry old
  · rw [new]
    exact kind

theorem All.insertAll {r more : Registry} (all : σ.All S r) (others : σ.All S more) :
    σ.All S (Assoc.insertAll r more) := by
  induction more generalizing r with
  | nil => exact all
  | cons entry rest ih =>
      refine ih (all.insert entry.1 (others entry List.mem_cons_self)) fun other member => ?_
      exact others other (List.mem_cons_of_mem _ member)

end Store

/-! ## Opening -/

/-- A context as it is right after it was opened. -/
structure Store.Opened (S : Source → Prop) (σ : Store) (ctx : ContextId) (catalog : Catalog) :
    Prop where
  all : σ.All S (σ.context ctx).registry
  catalog : (σ.context ctx).catalog = some catalog
  progress : σ.progress ctx = .start
  inside : ctx.index < σ.contexts.size
  traced : (σ.context ctx).trace.index < σ.traces.size

namespace Store

variable {S : Source → Prop} {σ : Store}

theorem context_pushed (σ : Store) (c : Context) :
    ({ σ with contexts := σ.contexts.push c }).context ⟨σ.contexts.size⟩ = c := by
  unfold Store.context
  rw [Array.getD_eq_getD_getElem?, Array.getElem?_push_size]
  rfl

theorem state_pushed (σ : Store) (r : Registry) :
    ({ σ with states := σ.states.push r }).state ⟨σ.states.size⟩ = r := by
  rw [Store.state, Array.getD_eq_getD_getElem?, Array.getElem?_push_size]
  rfl

theorem Opened.of_pushed {c : Context} {catalog : Catalog} (all : σ.All S c.registry)
    (found : c.catalog = some catalog) (memo : c.memo = .empty) (empty : σ.trace c.trace = #[])
    (traced : c.trace.index < σ.traces.size) :
    ({ σ with contexts := σ.contexts.push c }).Opened S ⟨σ.contexts.size⟩ catalog := by
  constructor
  · rw [context_pushed]
    exact all
  · rw [context_pushed]
    exact found
  · unfold Store.progress
    rw [context_pushed, memo]
    exact congrArg (Progress.mk .empty) empty
  · rw [Array.size_push]
    exact Nat.lt_succ_self _
  · rw [context_pushed]
    exact traced

end Store

namespace ContextId

variable {S : Source → Prop} {σ : Store}

theorem exists_addSource {s : Source} (kind : S s) (σ : Store) :
    ∃ id σ', runFrom (Engine.addSource s) σ = (.ok id, σ') ∧ σ.Grown S σ' ∧ S (σ'.source id) := by
  refine ⟨⟨σ.sources.size⟩, { σ with sources := σ.sources.push s }, rfl, .push kind, ?_⟩
  rw [Store.source_push, if_pos rfl]
  exact kind

theorem exists_addAllRegistered {r : Registry} (all : σ.All S r) (sources : List Source)
    (kinds : ∀ s ∈ sources, S s) :
    ∃ r' σ', runFrom (addAllRegistered r sources) σ = (.ok r', σ') ∧ σ.Grown S σ' ∧
      σ'.All S r' := by
  induction sources generalizing r σ with
  | nil => exact ⟨r, σ, rfl, .refl σ, all⟩
  | cons s rest ih =>
      obtain ⟨id, σ₁, added, grown, kind⟩ := exists_addSource (kinds s List.mem_cons_self) σ
      obtain ⟨r', σ₂, ran, grown', all'⟩ := ih ((all.grow grown).insert s.name kind)
        fun t member => kinds t (List.mem_cons_of_mem _ member)
      refine ⟨r', σ₂, ?_, grown.trans grown', all'⟩
      rw [addAllRegistered, addRegistered, bind_assoc, runFrom_bind_ok added, pure_bind, ran]

section

variable {state : StateId} {catalog : Catalog} {request : Source}

/-- What a context registers when it is opened is of a kind if all that it is opened with is. -/
theorem exists_registry (tables : Option Catalog) (constant : S .constant)
    (own : ∀ s ∈ tableSources tables, S s) (requested : S request)
    (stored : σ.All S (σ.state state)) (backend : Option Backend) (trace : TraceId) :
    ∃ σ₁ requestId registry, σ.Grown S σ₁ ∧ σ₁.All S registry ∧
      runFrom (openTraced state tables request backend trace) σ =
        (.ok ⟨σ₁.contexts.size⟩,
          { σ₁ with
            contexts := σ₁.contexts.push
              ⟨state, tables, backend, requestId, registry, .empty, trace⟩ }) := by
  have constants : ∀ s ∈ [Source.constant], S s := by
    intro s member
    rw [List.mem_singleton.mp member]
    exact constant
  have blank : σ.All S [] := fun _ impossible => absurd impossible List.not_mem_nil
  obtain ⟨constants, σ₁, ran₁, grown₁, all₁⟩ := exists_addAllRegistered blank _ constants
  obtain ⟨requestId, σ₂, ran₂, grown₂, kind₂⟩ := exists_addSource requested σ₁
  obtain ⟨r, σ₃, ran₃, grown₃, all₃⟩ :=
    exists_addAllRegistered ((all₁.grow grown₂).insert request.name kind₂) _ own
  have grown := (grown₁.trans grown₂).trans grown₃
  have states : σ₃.state state = σ.state state := by
    unfold Store.state
    rw [grown.states]
  refine ⟨σ₃, requestId, r.insertAll (σ₃.state state), grown, all₃.insertAll ?_, ?_⟩
  · rw [states]
    exact stored.grow grown
  · rw [openTraced, runFrom_bind_ok ran₁, runFrom_bind_ok ran₂, runFrom_bind_ok ran₃]
    rfl

theorem exists_openTraced (constant : S .constant) (tables : ∀ t ∈ catalog.tables, S (.ofTable t))
    (requested : S request) (stored : σ.All S (σ.state state)) (backend : Option Backend)
    {trace : TraceId} (empty : σ.trace trace = #[]) (traced : trace.index < σ.traces.size) :
    ∃ ctx σ', runFrom (openTraced state (some catalog) request backend trace) σ = (.ok ctx, σ') ∧
      σ'.room = σ.room ∧ σ'.Opened S ctx catalog := by
  have own : ∀ s ∈ tableSources (some catalog), S s := by
    intro s member
    obtain ⟨t, inside, rfl⟩ := List.mem_map.mp member
    exact tables t inside
  obtain ⟨σ₁, requestId, registry, grown, all, ran⟩ :=
    exists_registry (some catalog) constant own requested stored backend trace
  have shown : σ₁.trace trace = #[] := by
    unfold Store.trace
    rw [grown.traces]
    exact empty
  refine ⟨_, _, ran, grown.room, .of_pushed all rfl rfl shown ?_⟩
  rw [grown.traces]
  exact traced

/-- Opening a context succeeds, and everything in it is of a kind if all that it is opened with
is. -/
theorem exists_open (constant : S .constant) (tables : ∀ t ∈ catalog.tables, S (.ofTable t))
    (requested : S request) (stored : σ.All S (σ.state state)) (backend : Option Backend) :
    ∃ ctx σ', runFrom (ContextId.open state (some catalog) request backend) σ = (.ok ctx, σ') ∧
      σ'.room = σ.room ∧ σ'.Opened S ctx catalog := by
  have added : runFrom Engine.addTrace σ =
      (.ok ⟨σ.traces.size⟩, { σ with traces := σ.traces.push #[] }) := rfl
  rw [ContextId.open, runFrom_bind_ok added]
  refine exists_openTraced (σ := { σ with traces := σ.traces.push #[] }) constant tables requested
    stored backend ?_ ?_
  · unfold Store.trace
    rw [Array.getD_eq_getD_getElem?, Array.getElem?_push_size]
    rfl
  · rw [Array.size_push]
    exact Nat.lt_succ_self _

end

end ContextId

end DecisionTables
