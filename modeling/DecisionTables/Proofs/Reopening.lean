import DecisionTables.Proofs.Abreast

/-!
# Opening a context once more

A context can be opened on what another one works on, with as much of its memory as is
wanted.  Beside a reset copy such a context is in the position of the copy, also when
assignments were carried out on the copy before.
-/

namespace DecisionTables

/-- Open a context beside another one, on its state, its request, its tables and its commands.  As
every context it registers constants and tables of its own, the request and the sources of the state,
and after these what the other one has registered besides.  Of its memory it keeps a part. -/
def ContextId.reopen (keep : Memo → Memo) (ctx : ContextId) : Engine ContextId := do
  let σ ← get
  let c := σ.context ctx
  let constants ← addAllRegistered [] [.constant]
  let own ← addAllRegistered (constants.insert (σ.source c.request).name c.request)
    (tableSources c.catalog)
  let registry := own.insertAll (σ.state c.state)
  let others := c.registry.drop registry.length
  Engine.addContext { c with registry := registry ++ others, memo := keep c.memo }

namespace Store

/-! ## Contexts that can be opened once more -/

/-- A context at rest whose registry is that of a context that was just opened, and what was
registered after that. -/
structure Reopenable (σ : Store) (ctx : ContextId) : Prop where
  inside : ctx.index < σ.contexts.size
  idle : (σ.context ctx).memo.computing = []
  request : (σ.context ctx).request.index < σ.sources.size
  stored : ∀ id ∈ (σ.state (σ.context ctx).state).values, id.index < σ.sources.size
  registry : ∃ own more : Registry,
    (σ.context ctx).registry = own.insertAll (σ.state (σ.context ctx).state) ++ more ∧
    σ.Registers (σ.context ctx).request own
      (.ofContext (σ.source (σ.context ctx).request).name (σ.context ctx).catalog) ∧
    ∀ id ∈ more.values, id.index < σ.sources.size

namespace Reopenable

variable {σ σ' : Store} {ctx : ContextId}

theorem withProgress (reopenable : σ.Reopenable ctx) {p : Progress}
    (same : Scope.SameComputing (σ.progress ctx) p) : (σ.withProgress ctx p).Reopenable ctx := by
  have context := context_withProgress reopenable.inside p
  refine ⟨Nat.lt_of_lt_of_eq reopenable.inside Array.size_setIfInBounds.symm, ?_, ?_, ?_, ?_⟩
  · rw [context]
    exact Eq.trans same reopenable.idle
  · rw [context]
    exact reopenable.request
  · rw [context]
    exact reopenable.stored
  · rw [context]
    exact reopenable.registry

theorem setSource (reopenable : σ.Reopenable ctx) {id : SourceId} {fragment : String} {value : Value}
    {s : Source} (written : (σ.source id).write fragment value = .ok s) :
    (σ.setSource id s).Reopenable ctx := by
  have size : (σ.setSource id s).sources.size = σ.sources.size := Array.size_setIfInBounds
  obtain ⟨own, more, registry, registers, known⟩ := reopenable.registry
  have name : ((σ.setSource id s).source (σ.context ctx).request).name =
      (σ.source (σ.context ctx).request).name := by
    by_cases same : (σ.context ctx).request = id
    · rw [same, source_setSource_self (same ▸ reopenable.request)]
      exact (Source.alike_of_write written).name_eq.symm
    · rw [source_setSource_of_ne same]
  refine ⟨reopenable.inside, reopenable.idle, ?_, ?_, own, more, registry, ?_, ?_⟩
  · rw [size]
    exact reopenable.request
  · rw [size]
    exact reopenable.stored
  · change (σ.setSource id s).Registers (σ.context ctx).request own
      (.ofContext ((σ.setSource id s).source (σ.context ctx).request).name (σ.context ctx).catalog)
    rw [name]
    refine registers.keep fun i t fixed found => ?_
    have apart : id.index ≠ i := by
      rintro rfl
      rw [source_of_getElem? found] at written
      exact Source.not_fixed_of_write written fixed
    exact (Array.getElem?_setIfInBounds_ne apart).trans found
  · rw [size]
    exact known

theorem keep (reopenable : σ.Reopenable ctx) (added : σ.Added σ') : σ'.Reopenable ctx := by
  have context := added.context_eq ctx
  have size := added.sources.size_le
  have held := Array.getElem?_eq_getElem reopenable.request
  obtain ⟨own, more, registry, registers, known⟩ := reopenable.registry
  refine ⟨?_, ?_, ?_, ?_, own, more, ?_, ?_, ?_⟩
  · rw [added.contexts]
    exact reopenable.inside
  · rw [context]
    exact reopenable.idle
  · rw [context]
    exact Nat.lt_of_lt_of_le reopenable.request size
  · rw [context, added.state_eq]
    exact fun id member => Nat.lt_of_lt_of_le (reopenable.stored id member) size
  · rw [context, added.state_eq]
    exact registry
  · rw [context, source_of_getElem? (added.found held), ← source_of_getElem? held]
    exact registers.keep fun _ _ _ => added.found
  · exact fun id member => Nat.lt_of_lt_of_le (known id member) size

/-- More may be registered after what is there. -/
theorem append (reopenable : σ.Reopenable ctx) {added : Registry}
    (known : ∀ id ∈ added.values, id.index < σ.sources.size) :
    (σ.setContext ctx
      { σ.context ctx with registry := (σ.context ctx).registry ++ added }).Reopenable ctx := by
  have context := context_setContext reopenable.inside
    { σ.context ctx with registry := (σ.context ctx).registry ++ added }
  obtain ⟨own, more, registry, registers, known'⟩ := reopenable.registry
  refine ⟨Nat.lt_of_lt_of_eq reopenable.inside Array.size_setIfInBounds.symm, ?_, ?_, ?_,
    own, more ++ added, ?_, ?_, ?_⟩
  · rw [context]
    exact reopenable.idle
  · rw [context]
    exact reopenable.request
  · rw [context]
    exact reopenable.stored
  · rw [context]
    exact (congrArg (· ++ added) registry).trans (List.append_assoc _ _ _)
  · rw [context]
    exact registers
  · intro id member
    have shape : (more ++ added).values = more.values ++ added.values := List.map_append
    rw [shape] at member
    exact (List.mem_append.mp member).elim (known' id) (known id)

theorem assign (reopenable : σ.Reopenable ctx) {a : Assignment} {u : Unit}
    (ran : runFrom (ctx.assign a) σ = (.ok u, σ')) : σ'.Reopenable ctx := by
  obtain ⟨text, σ₁, read, written⟩ := runFrom_bind_value ran
  obtain ⟨p, resolved, rfl⟩ := ContextId.value_of_evaluate read
  have computing := Scope.computing_resolve (σ.scope (σ.context ctx).registry) σ.room a.source
    (σ.progress ctx)
  change Scope.SameComputing _ (runFrom (σ.resolver ctx a.source) (σ.progress ctx)).2 at computing
  rw [resolved] at computing
  have reopenable₁ := reopenable.withProgress computing
  rcases ctx.write_cases a.target (.text text) (σ.withProgress ctx p) with
    ⟨f, failed⟩ | ⟨id, s, _, stored, wrote⟩
  · cases failed.symm.trans written
  · cases wrote.symm.trans written
    exact reopenable₁.setSource stored

theorem assignAll (reopenable : σ.Reopenable ctx) {assignments : List Assignment} {u : Unit}
    (ran : runFrom (ctx.assignAll assignments) σ = (.ok u, σ')) : σ'.Reopenable ctx := by
  induction assignments generalizing σ with
  | nil =>
      cases ran
      exact reopenable
  | cons a rest ih =>
      obtain ⟨_, σ₁, assigned, later⟩ := runFrom_bind_value ran
      exact ih (reopenable.assign assigned) later

end Reopenable

end Store

/-! ## Reset copies -/

namespace ContextId

variable {σ σ' : Store} {ctx : ContextId}

/-- The sources of a state that is made are in the store. -/
theorem known_create {entries : List (Scalar × Source)} {state : StateId}
    (ran : runFrom (StateId.create entries) σ = (.ok state, σ')) :
    ∀ id ∈ (σ'.state state).values, id.index < σ'.sources.size := by
  obtain ⟨r, σ₁, added, _, related⟩ := runFrom_addSources (Assoc.ofList entries) σ
  rw [StateId.create, runFrom_bind_ok added] at ran
  cases ran
  rw [Store.state_pushed]
  intro id member
  obtain ⟨entry, inside, rfl⟩ := List.mem_map.mp member
  obtain ⟨e, _, _, found⟩ := exists_of_forall₂_mem related inside
  exact (Array.getElem?_eq_some_iff.mp found).1

/-- What a registry lacks comes after what it has. -/
theorem runFrom_addMissing (r : Registry) (entries : List (Scalar × Source)) (σ : Store) :
    ∃ more σ', runFrom (addMissing r entries) σ = (.ok (r ++ more), σ') ∧ σ.Added σ' ∧
      ∀ id ∈ Assoc.values more, id.index < σ'.sources.size := by
  induction entries generalizing r σ with
  | nil =>
      refine ⟨[], σ, ?_, .refl σ, fun _ impossible => absurd impossible List.not_mem_nil⟩
      rw [List.append_nil]
      rfl
  | cons entry rest ih =>
      obtain ⟨name, source⟩ := entry
      rw [addMissing]
      cases contained : r.contains name with
      | true => exact ih r σ
      | false =>
          let σ₁ : Store := { σ with sources := σ.sources.push source.reset }
          have missing : r.find? name = none :=
            Option.not_isSome_iff_eq_none.mp (Bool.eq_false_iff.mp contained)
          have added : runFrom (addRegistered r name source.reset) σ =
              (.ok (r ++ [(name, ⟨σ.sources.size⟩)]), σ₁) := by
            rw [← Assoc.insert_of_missing missing]
            rfl
          obtain ⟨more, σ', ran, later, known⟩ := ih (r ++ [(name, ⟨σ.sources.size⟩)]) σ₁
          refine ⟨(name, ⟨σ.sources.size⟩) :: more, σ', ?_, (Store.Added.push σ _).trans later, ?_⟩
          · simp only [Bool.false_eq_true, if_false]
            rw [runFrom_bind_ok added, ran, List.append_assoc]
            rfl
          · intro id member
            rcases List.mem_cons.mp member with rfl | member
            · exact Nat.lt_of_lt_of_le (Nat.lt_of_lt_of_eq (Nat.lt_succ_self _) (Array.size_push _).symm)
                later.sources.size_le
            · exact known id member

/-- A context that was just opened can be opened once more, and it remembers nothing. -/
theorem reopenable_openTraced {state : StateId} {catalog : Option Catalog} {request : Source}
    {backend : Option Backend} {trace : TraceId}
    (stored : ∀ id ∈ (σ.state state).values, id.index < σ.sources.size)
    (ran : runFrom (openTraced state catalog request backend trace) σ = (.ok ctx, σ')) :
    σ'.Reopenable ctx ∧ (σ'.context ctx).memo = .empty := by
  obtain ⟨σ₁, own, requestId, added, registers, held, _, ran'⟩ :=
    runFrom_openTraced σ state catalog request backend trace
  cases ran.symm.trans ran'
  rw [Store.context_pushed]
  refine ⟨⟨?_, ?_, ?_, ?_, own, [], ?_, ?_, ?_⟩, rfl⟩
  · rw [Array.size_push]
    exact Nat.lt_succ_self _
  · rw [Store.context_pushed]
    rfl
  · rw [Store.context_pushed]
    exact (Array.getElem?_eq_some_iff.mp held).1
  · rw [Store.context_pushed]
    change ∀ id ∈ (σ₁.state state).values, id.index < σ₁.sources.size
    rw [added.added.state_eq]
    exact fun id member => Nat.lt_of_lt_of_le (stored id member) added.added.sources.size_le
  · rw [Store.context_pushed, List.append_nil]
    rfl
  · rw [Store.context_pushed]
    change σ₁.Registers requestId own (.ofContext (σ₁.source requestId).name catalog)
    rw [Store.source_of_getElem? held]
    exact registers
  · exact fun _ impossible => absurd impossible List.not_mem_nil

/-- A reset copy can be opened once more, and it remembers nothing. -/
theorem reopenable_copyReset {copy : ContextId} (ran : runFrom ctx.copyReset σ = (.ok copy, σ')) :
    σ'.Reopenable copy ∧ (σ'.context copy).memo = .empty := by
  obtain ⟨state, σ₁, σ₂, registry, σ₃, copied, opened, completed, rfl⟩ := runFrom_copyReset_ok.mp ran
  obtain ⟨_, _, mapped, created⟩ := runFrom_bind_value copied
  cases mapped
  obtain ⟨reopenable, memo⟩ := reopenable_openTraced (known_create created) opened
  obtain ⟨more, _, completed', added, known⟩ := runFrom_addMissing (σ₂.context copy).registry _ σ₂
  cases completed.symm.trans completed'
  have kept := reopenable.keep added
  have complete := kept.append known
  have context := added.context_eq copy
  change (σ₃.setContext copy
      { σ₃.context copy with registry := (σ₂.context copy).registry ++ more }).Reopenable copy ∧
    ((σ₃.setContext copy
      { σ₃.context copy with registry := (σ₂.context copy).registry ++ more }).context copy).memo = _
  rw [Store.context_setContext kept.inside]
  rw [context] at complete ⊢
  exact ⟨complete, memo⟩

/-! ## Opening once more -/

/-- What two contexts bring along by the same names is interchangeable. -/
theorem interchangeable_of_registers {τ : Store} {request : SourceId} {own own' : Registry}
    {brought : Brought} (inside : request.index < σ.sources.size)
    (left : σ.Registers request own brought) (right : τ.Registers request own' brought) :
    List.Forall₂ (fun e f => e.1 = f.1 ∧ σ.Interchangeable τ e.2 f.2) own own' := by
  refine forall₂_trans ?_ left right.flip
  rintro e ⟨name, what⟩ f ⟨named, brings⟩ ⟨named', brings'⟩
  refine ⟨named.trans named'.symm, ?_⟩
  cases what with
  | none =>
      have same : e.2 = f.2 := Eq.trans brings (Eq.symm brings')
      exact .inl ⟨same, brings ▸ inside⟩
  | some s => exact .inr ⟨s, brings.1, brings.2, brings'.2⟩

/-- A context that is opened beside another one registers what every context registers, and then what
the other one has registered besides. -/
theorem runFrom_reopen (keep : Memo → Memo) (ctx : ContextId) (σ : Store) :
    let c := σ.context ctx
    ∃ σ₁ own, σ.Added σ₁ ∧
      σ₁.Registers c.request own (.ofContext (σ.source c.request).name c.catalog) ∧
      runFrom (ctx.reopen keep) σ = (.ok ⟨σ₁.contexts.size⟩,
        { σ₁ with
          contexts := σ₁.contexts.push
            { c with
              registry := own.insertAll (σ.state c.state) ++
                c.registry.drop (own.insertAll (σ.state c.state)).length
              memo := keep c.memo } }) := by
  intro c
  let σ₁ : Store := { σ with sources := σ.sources.push .constant }
  have ran₁ : runFrom (addAllRegistered [] [.constant]) σ =
    (.ok [(Source.constant.name, ⟨σ.sources.size⟩)], σ₁) := rfl
  obtain ⟨own, σ₂, ran₂, added, registers⟩ := registers_tables (σ := σ₁) c.request
    ⟨σ.sources.size⟩ (σ.source c.request).name c.catalog Array.getElem?_push_size
  refine ⟨σ₂, own, (Store.Added.push σ .constant).trans added, registers, ?_⟩
  rw [reopen, runFrom_bind, runFrom_get]
  simp only []
  rw [runFrom_bind_ok ran₁, runFrom_bind_ok ran₂]
  rfl

/-- A context that is opened beside another one is in the position of the other one with this
memory. -/
theorem exists_reopen (reopenable : σ.Reopenable ctx) (keep : Memo → Memo)
    (computing : (keep (σ.context ctx).memo).computing = (σ.context ctx).memo.computing) :
    ∃ worker τ, runFrom (ctx.reopen keep) σ = (.ok worker, τ) ∧
      (σ.setContext ctx { σ.context ctx with memo := keep (σ.context ctx).memo }).Beside τ ctx worker := by
  obtain ⟨own, more, registry, registers, known⟩ := reopenable.registry
  obtain ⟨σ₁, own', added, registers', ran⟩ := runFrom_reopen keep ctx σ
  have context := Store.context_setContext reopenable.inside
    { σ.context ctx with memo := keep (σ.context ctx).memo }
  have size : σ₁.contexts.size = σ.contexts.size := congrArg Array.size added.contexts
  -- both registries begin with interchangeable sources, so what comes after them is the same
  have begins : List.Forall₂ (fun e f => e.1 = f.1 ∧ σ.Interchangeable σ₁ e.2 f.2)
      (own.insertAll (σ.state (σ.context ctx).state)) (own'.insertAll (σ.state (σ.context ctx).state)) := by
    refine Assoc.insertAll_rel (R := σ.Interchangeable σ₁)
      (interchangeable_of_registers reopenable.request registers registers') ?_
    exact List.forall₂_same.mpr fun e member =>
      ⟨rfl, .inl ⟨rfl, reopenable.stored e.2 (List.mem_map_of_mem member)⟩⟩
  have others : (own.insertAll (σ.state (σ.context ctx).state) ++ more).drop
      (own'.insertAll (σ.state (σ.context ctx).state)).length = more := List.drop_left' begins.length_eq
  refine ⟨_, _, ran, added.room, added.traces, fun _ _ => added.found, ?_, ?_, ?_, ?_, ?_, ?_, ?_,
    σ.context ctx, ?_, ?_⟩
  · exact Nat.lt_of_lt_of_eq reopenable.inside Array.size_setIfInBounds.symm
  · exact Nat.lt_of_lt_of_eq (Nat.lt_succ_self _) (Array.size_push _).symm
  · rintro rfl
    exact Nat.lt_irrefl _ (Nat.lt_of_lt_of_eq reopenable.inside size.symm)
  · rw [context, Store.context_pushed]
  · rw [context, Store.context_pushed]
  · rw [context, Store.context_pushed]
  · rw [context, Store.context_pushed]
    simp only [registry, others]
    refine List.rel_append begins (List.forall₂_same.mpr fun e member => ⟨rfl, .inl ⟨rfl, ?_⟩⟩)
    exact known e.2 (List.mem_map_of_mem member)
  · have apart := Nat.ne_of_lt (Nat.lt_of_lt_of_eq reopenable.inside size.symm)
    rw [Array.getElem?_push, if_neg apart, added.contexts]
    exact Store.getElem?_contexts reopenable.inside
  · rw [context]
    exact (Context.reloaded_withMemo computing).symm

end ContextId

end DecisionTables
