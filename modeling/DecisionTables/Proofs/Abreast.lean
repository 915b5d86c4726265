import DecisionTables.Proofs.Carrying
import DecisionTables.Proofs.Ending

/-!
# Contexts side by side

A context can stand in for another one that has registered the same sources.  Constants
and tables it may have of its own, since they never change and nothing is remembered of
them by their identity.  Whatever the first context does, the second does as well, in a
store that may hold more.
-/

namespace DecisionTables

/-! ## Fixed sources -/

namespace Source

theorem Fixed.read_eq {s : Source} (fixed : s.Fixed) (resolve : Resolver) (id id' : SourceId)
    (fragment : String) :
    s.read resolve id fragment = s.read resolve id' fragment := by
  obtain ⟨name, content⟩ := s
  cases content with
  | constant => rfl
  | table t => rfl
  | _ => exact fixed.elim

end Source

namespace Scope

/-- The same sources under the same names, by the same identities unless they are fixed. -/
def Interchangeable : Scope → Scope → Prop :=
  List.Forall₂ fun e f => e.1 = f.1 ∧ e.2.2 = f.2.2 ∧ (e.2.1 = f.2.1 ∨ e.2.2.Fixed)

variable {scope scope' : Scope}

theorem Interchangeable.depth_eq (same : scope.Interchangeable scope') : scope.depth = scope'.depth := by
  have counts : scope.tableCount = scope'.tableCount ∧ scope.conditionCount = scope'.conditionCount := by
    induction same with
    | nil => exact ⟨rfl, rfl⟩
    | cons head _ ih =>
        obtain ⟨tables, conditions⟩ := ih
        simp only [tableCount, conditionCount, head.2.1, tables, conditions, and_self]
  rw [depth, depth, counts.1, counts.2]

theorem Interchangeable.resolveWithin_eq (same : scope.Interchangeable scope') (depth : Nat)
    (room : Option Nat) : scope.resolveWithin depth room = scope'.resolveWithin depth room := by
  induction depth generalizing room with
  | zero => rfl
  | succ depth ih =>
      funext c
      have found : Option.Rel (fun e f => e.2 = f.2 ∧ (e.1 = f.1 ∨ e.2.Fixed))
          (Assoc.find? scope (.text c.source)) (Assoc.find? scope' (.text c.source)) :=
        Assoc.find?_rel same fun _ _ equal => by rw [equal]
      simp only [resolveWithin]
      revert found
      generalize Assoc.find? scope (.text c.source) = first
      generalize Assoc.find? scope' (.text c.source) = second
      intro found
      cases found with
      | none => rfl
      | @some e f related =>
          obtain ⟨id, source⟩ := e
          obtain ⟨id', source'⟩ := f
          obtain ⟨equal, identity⟩ := related
          simp only at equal identity
          subst equal
          have reads : ∀ resolve,
              source.read resolve id c.fragment = source.read resolve id' c.fragment := by
            intro resolve
            rcases identity with rfl | fixed
            · rfl
            · exact fixed.read_eq resolve id id' c.fragment
          cases left : roomBelow source room with
          | none => simp only [left, reads]
          | some room' => simp only [left, ih, reads]

theorem Interchangeable.resolve_eq (same : scope.Interchangeable scope') (room : Option Nat) :
    scope.resolve room = scope'.resolve room := by
  rw [resolve, resolve, same.depth_eq, same.resolveWithin_eq]

theorem computing_resolve (scope : Scope) (room : Option Nat) (c : Coordinate) (p : Progress) :
    SameComputing p (runFrom (scope.resolve room c) p).2 := by
  rw [resolve, ← resolveBy_all]
  exact computing_resolveBy room c p

end Scope

/-! ## Two contexts -/

/-- The context with everything forgotten that it has computed. -/
def Context.reloaded (c : Context) : Context :=
  { c with memo := c.memo.forget }

theorem Context.reloaded_withMemo {c : Context} {m : Memo} (computing : m.computing = c.memo.computing) :
    ({ c with memo := m } : Context).reloaded = c.reloaded :=
  congrArg (fun busy => ({ c with memo := ⟨[], [], busy⟩ } : Context)) computing

namespace Store

/-- Two identities of one source, or of a fixed source that both stores hold. -/
def Interchangeable (σ τ : Store) (i j : SourceId) : Prop :=
  i = j ∧ i.index < σ.sources.size ∨
    ∃ s, s.Fixed ∧ σ.sources[i.index]? = some s ∧ τ.sources[j.index]? = some s

/-- Two contexts that are in the same position, each in its own store.  The second store holds
everything that the first one holds, and the first context, which rests in it. -/
structure Beside (σ τ : Store) (ctx worker : ContextId) : Prop where
  room : τ.room = σ.room
  traces : τ.traces = σ.traces
  sources : ∀ (i : Nat) (s : Source), σ.sources[i]? = some s → τ.sources[i]? = some s
  inside : ctx.index < σ.contexts.size
  inside' : worker.index < τ.contexts.size
  apart : worker ≠ ctx
  backend : (τ.context worker).backend = (σ.context ctx).backend
  memo : (τ.context worker).memo = (σ.context ctx).memo
  trace : (τ.context worker).trace = (σ.context ctx).trace
  registry : List.Forall₂ (fun e f => e.1 = f.1 ∧ σ.Interchangeable τ e.2 f.2)
    (σ.context ctx).registry (τ.context worker).registry
  resting : ∃ c, τ.contexts[ctx.index]? = some c ∧ c.reloaded = (σ.context ctx).reloaded

variable {σ τ : Store} {ctx worker : ContextId}

theorem Interchangeable.known {i j : SourceId} (same : σ.Interchangeable τ i j) :
    i.index < σ.sources.size := by
  rcases same with ⟨_, inside⟩ | ⟨s, _, found, _⟩
  · exact inside
  · exact (Array.getElem?_eq_some_iff.mp found).1

theorem Interchangeable.source_eq {i j : SourceId} (same : σ.Interchangeable τ i j)
    (sources : ∀ (k : Nat) (s : Source), σ.sources[k]? = some s → τ.sources[k]? = some s) :
    σ.source i = τ.source j ∧ (i = j ∨ (σ.source i).Fixed) := by
  rcases same with ⟨rfl, inside⟩ | ⟨s, fixed, left, right⟩
  · have found := Array.getElem?_eq_getElem inside
    rw [source_of_getElem? found, source_of_getElem? (sources _ _ found)]
    exact ⟨rfl, .inl rfl⟩
  · rw [source_of_getElem? left, source_of_getElem? right]
    exact ⟨rfl, .inr fixed⟩

theorem context_withProgress_of_ne {other : ContextId} (differ : other ≠ ctx) (p : Progress) :
    (σ.withProgress ctx p).contexts[other.index]? = σ.contexts[other.index]? := by
  have apart : ctx.index ≠ other.index := fun same => differ (congrArg ContextId.mk same.symm)
  exact Array.getElem?_setIfInBounds_ne apart

namespace Beside

theorem resolver_eq (beside : σ.Beside τ ctx worker) : τ.resolver worker = σ.resolver ctx := by
  have scopes : (σ.scope (σ.context ctx).registry).Interchangeable
      (τ.scope (τ.context worker).registry) := by
    rw [Scope.Interchangeable, scope, scope, Assoc.mapValues, Assoc.mapValues,
      List.forall₂_map_left_iff, List.forall₂_map_right_iff]
    exact beside.registry.imp fun _ _ pair => ⟨pair.1, pair.2.source_eq beside.sources⟩
  rw [resolver, resolver, beside.room, scopes.resolve_eq]

theorem trace_eq (beside : σ.Beside τ ctx worker) (id : TraceId) : τ.trace id = σ.trace id := by
  rw [Store.trace, Store.trace, beside.traces]

theorem progress_eq (beside : σ.Beside τ ctx worker) : τ.progress worker = σ.progress ctx := by
  rw [progress, progress, beside.memo, beside.trace, beside.trace_eq]

/-- The first context finds the same sources in both stores. -/
theorem scope_eq (beside : σ.Beside τ ctx worker) :
    τ.scope (σ.context ctx).registry = σ.scope (σ.context ctx).registry := by
  refine Assoc.mapValues_congr fun id member => ?_
  obtain ⟨e, inside, rfl⟩ := List.mem_map.mp member
  obtain ⟨f, _, _, same⟩ := exists_of_forall₂_mem beside.registry.flip inside
  have found := Array.getElem?_eq_getElem same.known
  rw [source_of_getElem? found, source_of_getElem? (beside.sources _ _ found)]

/-- Both contexts make the same progress. -/
theorem withProgress (beside : σ.Beside τ ctx worker) {p : Progress}
    (same : Scope.SameComputing (σ.progress ctx) p) :
    (σ.withProgress ctx p).Beside (τ.withProgress worker p) ctx worker := by
  have left := context_withProgress beside.inside p
  have right := context_withProgress beside.inside' p
  refine ⟨beside.room, ?_, beside.sources, ?_, ?_, beside.apart, ?_, ?_, ?_, ?_, ?_⟩
  · change τ.traces.setIfInBounds _ _ = σ.traces.setIfInBounds _ _
    rw [beside.traces, beside.trace]
  · exact Nat.lt_of_lt_of_eq beside.inside Array.size_setIfInBounds.symm
  · exact Nat.lt_of_lt_of_eq beside.inside' Array.size_setIfInBounds.symm
  · rw [left, right]
    exact beside.backend
  · rw [left, right]
  · rw [left, right]
    exact beside.trace
  · rw [left, right]
    exact beside.registry
  · obtain ⟨c, found, rested⟩ := beside.resting
    refine ⟨c, (context_withProgress_of_ne beside.apart.symm p).trans found, rested.trans ?_⟩
    rw [left]
    exact (Context.reloaded_withMemo same).symm

/-- Both contexts write to the same source. -/
theorem setSource (beside : σ.Beside τ ctx worker) {id : SourceId}
    (inside : id.index < σ.sources.size) (changes : ¬ (σ.source id).Fixed) (s : Source) :
    (σ.setSource id s).Beside (τ.setSource id s) ctx worker := by
  have held := Array.getElem?_eq_getElem inside
  have inside' := (Array.getElem?_eq_some_iff.mp (beside.sources _ _ held)).1
  refine ⟨beside.room, beside.traces, fun k t found => ?_, beside.inside, beside.inside', beside.apart,
    beside.backend, beside.memo, beside.trace, ?_, beside.resting⟩
  · change (σ.sources.setIfInBounds id.index s)[k]? = some t at found
    change (τ.sources.setIfInBounds id.index s)[k]? = some t
    by_cases here : id.index = k
    · subst here
      rw [Array.getElem?_setIfInBounds_self_of_lt inside] at found
      rw [Array.getElem?_setIfInBounds_self_of_lt inside', found]
    · rw [Array.getElem?_setIfInBounds_ne here] at found ⊢
      exact beside.sources k t found
  · have elsewhere : ∀ {ρ : Store} {k : SourceId} {t : Source}, ρ.source id = σ.source id →
        t.Fixed → ρ.sources[k.index]? = some t →
        (ρ.sources.setIfInBounds id.index s)[k.index]? = some t := by
      intro ρ k t same fixed found
      have apart : id.index ≠ k.index := by
        intro equal
        rw [← same, source_of_getElem? (equal ▸ found)] at changes
        exact changes fixed
      rw [Array.getElem?_setIfInBounds_ne apart, found]
    have same : τ.source id = σ.source id := by
      rw [source_of_getElem? held, source_of_getElem? (beside.sources _ _ held)]
    refine beside.registry.imp fun e f pair => ⟨pair.1, ?_⟩
    rcases pair.2 with ⟨equal, known⟩ | ⟨t, fixed, found, found'⟩
    · exact .inl ⟨equal, Nat.lt_of_lt_of_eq known Array.size_setIfInBounds.symm⟩
    · exact .inr ⟨t, fixed, elsewhere rfl fixed found, elsewhere same fixed found'⟩

end Beside

end Store

/-! ## Steps side by side -/

/-- Two steps that end alike, and leave contexts in the same position that were so before. -/
def Abreast {α : Type} (ctx worker : ContextId) (x y : Engine α) : Prop :=
  ∀ σ τ, σ.Beside τ ctx worker →
    (runFrom x σ).1 = (runFrom y τ).1 ∧ (runFrom x σ).2.Beside (runFrom y τ).2 ctx worker

section

variable {α β : Type} {ctx worker : ContextId}

theorem abreast_pure (a : α) : Abreast ctx worker (pure a) (pure a) :=
  fun _ _ beside => ⟨rfl, beside⟩

theorem abreast_throw (f : Fault) : Abreast ctx worker (throw f : Engine α) (throw f) :=
  fun _ _ beside => ⟨rfl, beside⟩

theorem abreast_ofEngine (r : Except EngineError α) :
    Abreast ctx worker (Engine.ofEngine r) (Engine.ofEngine r) := by
  cases r with
  | ok a => exact abreast_pure a
  | error e => exact abreast_throw _

theorem abreast_bind {x y : Engine α} {f g : α → Engine β} (first : Abreast ctx worker x y)
    (rest : ∀ a, Abreast ctx worker (f a) (g a)) : Abreast ctx worker (x >>= f) (y >>= g) := by
  intro σ τ beside
  obtain ⟨same, beside'⟩ := first σ τ beside
  rw [runFrom_bind, runFrom_bind]
  revert same beside'
  generalize runFrom x σ = left
  generalize runFrom y τ = right
  obtain ⟨left, σ'⟩ := left
  obtain ⟨right, τ'⟩ := right
  rintro rfl beside'
  cases left with
  | ok a => exact rest a σ' τ' beside'
  | error f => exact ⟨rfl, beside'⟩

theorem abreast_evaluate {step : Resolver → Evaluation α} (uniform : Uniform step) :
    Abreast ctx worker (ctx.evaluate step) (worker.evaluate step) := by
  intro σ τ beside
  have computing := uniform.along Scope.along_sameComputing
    (fun c p => Scope.computing_resolve (σ.scope (σ.context ctx).registry) σ.room c p) (σ.progress ctx)
  rw [ctx.runFrom_evaluate, worker.runFrom_evaluate, beside.resolver_eq, beside.progress_eq]
  exact ⟨rfl, beside.withProgress computing⟩

theorem abreast_report (e : Event) : Abreast ctx worker (ctx.report e) (worker.report e) :=
  abreast_evaluate fun _ respected _ _ _ => respected.report e

theorem abreast_write (c : Coordinate) (value : Value) :
    Abreast ctx worker (ctx.write c value) (worker.write c value) := by
  intro σ τ beside
  have related : Option.Rel (σ.Interchangeable τ) ((σ.context ctx).registry.find? (.text c.source))
      ((τ.context worker).registry.find? (.text c.source)) :=
    Assoc.find?_rel beside.registry fun _ _ same => by rw [same]
  generalize found : (σ.context ctx).registry.find? (.text c.source) = first at related
  generalize found' : (τ.context worker).registry.find? (.text c.source) = second at related
  cases related with
  | none =>
      rw [ContextId.runFrom_write_missing found, ContextId.runFrom_write_missing found']
      exact ⟨rfl, beside⟩
  | @some i j same =>
      obtain ⟨equal, identity⟩ := same.source_eq beside.sources
      cases written : (σ.source i).write c.fragment value with
      | error e =>
          rw [ContextId.runFrom_write_readOnly found written,
            ContextId.runFrom_write_readOnly found' (equal ▸ written)]
          exact ⟨rfl, beside⟩
      | ok s =>
          have changes := Source.not_fixed_of_write written
          obtain rfl := identity.resolve_right changes
          rw [ContextId.runFrom_write found written, ContextId.runFrom_write found' (equal ▸ written)]
          exact ⟨rfl, beside.setSource same.known changes s⟩

theorem abreast_assign (a : Assignment) : Abreast ctx worker (ctx.assign a) (worker.assign a) :=
  abreast_bind (abreast_evaluate (uniform_resolve a.source)) fun _ => abreast_write a.target _

theorem abreast_assignAll (assignments : List Assignment) :
    Abreast ctx worker (ctx.assignAll assignments) (worker.assignAll assignments) := by
  induction assignments with
  | nil => exact abreast_pure PUnit.unit
  | cons a rest ih => exact abreast_bind (abreast_assign a) fun _ => ih

theorem abreast_execute (command : String) (backend : Backend) :
    Abreast ctx worker (ctx.execute command backend) (worker.execute command backend) := by
  cases backend with
  | bare => exact abreast_throw _
  | tables commands =>
      refine abreast_bind (abreast_ofEngine _) fun t => ?_
      refine abreast_bind (abreast_evaluate t.uniform_satisfiedRule?) fun rule => ?_
      cases rule with
      | none => exact abreast_throw _
      | some r => exact abreast_assignAll r.assignments

/-- A command does in one of the contexts what it does in the other. -/
theorem abreast_perform (command : String) :
    Abreast ctx worker (ctx.perform command) (worker.perform command) := by
  intro σ τ beside
  rw [ContextId.perform, ContextId.perform, runFrom_bind, runFrom_get, runFrom_bind, runFrom_get]
  simp only [beside.backend]
  cases (σ.context ctx).backend with
  | none => exact ⟨rfl, beside⟩
  | some backend =>
      exact abreast_bind (abreast_report _) (fun _ => abreast_execute command backend) σ τ beside

end

end DecisionTables
