import DecisionTables.Context

/-!
# Running steps

A step of an evaluation and a step on the store are of one form: from a state they
give a result and a state, and what they have changed outlasts a fault.  The
equations of this module say what each way to combine steps gives.
-/

namespace DecisionTables

/-- A step on states of some type. -/
abbrev StepOn (S : Type) := ExceptT Fault (StateM S)

/-- The result of a step from a state, and the state that it leaves. -/
def runFrom {S α : Type} (x : StepOn S α) (s : S) : Except Fault α × S :=
  x.run.run s

section

variable {S α β : Type}

@[simp] theorem runFrom_pure (a : α) (s : S) : runFrom (pure a) s = (.ok a, s) := rfl

@[simp] theorem runFrom_get (s : S) : runFrom (get : StepOn S S) s = (.ok s, s) := rfl

@[simp] theorem runFrom_set (s t : S) : runFrom (set t : StepOn S PUnit) s = (.ok ⟨⟩, t) := rfl

@[simp] theorem runFrom_modify (f : S → S) (s : S) :
    runFrom (modify f : StepOn S PUnit) s = (.ok ⟨⟩, f s) := rfl

/-- A step followed by another: the second runs only where the first gave a value. -/
theorem runFrom_bind (x : StepOn S α) (f : α → StepOn S β) (s : S) :
    runFrom (x >>= f) s =
      match runFrom x s with
      | (.ok a, s') => runFrom (f a) s'
      | (.error e, s') => (.error e, s') := by
  change (ExceptT.bind x f) s = _
  simp only [ExceptT.bind, ExceptT.mk, bind, StateT.bind]
  unfold runFrom
  rcases h : x s with ⟨result, s'⟩
  cases result with
  | ok a => simp [ExceptT.run, StateT.run, h, ExceptT.bindCont]
  | error e =>
      simp only [ExceptT.run, StateT.run, h]
      rfl

theorem runFrom_bind_ok {x : StepOn S α} {s s' : S} {a : α} (ran : runFrom x s = (.ok a, s'))
    (f : α → StepOn S β) : runFrom (x >>= f) s = runFrom (f a) s' := by
  rw [runFrom_bind, ran]

theorem runFrom_bind_fault {x : StepOn S α} {s s' : S} {e : Fault}
    (ran : runFrom x s = (.error e, s')) (f : α → StepOn S β) :
    runFrom (x >>= f) s = (.error e, s') := by
  rw [runFrom_bind, ran]

/-- What is made of the value of a step. -/
theorem runFrom_return (x : StepOn S α) (f : α → β) (s : S) :
    runFrom (x >>= fun a => pure (f a)) s = ((runFrom x s).1.map f, (runFrom x s).2) := by
  rw [runFrom_bind]
  rcases runFrom x s with ⟨result, s'⟩
  cases result <;> rfl

/-- A step after another gives a value only where both do. -/
theorem runFrom_bind_value {x : StepOn S α} {f : α → StepOn S β} {s t : S} {b : β}
    (ran : runFrom (x >>= f) s = (.ok b, t)) :
    ∃ a s', runFrom x s = (.ok a, s') ∧ runFrom (f a) s' = (.ok b, t) := by
  rw [runFrom_bind] at ran
  revert ran
  generalize runFrom x s = first
  obtain ⟨result, s'⟩ := first
  intro ran
  cases result with
  | ok a => exact ⟨a, s', rfl, ran⟩
  | error e => cases ran

/-- A step that fails after another fails in the first or in the second. -/
theorem runFrom_bind_error {x : StepOn S α} {f : α → StepOn S β} {s t : S} {e : Fault}
    (failed : runFrom (x >>= f) s = (.error e, t)) :
    runFrom x s = (.error e, t) ∨
      ∃ a s', runFrom x s = (.ok a, s') ∧ runFrom (f a) s' = (.error e, t) := by
  rw [runFrom_bind] at failed
  revert failed
  generalize runFrom x s = ran
  obtain ⟨result, s'⟩ := ran
  intro failed
  cases result with
  | ok a => exact .inr ⟨a, s', rfl, failed⟩
  | error e' =>
      cases failed
      exact .inl rfl

/-- A fault that is caught is handled in the state that it left. -/
theorem runFrom_tryCatch (x : StepOn S α) (handle : Fault → StepOn S α) (s : S) :
    runFrom (tryCatch x handle) s =
      match runFrom x s with
      | (.ok a, s') => (.ok a, s')
      | (.error f, s') => runFrom (handle f) s' := by
  change (ExceptT.tryCatch x handle) s = _
  simp only [ExceptT.tryCatch, ExceptT.mk, bind, StateT.bind]
  unfold runFrom
  rcases h : x s with ⟨result, s'⟩
  cases result with
  | ok a =>
      simp only [ExceptT.run, StateT.run, h]
      rfl
  | error f => simp [ExceptT.run, StateT.run, h]

end

/-! ## Evaluations in a context -/

/-- One identity stands for one source. -/
def Scope.Coherent (scope : Scope) : Prop :=
  ∀ (m n : Scalar) (id : SourceId) (s t : Source),
    Assoc.find? scope m = some (id, s) → Assoc.find? scope n = some (id, t) → s = t

theorem Store.coherent_scope (σ : Store) (r : Registry) : (σ.scope r).Coherent := by
  have held : ∀ {n : Scalar} {id : SourceId} {s : Source},
      Assoc.find? (σ.scope r) n = some (id, s) → s = σ.source id := by
    intro n id s found
    obtain ⟨_, _, member⟩ := Assoc.exists_mem_of_find? found
    obtain ⟨entry, _, same⟩ := List.mem_map.mp member
    cases same
    rfl
  intro m n id s t left right
  rw [held left, held right]

namespace Store

/-- How a context resolves coordinates. -/
def resolver (σ : Store) (ctx : ContextId) : Resolver :=
  (σ.scope (σ.context ctx).registry).resolve σ.room

/-- What a context remembers and has reported so far. -/
def progress (σ : Store) (ctx : ContextId) : Progress :=
  ⟨(σ.context ctx).memo, σ.trace (σ.context ctx).trace⟩

/-- The store in which a context has made progress. -/
def withProgress (σ : Store) (ctx : ContextId) (p : Progress) : Store :=
  (σ.setContext ctx { σ.context ctx with memo := p.memo }).setTrace (σ.context ctx).trace p.trace

variable {σ : Store} {ctx : ContextId}

theorem source_of_getElem? {id : SourceId} {s : Source} (found : σ.sources[id.index]? = some s) :
    σ.source id = s := by
  rw [source, Array.getD_eq_getD_getElem?, found]
  rfl

theorem getElem?_contexts (inside : ctx.index < σ.contexts.size) :
    σ.contexts[ctx.index]? = some (σ.context ctx) := by
  rw [context, Array.getD_eq_getD_getElem?, Array.getElem?_eq_getElem inside]
  rfl

theorem context_setContext (inside : ctx.index < σ.contexts.size) (c : Context) :
    (σ.setContext ctx c).context ctx = c := by
  rw [context, setContext, Array.getD_eq_getD_getElem?, Array.getElem?_setIfInBounds_self_of_lt inside]
  rfl

theorem context_withProgress (inside : ctx.index < σ.contexts.size) (p : Progress) :
    (σ.withProgress ctx p).context ctx = { σ.context ctx with memo := p.memo } :=
  context_setContext inside _

/-- Progress of a context does not change how it resolves coordinates. -/
theorem resolver_withProgress (inside : ctx.index < σ.contexts.size) (p : Progress) :
    (σ.withProgress ctx p).resolver ctx = σ.resolver ctx := by
  rw [resolver, context_withProgress inside]
  rfl

/-- A context remembers the progress that it has made. -/
theorem memo_withProgress (inside : ctx.index < σ.contexts.size) (p : Progress) :
    ((σ.withProgress ctx p).progress ctx).memo = p.memo := by
  rw [progress, context_withProgress inside]

theorem trace_withProgress (traced : (σ.context ctx).trace.index < σ.traces.size) (p : Progress) :
    (σ.withProgress ctx p).trace (σ.context ctx).trace = p.trace := by
  unfold withProgress setTrace setContext
  rw [trace, Array.getD_eq_getD_getElem?, Array.getElem?_setIfInBounds_self_of_lt traced]
  rfl

/-- A context that is in the store with its trace has the progress that it has made. -/
theorem progress_withProgress (inside : ctx.index < σ.contexts.size)
    (traced : (σ.context ctx).trace.index < σ.traces.size) (p : Progress) :
    (σ.withProgress ctx p).progress ctx = p := by
  rw [progress, context_withProgress inside]
  exact congrArg (Progress.mk p.memo) (trace_withProgress traced p)

theorem setIfInBounds_getD {α : Type} (xs : Array α) (i : Nat) (d : α) :
    xs.setIfInBounds i (xs.getD i d) = xs := by
  apply Array.ext_getElem?
  intro j
  by_cases same : i = j
  · subst same
    by_cases inside : i < xs.size
    · rw [Array.getElem?_setIfInBounds_self_of_lt inside, Array.getD_eq_getD_getElem?,
        Array.getElem?_eq_getElem inside]
      rfl
    · rw [Array.setIfInBounds_eq_of_size_le (by omega)]
  · rw [Array.getElem?_setIfInBounds_ne same]

theorem setContext_context (σ : Store) (ctx : ContextId) :
    σ.setContext ctx (σ.context ctx) = σ := by
  unfold setContext context
  rw [setIfInBounds_getD]

theorem setTrace_trace (σ : Store) (t : TraceId) : σ.setTrace t (σ.trace t) = σ := by
  unfold setTrace trace
  rw [setIfInBounds_getD]

theorem withProgress_progress (σ : Store) (ctx : ContextId) :
    σ.withProgress ctx (σ.progress ctx) = σ := by
  change (σ.setContext ctx (σ.context ctx)).setTrace (σ.context ctx).trace
    (σ.trace (σ.context ctx).trace) = σ
  rw [setContext_context, setTrace_trace]

end Store

@[simp] theorem runFrom_ofExcept {α : Type} (r : Except Fault α) (σ : Store) :
    runFrom (Engine.ofExcept r) σ = (r, σ) := by
  cases r <;> rfl

/-- A result that is taken changes nothing. -/
theorem eq_of_ofEngine {α : Type} {r : Except EngineError α} {a : α} {σ σ' : Store}
    (ran : runFrom (Engine.ofEngine r) σ = (.ok a, σ')) : r = .ok a ∧ σ' = σ := by
  cases r with
  | ok a =>
      cases ran
      exact ⟨rfl, rfl⟩
  | error e => cases ran

/-- An evaluation in a context changes the progress of the context and nothing else. -/
theorem ContextId.runFrom_evaluate {α : Type} (ctx : ContextId) (step : Resolver → Evaluation α)
    (σ : Store) :
    runFrom (ctx.evaluate step) σ =
      ((runFrom (step (σ.resolver ctx)) (σ.progress ctx)).1,
        σ.withProgress ctx (runFrom (step (σ.resolver ctx)) (σ.progress ctx)).2) := by
  have run : ∀ (x : Evaluation α) (p : Progress), x.run.run p = runFrom x p := fun _ _ => rfl
  rw [ContextId.evaluate, runFrom_bind, runFrom_get]
  simp only [run]
  rw [runFrom_bind, runFrom_set]
  exact runFrom_ofExcept _ _

theorem ContextId.value_of_evaluate {α : Type} {ctx : ContextId} {step : Resolver → Evaluation α}
    {a : α} {σ σ' : Store} (ran : runFrom (ctx.evaluate step) σ = (.ok a, σ')) :
    ∃ p, runFrom (step (σ.resolver ctx)) (σ.progress ctx) = (.ok a, p) ∧
      σ' = σ.withProgress ctx p := by
  rw [ctx.runFrom_evaluate, Prod.mk.injEq] at ran
  exact ⟨_, Prod.ext ran.1 rfl, ran.2.symm⟩

namespace ContextId

variable {σ : Store} {ctx : ContextId} {catalog : Catalog}

theorem runFrom_catalog (found : (σ.context ctx).catalog = some catalog) :
    runFrom ctx.catalog σ = (.ok catalog, σ) := by
  rw [ContextId.catalog, runFrom_bind, runFrom_get]
  simp only [found]
  rfl

theorem runFrom_table (found : (σ.context ctx).catalog = some catalog) (name : String) :
    runFrom (ctx.table name) σ = runFrom (Engine.ofEngine (catalog.table name)) σ :=
  runFrom_bind_ok (runFrom_catalog found) _

end ContextId

end DecisionTables
