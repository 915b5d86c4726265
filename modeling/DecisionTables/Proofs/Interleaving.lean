import Mathlib
import DecisionTables.Proofs.Atomicity
import DecisionTables.Proofs.Effects

/-!
# Contexts beside commands

A context that is opened on the current state writes to its sources, and a command that
succeeds gives the state sources of its own.  So what a context writes is seen in the
state until then, and stays there until it is overwritten.
-/

namespace DecisionTables

/-! ## Interleaved operations -/

/-- What is done with one computation and with contexts while it is looked at. -/
inductive Operation.Interleaved (which : Nat) : Operation → Prop where
  | perform (command : String) (request : Value) :
      Interleaved which (.computation which (.perform command request))
  | «open» (request : Value) : Interleaved which (.computation which (.open request))
  | openByFacade (choice : StateSource) (request : Value) :
      Interleaved which (.computation which (.openByFacade choice request))
  | write (context : Nat) (c : Coordinate) (value : Value) :
      Interleaved which (.context context (.write c value))
  | storedState : Interleaved which (.computation which .storedState)

namespace Session

/-- A session leads to another one by operations each of which is allowed where it is carried out. -/
inductive Leads (allowed : Session → Operation → Prop) : Session → Session → Prop where
  | stay (s : Session) : Leads allowed s s
  | go {s t : Session} {op : Operation} (may : allowed s op) (rest : Leads allowed (s.step op).2 t) :
      Leads allowed s t

/-- What every allowed operation keeps is kept. -/
theorem Leads.keeps {allowed : Session → Operation → Prop} {I : Session → Prop} {s t : Session}
    (leads : Leads allowed s t) (each : ∀ s op, I s → allowed s op → I (s.step op).2) (first : I s) :
    I t := by
  induction leads with
  | stay s => exact first
  | go may _ ih => exact ih (each _ _ first may)

/-- What an interleaved operation can do to the store: add to it, write to one source, or perform a
command. -/
inductive Changes (s : Session) (which : Nat) : Operation → Prop where
  | adds {op : Operation} (keeps : Keeps Owned.nothing s.store (s.step op).2.store) :
      Changes s which op
  | writes {k : Nat} {ctx : ContextId} {c : Coordinate} {value : Value} {id : SourceId}
      {source : Source} (opened : s.contexts[k]? = some ctx)
      (found : (s.store.context ctx).registry.find? (.text c.source) = some id)
      (written : (s.store.source id).write c.fragment value = .ok source)
      (after : s.step (.context k (.write c value)) =
        (.ok .done, { s with store := s.store.setSource id source })) :
      Changes s which (.context k (.write c value))
  | performs {command : String} {request : Value}
      (performed : (s.step (.computation which (.perform command request))).1 = .ok .done) :
      Changes s which (.computation which (.perform command request))

variable {s : Session} {which : Nat} {c : Computation}

theorem keeps_of_onlyAdds {op : Operation} (adds : OnlyAdds (s.perform op)) :
    Keeps Owned.nothing s.store (s.step op).2.store := by
  rw [store_step]
  exact adds s.store

theorem step_write {k : Nat} {ctx : ContextId} (opened : s.contexts[k]? = some ctx) (t : Coordinate)
    (value : Value) :
    s.step (.context k (.write t value)) =
      ((runFrom (ctx.write t value) s.store).1.map fun _ => .done,
        { s with store := (runFrom (ctx.write t value) s.store).2 }) :=
  step_of_answer (perform_context opened _)

theorem changes_of_interleaved (built : s.computations[which]? = some c) {op : Operation}
    (interleaved : op.Interleaved which) : s.Changes which op := by
  cases interleaved with
  | perform command request =>
      cases ran : runFrom (c.perform command request) s.store with
      | mk result σ =>
        cases result with
        | ok u =>
            refine .performs ?_
            rw [step_performCommand built, ran]
            rfl
        | error f =>
            refine .adds ?_
            rw [step_performCommand built, ran]
            exact Computation.keeps_of_perform_failed ran
  | «open» request =>
      refine .adds (keeps_of_onlyAdds ?_)
      rw [perform_computation built]
      exact (OnlyAdds.openComputation c request).bind fun _ => .pure _
  | openByFacade choice request =>
      refine .adds (keeps_of_onlyAdds ?_)
      rw [perform_computation built]
      exact (OnlyAdds.choose s choice).bind fun _ =>
        (OnlyAdds.openDecisions c.decisions _ request).bind fun _ => .pure _
  | write k t value =>
      cases opened : s.contexts[k]? with
      | none =>
          refine .adds (keeps_of_onlyAdds ?_)
          rw [perform, held, opened]
          exact .throw _
      | some ctx =>
          have stepped := step_write opened t value
          rcases ctx.write_cases t value s.store with ⟨f, ran⟩ | ⟨id, source, found, written, ran⟩
          · rw [ran] at stepped
            refine .adds ?_
            rw [stepped]
            exact .refl s.store
          · rw [ran] at stepped
            exact .writes opened found written stepped
  | storedState =>
      refine .adds ?_
      rw [step_storedState built]
      exact .refl s.store

/-- A computation of a session that was reached. -/
structure Works (s : Session) (room : Option Nat) (which : Nat) (c : Computation) : Prop where
  reached : s.Reached room
  built : s.computations[which]? = some c

variable {room : Option Nat}

theorem Works.step (works : s.Works room which c) (op : Operation) :
    (s.step op).2.Works room which c :=
  ⟨works.reached.after [op], getElem?_of_prefix (computations_step s op) works.built⟩

/-- The state of the computation is in the store, and its sources are distinct. -/
theorem Works.tidy (works : s.Works room which c) :
    s.store.Tidy (s.store.state c.state) ∧ c.state.index < s.store.states.size := by
  obtain ⟨P, twins⟩ := works.reached.exists_twins
  have self := List.forall₂_same.mp twins.computations c (List.mem_of_getElem? works.built)
  exact ⟨twins.mirrors.state_tidy self.state, twins.mirrors.states.left_lt self.state⟩

/-! ## Contexts on the current state -/

/-- A context is over the current state of a computation. -/
structure Current (s : Session) (room : Option Nat) (which : Nat) (c : Computation) (k : Nat) : Prop where
  works : s.Works room which c
  above : ∃ ctx own, s.contexts[k]? = some ctx ∧ s.store.Over ctx c.state own

/-- The operation opens a context on the current state of a computation, by the computation itself or
by its decisions. -/
inductive Opens (s : Session) (which : Nat) (c : Computation) : Operation → Prop where
  | own (request : Value) : Opens s which c (.computation which (.open request))
  | absent (request : Value) : Opens s which c (.computation which (.openByFacade .absent request))
  | empty (request : Value) :
      Opens s which c (.computation which (.openByFacade (.contents .null) request))
  | held {i : Nat} (given : s.states[i]? = some c.state) (request : Value) :
      Opens s which c (.computation which (.openByFacade (.held i) request))

/-- However it is opened, the context is opened on the state of the computation. -/
theorem Opens.perform_eq (shared : c.decisions.state = c.state) {op : Operation}
    (built : s.computations[which]? = some c) (opens : s.Opens which c op) :
    ∃ (request : Value) (catalog : Catalog) (backend : Option Backend), s.perform op =
      (requestOfValue request >>= fun source =>
        ContextId.open c.state (some catalog) source backend) >>= fun ctx => pure (.context ctx) := by
  cases opens with
  | own request =>
      rw [perform_computation built]
      exact ⟨request, c.decisions.catalog, c.backend, rfl⟩
  | absent request =>
      refine ⟨request, c.decisions.catalog, c.decisions.backend, ?_⟩
      rw [perform_computation built, ← shared]
      rfl
  | empty request =>
      refine ⟨request, c.decisions.catalog, c.decisions.backend, ?_⟩
      rw [perform_computation built, ← shared]
      rfl
  | held given request =>
      refine ⟨request, c.decisions.catalog, c.decisions.backend, ?_⟩
      rw [perform_computation built, onComputation, choose, Session.held, given]
      rfl

/-- What an operation does that makes an object and succeeds. -/
theorem exists_of_step_done {α : Type} {op : Operation} {x : Engine α} {make : α → Reply} {t : Session}
    (performs : s.perform op = x >>= fun a => pure (make a)) (succeeded : s.step op = (.ok .done, t)) :
    ∃ a σ, runFrom x s.store = (.ok a, σ) ∧ t = (keep { s with store := σ } (make a)).2 := by
  rw [step_eq, performs, runFrom_bind] at succeeded
  revert succeeded
  generalize runFrom x s.store = ran
  obtain ⟨result, σ⟩ := ran
  intro succeeded
  cases result with
  | ok a => exact ⟨a, σ, rfl, (congrArg Prod.snd succeeded).symm⟩
  | error f => cases succeeded

/-- A context that was just opened is on the current state. -/
theorem Opens.current (shared : c.decisions.state = c.state) (works : s.Works room which c)
    {op : Operation} (opens : s.Opens which c op) {t : Session} (opened : s.step op = (.ok .done, t)) :
    t.Current room which c s.contexts.length := by
  obtain ⟨request, catalog, backend, performs⟩ := opens.perform_eq shared works.built
  obtain ⟨ctx, σ, ran, rfl⟩ := exists_of_step_done performs opened
  obtain ⟨own, fresh, _⟩ := Computation.exists_freshOver works.tidy.1 ran
  have after := works.step op
  rw [opened] at after
  exact ⟨after, ctx, own, List.getElem?_concat_length, fresh.above⟩

/-- The operation is a command of the computation that succeeds. -/
def Performs (s : Session) (which : Nat) (op : Operation) : Prop :=
  (∃ command request, op = .computation which (.perform command request)) ∧ (s.step op).1 = .ok .done

/-- A context stays on the current state until a command succeeds. -/
theorem Current.step {k : Nat} (current : s.Current room which c k) {op : Operation}
    (interleaved : op.Interleaved which) (fails : ¬ s.Performs which op) :
    (s.step op).2.Current room which c k := by
  obtain ⟨works, ctx, own, opened, above⟩ := current
  refine ⟨works.step op, ctx, own, getElem?_of_prefix (contexts_step s op) opened, ?_⟩
  cases changes_of_interleaved works.built interleaved with
  | adds keeps => exact above.keep keeps works.tidy.2
  | writes _ _ _ after =>
      rw [after]
      exact above.setSource _ _
  | performs performed => exact absurd ⟨⟨_, _, rfl⟩, performed⟩ fails

/-! ## Values of the current state -/

/-- A value is in the current state. -/
def Shows (s : Session) (c : Computation) (name fragment : String) (value : Value) : Prop :=
  ∃ source, (s.store.holdings c.state).find? (.text name) = some source ∧
    source.values.find? (.text fragment) = some value

/-- The operation writes to the fragment of the current state: a context that has registered its
source does, or a command whose rule has it as a target. -/
inductive Overwrites (s : Session) (which : Nat) (c : Computation) (commands : Catalog)
    (name fragment : String) : Operation → Prop where
  | write {k : Nat} {ctx : ContextId} {t : Coordinate} {value : Value} {id : SourceId}
      (opened : s.contexts[k]? = some ctx)
      (found : (s.store.context ctx).registry.find? (.text t.source) = some id)
      (stored : (s.store.state c.state).find? (.text name) = some id) (same : t.fragment = fragment)
      (written : (s.step (.context k (.write t value))).1 = .ok .done) :
      Overwrites s which c commands name fragment (.context k (.write t value))
  | perform {command : String} {request : Value}
      (sel : c.Selection commands command request s.store)
      (target : sel.Targets (.text name) fragment)
      (performed : (s.step (.computation which (.perform command request))).1 = .ok .done) :
      Overwrites s which c commands name fragment (.computation which (.perform command request))

/-- A value stays in the current state until it is overwritten. -/
theorem Shows.step {commands : Catalog} {name fragment : String} {value : Value}
    (works : s.Works room which c) (backend : c.backend = some (.tables commands))
    (shows' : s.Shows c name fragment value) {op : Operation} (interleaved : op.Interleaved which)
    (spares : ¬ s.Overwrites which c commands name fragment op) :
    (s.step op).2.Shows c name fragment value := by
  obtain ⟨tidy, inside⟩ := works.tidy
  obtain ⟨source, held, found⟩ := shows'
  cases changes_of_interleaved works.built interleaved with
  | adds keeps =>
      rw [Shows, Store.holdings_keep tidy inside keeps]
      exact ⟨source, held, found⟩
  | @writes _ _ t _ id new opened registered written after =>
      rw [Shows, after]
      rw [Store.holdings, Assoc.find?_mapValues, Option.map_eq_some_iff] at held
      obtain ⟨id₀, stored, rfl⟩ := held
      by_cases same : id₀ = id
      · subst same
        have apart : t.fragment ≠ fragment := fun equal =>
          spares (.write opened registered stored equal (congrArg Prod.fst after))
        have known := tidy.known _ (Assoc.mem_values_of_find? stored)
        have rewritten : (s.store.source id₀).Rewritten (Eq t.fragment) new := by
          rw [Source.eq_put_of_write written]
          exact .put rfl _ _
        refine ⟨new, Store.find?_holdings_setSource known stored new, ?_⟩
        rw [← found]
        exact rewritten.find?_eq apart
      · refine ⟨s.store.source id₀, ?_, found⟩
        change ((s.store.state c.state).mapValues (s.store.setSource id new).source).find? _ = _
        rw [Assoc.find?_mapValues, stored]
        exact congrArg some (Store.source_setSource_of_ne same new)
  | performs performed =>
      obtain ⟨sel, texts, _, _, after⟩ := exists_selection works.reached works.built backend performed
      rw [Shows, after]
      obtain ⟨source', held', rewritten⟩ := (sel.rewritten _ texts).find? held
      refine ⟨source', held', ?_⟩
      rw [rewritten.find?_eq fun target => spares (.perform sel target performed)]
      exact found

end Session

/-- The computation was built of tables and commands on one state. -/
def Computation.FromTables (c : Computation) (commands : Catalog) : Prop :=
  ∃ catalog choice σ σ', runFrom (Computation.ofTables catalog commands choice) σ = (.ok c, σ')

theorem Computation.FromTables.shared {c : Computation} {commands : Catalog}
    (built : c.FromTables commands) :
    c.decisions.state = c.state ∧ c.backend = some (.tables commands) := by
  obtain ⟨catalog, choice, σ, σ', ran⟩ := built
  obtain ⟨state, σ₁, _, made⟩ := runFrom_bind_value ran
  cases made
  exact ⟨rfl, rfl⟩

namespace Session

end Session

end DecisionTables
