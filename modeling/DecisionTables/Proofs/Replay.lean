import DecisionTables.Proofs.Lockstep.Computations
import DecisionTables.Session

/-!
# Replaying sessions

Two sessions whose objects stand for each other answer every list of operations alike.
One operation keeps them linked, and a list of operations is an induction over that.
-/

namespace DecisionTables

/-! ## Steps that may replace a state -/

namespace Pairing

/-- Two linked stores before and after a step that was carried out on both and may have replaced
states that stand for each other. -/
structure Replay (P Q : Pairing) (σ τ σ' τ' : Store) : Prop where
  le : P.Le Q
  fresh : P.Fresh Q σ τ
  mirrors : Q.Mirrors σ' τ'
  left : KeepsRest P.left (fun i => ∃ j, P.states i j) σ σ'
  right : KeepsRest P.right (fun j => ∃ i, P.states i j) τ τ'

variable {P Q R : Pairing} {σ τ σ' τ' σ'' τ'' : Store}

theorem Advance.replay (advance : P.Advance Q σ τ σ' τ') : P.Replay Q σ τ σ' τ' :=
  ⟨advance.le, advance.fresh, advance.mirrors, advance.left.rest _, advance.right.rest _⟩

theorem Replay.trans (first : P.Replay Q σ τ σ' τ') (second : Q.Replay R σ' τ' σ'' τ'') :
    P.Replay R σ τ σ'' τ'' where
  le := first.le.trans second.le
  fresh := first.fresh.trans second.fresh first.left first.right
  mirrors := second.mirrors
  left := first.left.trans second.left first.fresh.sources.left_old first.fresh.states.left_old
    first.fresh.contexts.left_old first.fresh.traces.left_old
  right := first.right.trans second.right first.fresh.sources.right_old
    first.fresh.states.right_old first.fresh.contexts.right_old first.fresh.traces.right_old

end Pairing

/-- Two steps with results that stand for each other that leave linked stores linked. -/
def ReplaysAt {α β : Type} (P : Pairing) (R : Pairing → α → β → Prop) (σ τ : Store)
    (x : Engine α) (y : Engine β) : Prop :=
  ∃ Q, P.Replay Q σ τ (runFrom x σ).2 (runFrom y τ).2 ∧
    Matches (R Q) (runFrom x σ).1 (runFrom y τ).1

section

variable {α β γ δ : Type} {P : Pairing} {σ τ : Store}

theorem PairsAt.replaysAt {R : Pairing → α → β → Prop} {x : Engine α} {y : Engine β}
    (pairs : PairsAt P R σ τ x y) : ReplaysAt P R σ τ x y := by
  obtain ⟨Q, advance, results⟩ := pairs
  exact ⟨Q, advance.replay, results⟩

theorem replaysAt_bind {R : Pairing → α → β → Prop} {S : Pairing → γ → δ → Prop}
    {x : Engine α} {y : Engine β} {f : α → Engine γ} {g : β → Engine δ}
    (first : ReplaysAt P R σ τ x y)
    (rest : ∀ Q σ' τ' a b, P.Le Q → Q.Mirrors σ' τ' → R Q a b →
      ReplaysAt Q S σ' τ' (f a) (g b)) :
    ReplaysAt P S σ τ (x >>= f) (y >>= g) := by
  obtain ⟨Q, replay, results⟩ := first
  rw [ReplaysAt, runFrom_bind, runFrom_bind]
  revert replay results
  generalize runFrom x σ = left
  generalize runFrom y τ = right
  obtain ⟨left, σ'⟩ := left
  obtain ⟨right, τ'⟩ := right
  intro replay results
  cases results with
  | @value a b related =>
      obtain ⟨Q', replay', results'⟩ := rest Q σ' τ' a b replay.le replay.mirrors related
      exact ⟨Q', replay.trans replay', results'⟩
  | fault f => exact ⟨Q, replay, .fault f⟩

theorem Pairing.Mirrors.setState (mirrors : P.Mirrors σ τ) {i j : StateId}
    (pair : P.states i.index j.index) {r s : Registry} (registries : P.Registries r s)
    (tidy : σ.Tidy r) : P.Mirrors (σ.setState i r) (τ.setState j s) := by
  refine ⟨mirrors.room, mirrors.sources, mirrors.states.set pair registries, mirrors.contexts,
    mirrors.traces, ?_⟩
  intro k l r' other found
  change (σ.states.setIfInBounds i.index r)[k]? = some r' at found
  by_cases same : i.index = k
  · rw [← same, Array.getElem?_setIfInBounds_self_of_lt (mirrors.states.left_lt pair)] at found
    rw [← Option.some.inj found]
    exact ⟨tidy.distinct, tidy.apart, tidy.settled⟩
  · rw [Array.getElem?_setIfInBounds_ne same] at found
    have before := mirrors.tidy other found
    exact ⟨before.distinct, before.apart, before.settled⟩

theorem replaysAt_adopt (mirrors : P.Mirrors σ τ) {i i' j j' : StateId}
    (pair : P.states i.index i'.index) (other : P.states j.index j'.index) :
    ReplaysAt P Same σ τ (i.adopt j) (i'.adopt j') :=
  ⟨P, ⟨.refl P, .refl P σ τ,
      mirrors.setState pair (mirrors.state_rel other) (mirrors.state_tidy other),
      .setState ⟨_, pair⟩ _, .setState ⟨_, pair⟩ _⟩, .value rfl⟩

theorem replaysAt_performCommand (mirrors : P.Mirrors σ τ) {c d : Computation}
    (computations : P.Computations c d) (command : String) (request : Value) :
    ReplaysAt P Same σ τ (c.perform command request) (d.perform command request) := by
  rw [Computation.perform_eq, Computation.perform_eq]
  have rehearsed := pairsAt_rehearse (pairsAt_stateCopy mirrors computations.state)
    computations.catalog computations.backend command request
  apply replaysAt_bind rehearsed.replaysAt
  intro Q σ' τ' working working' le mirrors' pair
  exact replaysAt_adopt mirrors' (le.states computations.state) pair

end

/-! ## Operations -/

/-- The operation gives a state the sources of another one. -/
def ComputationOperation.replaces : ComputationOperation → Bool
  | .perform _ _ => true
  | _ => false

/-- The operation gives a state the sources of another one. -/
def StateOperation.replaces : StateOperation → Bool
  | .adopt _ => true
  | _ => false

/-- The operation gives a state the sources of another one. -/
def Operation.replaces : Operation → Bool
  | .computation _ op => op.replaces
  | .state _ op => op.replaces
  | _ => false

namespace Pairing

/-- The same answer, or new objects that stand for each other. -/
inductive Replies (P : Pairing) : Reply → Reply → Prop where
  | answer (a : Answer) : Replies P (.answer a) (.answer a)
  | computation {c d : Computation} (computations : P.Computations c d) :
      Replies P (.computation c) (.computation d)
  | context {ctx ctx' : ContextId} (pair : P.contexts ctx.index ctx'.index) :
      Replies P (.context ctx) (.context ctx')
  | state {i j : StateId} (pair : P.states i.index j.index) : Replies P (.state i) (.state j)

/-- Sessions whose objects stand for each other, and whose traces are the same. -/
structure Twins (P : Pairing) (s t : Session) : Prop where
  mirrors : P.Mirrors s.store t.store
  shown : ∀ {u v : Trace}, P.shown u v → u = v
  computations : List.Forall₂ P.Computations s.computations t.computations
  contexts : List.Forall₂ (fun a b => P.contexts a.index b.index) s.contexts t.contexts
  states : List.Forall₂ (fun a b => P.states a.index b.index) s.states t.states

end Pairing

namespace Session

section

variable {α β : Type} {P : Pairing} {σ τ : Store} {s t : Session}

theorem pairsAt_held {R : α → β → Prop} (mirrors : P.Mirrors σ τ) {xs : List α} {ys : List β}
    (related : List.Forall₂ R xs ys) (which : Nat) :
    PairsAt P (fun _ a b => R a b) σ τ (held xs which) (held ys which) := by
  unfold held
  induction related generalizing which with
  | nil => exact pairsAt_throw mirrors _
  | cons head _ ih =>
      cases which with
      | zero => exact pairsAt_pure mirrors head
      | succ which => exact ih which

theorem pairsAt_choose (mirrors : P.Mirrors σ τ)
    (states : List.Forall₂ (fun a b => P.states a.index b.index) s.states t.states)
    (choice : StateSource) :
    PairsAt P (fun Q a b => Q.Choices a b) σ τ (s.choose choice) (t.choose choice) := by
  cases choice with
  | absent => exact pairsAt_pure mirrors .absent
  | contents value => exact pairsAt_pure mirrors (.contents value)
  | sources sources =>
      apply pairsAt_bind (pairsAt_create mirrors sources)
      intro Q σ' τ' i j advance pair
      exact pairsAt_pure advance.mirrors (.stored pair)
  | held state =>
      apply pairsAt_bind (pairsAt_held mirrors states state)
      intro Q σ' τ' i j advance pair
      exact pairsAt_pure advance.mirrors (.stored (advance.le.states pair))

/-- An answer that is made of the same result. -/
theorem pairsAt_answer {x y : Engine α} (pairs : PairsAt P Same σ τ x y) (tell : α → Answer) :
    PairsAt P (fun Q a b => Q.Replies a b) σ τ (x >>= fun a => pure (.answer (tell a)))
      (y >>= fun a => pure (.answer (tell a))) := by
  apply pairsAt_bind pairs
  rintro Q σ' τ' a _ advance rfl
  exact pairsAt_pure advance.mirrors (.answer (tell a))

theorem pairsAt_newComputation {x y : Engine Computation}
    (pairs : PairsAt P (fun Q c d => Q.Computations c d) σ τ x y) :
    PairsAt P (fun Q a b => Q.Replies a b) σ τ (x >>= fun c => pure (.computation c))
      (y >>= fun c => pure (.computation c)) := by
  apply pairsAt_bind pairs
  intro Q σ' τ' c d advance computations
  exact pairsAt_pure advance.mirrors (.computation computations)

theorem pairsAt_newContext {x y : Engine ContextId}
    (pairs : PairsAt P (fun Q a b => Q.contexts a.index b.index) σ τ x y) :
    PairsAt P (fun Q a b => Q.Replies a b) σ τ (x >>= fun ctx => pure (.context ctx))
      (y >>= fun ctx => pure (.context ctx)) := by
  apply pairsAt_bind pairs
  intro Q σ' τ' ctx ctx' advance pair
  exact pairsAt_pure advance.mirrors (.context pair)

theorem pairsAt_newState {x y : Engine StateId}
    (pairs : PairsAt P (fun Q a b => Q.states a.index b.index) σ τ x y) :
    PairsAt P (fun Q a b => Q.Replies a b) σ τ (x >>= fun id => pure (.state id))
      (y >>= fun id => pure (.state id)) := by
  apply pairsAt_bind pairs
  intro Q σ' τ' i j advance pair
  exact pairsAt_pure advance.mirrors (.state pair)

theorem pairsAt_onComputation (mirrors : P.Mirrors σ τ)
    (states : List.Forall₂ (fun a b => P.states a.index b.index) s.states t.states)
    {c d : Computation} (computations : P.Computations c d) {op : ComputationOperation}
    (keeps : op.replaces = false) :
    PairsAt P (fun Q a b => Q.Replies a b) σ τ (s.onComputation c op) (t.onComputation d op) := by
  cases op with
  | decide table choice =>
      apply pairsAt_bind (pairsAt_choose mirrors states choice)
      intro Q σ' τ' a b advance choices
      exact pairsAt_answer
        (pairsAt_decide advance.mirrors (computations.mono advance.le) table choices) _
  | decideByFacade table choice request =>
      apply pairsAt_bind (pairsAt_choose mirrors states choice)
      intro Q σ' τ' a b advance choices
      exact pairsAt_answer (pairsAt_decisionsDecide advance.mirrors
        (computations.mono advance.le) table choices request) _
  | perform command request => cases keeps
  | hasState name =>
      exact pairsAt_answer (pairsAt_stateContains mirrors computations.state name) _
  | stateFor name fragments =>
      exact pairsAt_answer (pairsAt_stateFor mirrors computations name fragments) _
  | storedState => exact pairsAt_answer (pairsAt_export mirrors computations.state) _
  | withState contents =>
      exact pairsAt_newComputation (pairsAt_withState mirrors computations contents)
  | selfTest tests =>
      exact pairsAt_answer (pairsAt_selfTest mirrors computations.catalog computations.backend
        (mirrors.statesAlike computations.state) tests) _
  | tableNames =>
      rw [onComputation, onComputation, computations.catalog]
      exact pairsAt_pure mirrors (.answer _)
  | hasTable table =>
      rw [onComputation, onComputation, computations.catalog]
      exact pairsAt_pure mirrors (.answer _)
  | findRule table rule =>
      rw [onComputation, onComputation, computations.catalog]
      exact pairsAt_answer (pairsAt_ofEngine mirrors _) _
  | «open» request =>
      exact pairsAt_newContext (pairsAt_computationOpen mirrors computations request)
  | openByFacade choice request =>
      apply pairsAt_bind (pairsAt_choose mirrors states choice)
      intro Q σ' τ' a b advance choices
      exact pairsAt_newContext (pairsAt_decisionsOpen advance.mirrors
        (computations.mono advance.le) choices request)
  | state => exact pairsAt_pure mirrors (.state computations.state)

theorem pairsAt_onContext (mirrors : P.Mirrors σ τ)
    (shown : ∀ {u v : Trace}, P.shown u v → u = v) {ctx ctx' : ContextId}
    (pair : P.contexts ctx.index ctx'.index) (op : ContextOperation) :
    PairsAt P (fun Q a b => Q.Replies a b) σ τ (onContext ctx op) (onContext ctx' op) := by
  cases op with
  | value c => exact pairsAt_answer (pairsAt_read mirrors pair c) _
  | evaluate c =>
      exact pairsAt_answer (pairsAt_uniform mirrors pair c.uniform_evaluate) fun result =>
        .judged result.1 result.2
  | outcome table => exact pairsAt_answer (pairsAt_outcome mirrors pair table) _
  | check r => exact pairsAt_answer (pairsAt_uniform mirrors pair r.uniform_check) _
  | select table =>
      apply pairsAt_bind (pairsAt_table mirrors pair table)
      rintro Q σ' τ' t _ advance rfl
      exact pairsAt_answer
        (pairsAt_uniform advance.mirrors (advance.le.contexts pair) t.uniform_select) fun rule =>
          .text rule.name
  | decideTable t => exact pairsAt_answer (pairsAt_uniform mirrors pair t.uniform_decide) _
  | write c value =>
      exact pairsAt_answer (pairsAt_write mirrors pair c value) fun _ => .done
  | reload => exact pairsAt_answer (pairsAt_reload mirrors pair) fun _ => .done
  | perform command =>
      exact pairsAt_answer (pairsAt_perform mirrors pair command) fun _ => .done
  | register name source =>
      exact pairsAt_answer (pairsAt_register mirrors pair name source) fun _ => .done
  | copyReset =>
      have contexts := mirrors.context_rel pair
      exact pairsAt_newContext
        (pairsAt_copyReset mirrors (mirrors.contextsAlike contexts) contexts.trace)
  | performRule r =>
      exact pairsAt_answer (pairsAt_performRule mirrors pair r) fun _ => .done
  | test r => exact pairsAt_answer (pairsAt_test mirrors (.paired pair) r) _
  | verify tests =>
      exact pairsAt_answer (Report.pairsAt_ofCatalog mirrors (.paired pair) tests) _
  | trace =>
      have same : PairsAt P Same σ τ ctx.trace ctx'.trace := by
        apply pairsAt_get
        exact pairsAt_pure mirrors (shown (mirrors.trace_rel (mirrors.context_rel pair).trace))
      exact pairsAt_answer same _
  | clearTrace =>
      have cleared : PairsAt P Same σ τ ctx.clearTrace ctx'.clearTrace := by
        apply pairsAt_modify
        exact mirrors.setTrace (mirrors.context_rel pair).trace P.shown_empty
      exact pairsAt_answer cleared fun _ => .done
  | source name =>
      exact pairsAt_answer (pairsAt_findSource mirrors pair name) fun source =>
        .source source.kindName source.name
  | state =>
      apply pairsAt_get
      exact pairsAt_pure mirrors (.state (mirrors.context_rel pair).state)

theorem pairsAt_onState (mirrors : P.Mirrors σ τ) {i j : StateId}
    (pair : P.states i.index j.index) {op : StateOperation} (keeps : op.replaces = false) :
    PairsAt P (fun Q a b => Q.Replies a b) σ τ (s.onState i op) (t.onState j op) := by
  cases op with
  | read name fragment => exact pairsAt_answer (pairsAt_stateRead mirrors pair name fragment) _
  | write name fragment value =>
      exact pairsAt_answer (pairsAt_stateWrite mirrors pair name fragment value) fun _ => .done
  | names => exact pairsAt_answer (pairsAt_stateNames mirrors pair) _
  | contains name => exact pairsAt_answer (pairsAt_stateContains mirrors pair name) _
  | copy => exact pairsAt_newState (pairsAt_stateCopy mirrors pair)
  | copyReset =>
      exact pairsAt_newState (pairsAt_stateCopyReset mirrors (mirrors.statesAlike pair))
  | adopt other => cases keeps
  | «export» => exact pairsAt_answer (pairsAt_export mirrors pair) _
  | values name =>
      exact pairsAt_answer (pairsAt_stateFindSource mirrors pair name) fun source =>
        .entries source.values
  | display => exact pairsAt_answer (pairsAt_display mirrors pair) _
  | json => exact pairsAt_answer (pairsAt_toJson mirrors pair) _
  | yaml => exact pairsAt_answer (pairsAt_toYaml mirrors pair) _

/-- An operation that replaces no state changes twin sessions alike. -/
theorem pairsAt_operation (twins : P.Twins s t) {op : Operation} (keeps : op.replaces = false) :
    PairsAt P (fun Q a b => Q.Replies a b) s.store t.store (s.perform op) (t.perform op) := by
  have mirrors := twins.mirrors
  cases op with
  | build catalog commands choice =>
      apply pairsAt_bind (pairsAt_choose mirrors twins.states choice)
      intro Q σ' τ' a b advance choices
      exact pairsAt_newComputation (pairsAt_ofTables advance.mirrors catalog commands choices)
  | buildWith catalog backend choice =>
      apply pairsAt_bind (pairsAt_choose mirrors twins.states choice)
      intro Q σ' τ' a b advance choices
      exact pairsAt_newComputation (pairsAt_ofBackend advance.mirrors catalog backend choices)
  | load fs settings choice =>
      apply pairsAt_bind (pairsAt_choose mirrors twins.states choice)
      intro Q σ' τ' a b advance choices
      exact pairsAt_newComputation (pairsAt_load advance.mirrors fs settings choices)
  | newState choice =>
      apply pairsAt_bind (pairsAt_choose mirrors twins.states choice)
      intro Q σ' τ' a b advance choices
      exact pairsAt_newState (pairsAt_choiceState advance.mirrors choices)
  | readState value => exact pairsAt_newState (pairsAt_ofValue mirrors value)
  | readJson text => exact pairsAt_newState (pairsAt_ofJson mirrors text)
  | readYaml text => exact pairsAt_newState (pairsAt_ofYaml mirrors text)
  | openBare request =>
      apply pairsAt_bind (pairsAt_create mirrors [])
      intro Q σ' τ' i j advance pair
      exact pairsAt_newContext (pairsAt_open advance.mirrors pair none request none)
  | computation which op =>
      apply pairsAt_bind (pairsAt_held mirrors twins.computations which)
      intro Q σ' τ' c d advance computations
      exact pairsAt_onComputation advance.mirrors
        (List.Forall₂.imp (fun _ _ => advance.le.states) twins.states)
        (computations.mono advance.le) keeps
  | context which op =>
      apply pairsAt_bind (pairsAt_held mirrors twins.contexts which)
      intro Q σ' τ' ctx ctx' advance pair
      refine pairsAt_onContext advance.mirrors ?_ (advance.le.contexts pair) op
      intro u v shown
      rw [advance.le.shown] at shown
      exact twins.shown shown
  | state which op =>
      apply pairsAt_bind (pairsAt_held mirrors twins.states which)
      intro Q σ' τ' i j advance pair
      exact pairsAt_onState advance.mirrors (advance.le.states pair) keeps

/-- Every operation gives twin sessions the same answer, and leaves what it makes paired. -/
theorem replaysAt_operation (twins : P.Twins s t) (op : Operation) :
    ReplaysAt P (fun Q a b => Q.Replies a b) s.store t.store (s.perform op) (t.perform op) := by
  cases keeps : op.replaces with
  | false => exact (pairsAt_operation twins keeps).replaysAt
  | true =>
      cases op with
      | computation which op =>
          cases op with
          | perform command request =>
              apply replaysAt_bind (pairsAt_held twins.mirrors twins.computations which).replaysAt
              intro Q σ' τ' c d le mirrors computations
              apply replaysAt_bind
                (replaysAt_performCommand mirrors (computations.mono le) command request)
              intro Q' σ'' τ'' _ _ le' mirrors' _
              exact (pairsAt_pure mirrors' (.answer .done)).replaysAt
          | _ => cases keeps
      | state which op =>
          cases op with
          | adopt other =>
              apply replaysAt_bind (pairsAt_held twins.mirrors twins.states which).replaysAt
              intro Q σ' τ' i j le mirrors pair
              apply replaysAt_bind (pairsAt_held mirrors twins.states other).replaysAt
              intro Q' σ'' τ'' i' j' le' mirrors' pair'
              have both := le.trans le'
              apply replaysAt_bind
                (replaysAt_adopt mirrors' (le'.states (le.states pair)) (both.states pair'))
              intro Q'' σ''' τ''' _ _ le'' mirrors'' _
              exact (pairsAt_pure mirrors'' (.answer .done)).replaysAt
          | _ => cases keeps
      | _ => cases keeps

end

end Session

/-! ## Runs -/

namespace Session

theorem step_eq (s : Session) (op : Operation) :
    s.step op =
      match runFrom (s.perform op) s.store with
      | (.ok reply, σ) =>
        (.ok (keep { s with store := σ } reply).1, (keep { s with store := σ } reply).2)
      | (.error f, σ) => (.error f, { s with store := σ }) := by
  rw [runFrom, step]
  generalize (s.perform op).run.run s.store = ran
  obtain ⟨result, σ⟩ := ran
  cases result <;> rfl

theorem perform_computation {s : Session} {which : Nat} {c : Computation}
    (built : s.computations[which]? = some c) (op : ComputationOperation) :
    s.perform (.computation which op) = s.onComputation c op := by
  rw [perform, held, built]
  exact pure_bind c _

theorem perform_missing_computation {s : Session} {which : Nat}
    (missing : s.computations[which]? = none) (op : ComputationOperation) :
    s.perform (.computation which op) = throw .missingMember := by
  rw [perform, held, missing]
  rfl

theorem perform_context {s : Session} {which : Nat} {ctx : ContextId}
    (opened : s.contexts[which]? = some ctx) (op : ContextOperation) :
    s.perform (.context which op) = onContext ctx op := by
  rw [perform, held, opened]
  exact pure_bind ctx _

/-- The store after an operation is what the operation leaves of it. -/
theorem store_step (s : Session) (op : Operation) :
    (s.step op).2.store = (runFrom (s.perform op) s.store).2 := by
  rw [step_eq]
  generalize runFrom (s.perform op) s.store = ran
  obtain ⟨result, σ⟩ := ran
  cases result with
  | ok reply => cases reply <;> rfl
  | error f => rfl

/-- An operation keeps all objects of its session in their places; one that it makes comes behind them. -/
theorem objects_step (s : Session) (op : Operation) :
    s.computations <+: (s.step op).2.computations ∧ s.contexts <+: (s.step op).2.contexts ∧
      s.states <+: (s.step op).2.states := by
  rw [step_eq]
  generalize runFrom (s.perform op) s.store = ran
  obtain ⟨result, σ⟩ := ran
  cases result with
  | error f => exact ⟨List.prefix_rfl, List.prefix_rfl, List.prefix_rfl⟩
  | ok reply =>
      cases reply with
      | computation c => exact ⟨List.prefix_append _ _, List.prefix_rfl, List.prefix_rfl⟩
      | context ctx => exact ⟨List.prefix_rfl, List.prefix_append _ _, List.prefix_rfl⟩
      | state id => exact ⟨List.prefix_rfl, List.prefix_rfl, List.prefix_append _ _⟩
      | answer a => exact ⟨List.prefix_rfl, List.prefix_rfl, List.prefix_rfl⟩

theorem computations_step (s : Session) (op : Operation) :
    s.computations <+: (s.step op).2.computations :=
  (s.objects_step op).1

theorem contexts_step (s : Session) (op : Operation) : s.contexts <+: (s.step op).2.contexts :=
  (s.objects_step op).2.1

theorem states_step (s : Session) (op : Operation) : s.states <+: (s.step op).2.states :=
  (s.objects_step op).2.2

/-- What an operation tells that does nothing but answer. -/
theorem step_of_answer {s : Session} {α : Type} {op : Operation} {x : Engine α} {tell : α → Answer}
    (performs : s.perform op = x >>= fun a => pure (.answer (tell a))) :
    s.step op = ((runFrom x s.store).1.map tell, { s with store := (runFrom x s.store).2 }) := by
  rw [step_eq, performs, runFrom_bind]
  generalize runFrom x s.store = ran
  obtain ⟨result, σ⟩ := ran
  cases result <;> rfl

/-- An operation that fails keeps its session, but for what the operation left in the store. -/
theorem step_of_failed {s : Session} {op : Operation} {f : Fault}
    (failed : (s.step op).1 = .error f) :
    ∃ σ, runFrom (s.perform op) s.store = (.error f, σ) ∧ (s.step op).2 = { s with store := σ } := by
  rw [step_eq] at failed ⊢
  revert failed
  generalize runFrom (s.perform op) s.store = ran
  obtain ⟨result, σ⟩ := ran
  intro failed
  cases result with
  | ok reply => cases failed
  | error g =>
      cases failed
      exact ⟨σ, rfl, rfl⟩

end Session

namespace Pairing.Twins

variable {P : Pairing} {s t : Session}

/-- One operation answers twin sessions alike and leaves them twins, and changes nothing else. -/
theorem replay (twins : P.Twins s t) (op : Operation) :
    (s.step op).1 = (t.step op).1 ∧
      ∃ Q : Pairing, P.Replay Q s.store t.store (s.step op).2.store (t.step op).2.store ∧
        Q.Twins (s.step op).2 (t.step op).2 := by
  obtain ⟨Q, replay, results⟩ := Session.replaysAt_operation twins op
  suffices both : (s.step op).1 = (t.step op).1 ∧ Q.Twins (s.step op).2 (t.step op).2 by
    refine ⟨both.1, Q, ?_, both.2⟩
    rw [Session.store_step, Session.store_step]
    exact replay
  obtain ⟨le, _, mirrors, _, _⟩ := replay
  have shown : ∀ {u v : Trace}, Q.shown u v → u = v := by
    intro u v same
    rw [le.shown] at same
    exact twins.shown same
  have computations := List.Forall₂.imp (fun _ _ related => related.mono le) twins.computations
  have contexts := List.Forall₂.imp (fun _ _ => le.contexts) twins.contexts
  have states := List.Forall₂.imp (fun _ _ => le.states) twins.states
  rw [Session.step_eq, Session.step_eq]
  revert results mirrors
  generalize runFrom (s.perform op) s.store = left
  generalize runFrom (t.perform op) t.store = right
  obtain ⟨left, σ'⟩ := left
  obtain ⟨right, τ'⟩ := right
  intro results mirrors
  cases results with
  | fault f => exact ⟨rfl, mirrors, shown, computations, contexts, states⟩
  | value related =>
      cases related with
      | answer a => exact ⟨rfl, mirrors, shown, computations, contexts, states⟩
      | computation made =>
          exact ⟨rfl, mirrors, shown, List.rel_append computations (.cons made .nil), contexts,
            states⟩
      | context made =>
          exact ⟨rfl, mirrors, shown, computations, List.rel_append contexts (.cons made .nil),
            states⟩
      | state made =>
          exact ⟨rfl, mirrors, shown, computations, contexts,
            List.rel_append states (.cons made .nil)⟩

theorem step (twins : P.Twins s t) (op : Operation) :
    (s.step op).1 = (t.step op).1 ∧ ∃ Q : Pairing, P.Le Q ∧ Q.Twins (s.step op).2 (t.step op).2 := by
  obtain ⟨same, Q, replay, twins'⟩ := twins.replay op
  exact ⟨same, Q, replay.le, twins'⟩

theorem after (twins : P.Twins s t) (ops : List Operation) :
    ∃ Q : Pairing, P.Le Q ∧ Q.Twins (s.after ops) (t.after ops) := by
  induction ops generalizing P s t with
  | nil => exact ⟨P, .refl P, twins⟩
  | cons op rest ih =>
      obtain ⟨_, Q, le, twins'⟩ := twins.step op
      obtain ⟨Q', le', twins''⟩ := ih twins'
      exact ⟨Q', le.trans le', twins''⟩

/-- Twin sessions answer alike for good. -/
theorem answers_eq (twins : P.Twins s t) (ops : List Operation) :
    s.answers ops = t.answers ops := by
  induction ops generalizing P s t with
  | nil => rfl
  | cons op rest ih =>
      obtain ⟨same, Q, _, twins'⟩ := twins.step op
      rw [Session.answers, Session.answers, same, ih twins']

end Pairing.Twins

end DecisionTables
