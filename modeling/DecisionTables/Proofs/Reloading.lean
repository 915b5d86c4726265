import DecisionTables.Proofs.Enduring
import DecisionTables.Proofs.Interleaving

/-!
# Reloading a context

Between two operations no table is marked, whatever failed before.  So a context that is
reloaded is in the position of one that was built anew over the same sources, and until
then it answers what it has computed from its memory.
-/

namespace DecisionTables

/-! ## Operations -/

namespace Proceeds

variable {reloaded : Nat → Prop}

theorem openComputation (c : Computation) (request : Value) : Proceeds reloaded (c.open request) :=
  ((LeavesContexts.requestOfValue request).proceeds _).bind fun _ => «open» _ _ _ _

theorem openDecisions (d : Decisions) (choice : StateChoice) (request : Value) :
    Proceeds reloaded (d.open choice request) :=
  ((LeavesContexts.stateOr _ choice).proceeds _).bind fun _ =>
    ((LeavesContexts.requestOfValue request).proceeds _).bind fun _ => «open» _ _ _ _

theorem decideByFacade (d : Decisions) (table : String) (choice : StateChoice) (request : Value) :
    Proceeds reloaded (d.decide table choice request) :=
  (openDecisions d choice request).bind fun _ => outcome table

theorem performCommand (c : Computation) (command : String) (request : Value) :
    Proceeds reloaded (c.perform command request) :=
  ((LeavesContexts.copyWith _ _).proceeds _).bind fun _ =>
    ((LeavesContexts.requestOfValue request).proceeds _).bind fun _ =>
      («open» _ _ _ _).bind fun _ => (perform command).bind fun _ => fun _ => .of_contexts_eq rfl

theorem readFrom {ctx : ContextId} (id : SourceId) (source : Source) (fragment : String) :
    Proceeds reloaded (ctx.readFrom id source fragment) :=
  (LeavesContexts.get.proceeds _).bind fun _ => evaluate fun _ _ p => Scope.onward_readFrom _ _ id source _ p

theorem readAll (ctx : ContextId) (id : SourceId) (source : Source) (fragments : List String) :
    Proceeds reloaded (Computation.readAll ctx id source fragments) := by
  induction fragments with
  | nil => exact pure []
  | cons fragment rest ih =>
      exact (readFrom id source fragment).bind fun _ => ih.bind fun _ => pure _

theorem stateFor (c : Computation) (name : String) (fragments : List String) :
    Proceeds reloaded (c.stateFor name fragments) :=
  ((LeavesContexts.stateFind c.state name).proceeds _).bind fun id =>
    (LeavesContexts.get.proceeds _).bind fun _ => (openComputation c .null).bind fun ctx =>
      (readAll ctx id _ fragments).bind fun _ => pure _

theorem selfTest (c : Computation) (tests : Option Catalog) : Proceeds reloaded (c.selfTest tests) :=
  (openComputation c .null).bind fun _ => ofCatalog _

theorem onComputation (s : Session) (c : Computation) (op : ComputationOperation) :
    Proceeds reloaded (s.onComputation c op) := by
  have chosen := fun choice => (LeavesContexts.choose s choice).proceeds reloaded
  cases op with
  | decide table choice =>
      exact (chosen choice).bind fun _ => (decideByFacade _ _ _ _).bind fun _ => pure _
  | decideByFacade table choice request =>
      exact (chosen choice).bind fun _ => (decideByFacade _ _ _ _).bind fun _ => pure _
  | perform command request => exact (performCommand c command request).bind fun _ => pure _
  | hasState name =>
      exact LeavesContexts.proceeds (.bind (.bind .get fun _ => .pure _) fun _ => .pure _) _
  | stateFor name fragments => exact (stateFor c name fragments).bind fun _ => pure _
  | storedState =>
      exact LeavesContexts.proceeds (.bind (.bind .get fun _ => .pure _) fun _ => .pure _) _
  | withState contents =>
      exact LeavesContexts.proceeds
        (.bind (.bind (.ofNested contents) fun _ => .pure _) fun _ => .pure _) _
  | selfTest tests => exact (selfTest c tests).bind fun _ => pure _
  | tableNames => exact pure _
  | hasTable table => exact pure _
  | findRule table rule => exact LeavesContexts.proceeds (.bind (.ofEngine _) fun _ => .pure _) _
  | «open» request => exact (openComputation c request).bind fun _ => pure _
  | openByFacade choice request =>
      exact (chosen choice).bind fun _ => (openDecisions _ _ _).bind fun _ => pure _
  | state => exact pure _

theorem onContext (ctx : ContextId) {op : ContextOperation} (stays : op ≠ .reload) :
    Proceeds reloaded (Session.onContext ctx op) := by
  cases op with
  | value c => exact (uniform (uniform_resolve c)).bind fun _ => pure _
  | evaluate c => exact (uniform c.uniform_evaluate).bind fun _ => pure _
  | outcome table => exact (outcome table).bind fun _ => pure _
  | check r => exact (uniform r.uniform_check).bind fun _ => pure _
  | select table =>
      exact ((Proceeds.table ctx table).proceeds _).bind fun t =>
        (uniform t.uniform_select).bind fun _ => pure _
  | decideTable t => exact (uniform t.uniform_decide).bind fun _ => pure _
  | write c value => exact ((write ctx c value).proceeds _).bind fun _ => pure _
  | reload => exact absurd rfl stays
  | perform command => exact (perform command).bind fun _ => pure _
  | register name source => exact (register name source).bind fun _ => pure _
  | copyReset => exact copyReset.bind fun _ => pure _
  | performRule r => exact (assignAll r.assignments).bind fun _ => pure _
  | test r => exact (test r ctx).bind fun _ => pure _
  | verify tests => exact (ofCatalog tests).bind fun _ => pure _
  | trace => exact LeavesContexts.proceeds (.bind (.bind .get fun _ => .pure _) fun _ => .pure _) _
  | clearTrace => exact LeavesContexts.proceeds (.bind (fun _ => rfl) fun _ => .pure _) _
  | source name =>
      exact LeavesContexts.proceeds
        (.bind (.bind .get fun _ => .bind (find ctx name) fun _ => .pure _) fun _ => .pure _) _
  | state => exact LeavesContexts.proceeds (.bind .get fun _ => .pure _) _

end Proceeds

/-- The context as it is built, before it has computed anything. -/
def Context.renewed (c : Context) : Context :=
  { c with memo := .empty }

/-- The same pairs, but that one context stands for a new one. -/
def Pairing.moved (P : Pairing) (i j : Nat) : Pairing :=
  { P with contexts := fun k l => k = i ∧ l = j ∨ k ≠ i ∧ P.contexts k l }

theorem Pairing.Contexts.moved {P : Pairing} {i j : Nat} {c d : Context} (contexts : P.Contexts c d) :
    (P.moved i j).Contexts c d :=
  ⟨contexts.state, contexts.catalog, contexts.backend, contexts.request, contexts.registry,
    ⟨contexts.memo.outcomes, contexts.memo.verdicts, contexts.memo.computing⟩, contexts.trace⟩

namespace Session

variable {P : Pairing} {s t : Session} {ctx : ContextId}

/-- The operation reloads the context in a place of the store. -/
def Reloads (s : Session) (op : Operation) (i : Nat) : Prop :=
  ∃ k ctx, op = .context k .reload ∧ s.contexts[k]? = some ctx ∧ i = ctx.index

theorem perform_missing_context {which : Nat} (missing : s.contexts[which]? = none)
    (op : ContextOperation) : s.perform (.context which op) = throw .missingMember := by
  rw [perform, held, missing]
  rfl

theorem onward_step (s : Session) (op : Operation) :
    s.store.Onward (s.Reloads op) (s.step op).2.store := by
  have chosen := fun choice => (LeavesContexts.choose s choice).proceeds (s.Reloads op)
  rw [store_step]
  cases op with
  | build catalog commands choice =>
      exact ((chosen choice).bind fun _ => LeavesContexts.proceeds
        (.bind (.bind (.state _) fun _ => .pure _) fun _ => .pure _) _) _
  | buildWith catalog backend choice =>
      exact ((chosen choice).bind fun _ => LeavesContexts.proceeds
        (.bind (.bind (.state _) fun _ => .bind (.state _) fun _ => .pure _) fun _ => .pure _) _) _
  | load fs settings choice =>
      exact ((chosen choice).bind fun _ => LeavesContexts.proceeds
        (.bind (.bind (.ofExcept _) fun _ => .bind (.ofExcept _) fun _ =>
          .bind (.state _) fun _ => .pure _) fun _ => .pure _) _) _
  | newState choice =>
      exact ((chosen choice).bind fun _ => LeavesContexts.proceeds
        (.bind (.state _) fun _ => .pure _) _) _
  | readState value => exact LeavesContexts.proceeds (.bind (.ofValue value) fun _ => .pure _) _ _
  | readJson text =>
      exact LeavesContexts.proceeds
        (.bind (.bind (.ofExcept _) fun _ => .ofValue _) fun _ => .pure _) _ _
  | readYaml text =>
      exact LeavesContexts.proceeds
        (.bind (.bind (.ofExcept _) fun _ => .ofValue _) fun _ => .pure _) _ _
  | openBare request =>
      exact (((LeavesContexts.create []).proceeds _).bind fun _ =>
        (Proceeds.open _ none request none).bind fun _ => Proceeds.pure _) _
  | computation which op =>
      exact (((LeavesContexts.held _ which).proceeds _).bind fun c =>
        Proceeds.onComputation s c op) _
  | context which op =>
      cases opened : s.contexts[which]? with
      | none =>
          rw [perform_missing_context opened]
          exact .refl _
      | some ctx =>
          rw [perform_context opened]
          by_cases stays : op = .reload
          · subst stays
            have reloaded := Proceeds.reload ctx |>.bind fun _ => Proceeds.pure (Reply.answer .done)
            exact (reloaded s.store).mono fun i here => ⟨which, ctx, rfl, opened, here⟩
          · exact Proceeds.onContext ctx stays _
  | state which op =>
      exact LeavesContexts.proceeds (.bind (.held _ which) fun id => .onState s id op) _ _

/-! ## No table is left marked -/

/-- No table is being computed in any context. -/
def Idle (s : Session) : Prop :=
  ∀ (i : Nat) (c : Context), s.store.contexts[i]? = some c → c.memo.computing = []

theorem Idle.step (idle : s.Idle) (op : Operation) : (s.step op).2.Idle := by
  have onward := onward_step s op
  intro i c found
  by_cases inside : i < s.store.contexts.size
  · obtain ⟨c', found', same⟩ := onward.kept i _ (Array.getElem?_eq_getElem inside)
    rw [found] at found'
    cases found'
    exact same.computing.trans (idle i _ (Array.getElem?_eq_getElem inside))
  · exact onward.added i c (Nat.le_of_not_lt inside) found

theorem Reached.idle {room : Option Nat} (reached : s.Reached room) : s.Idle := by
  obtain ⟨history, rfl⟩ := reached
  have along : ∀ {s : Session}, s.Idle → (s.after history).Idle := by
    induction history with
    | nil => exact id
    | cons op rest ih => exact fun idle => ih (idle.step op)
  exact along fun i c found => by simp [start, Store.empty] at found

/-! ## A context that is built anew -/

/-- The session in which a context is built anew over the same sources, and used wherever the first
one was. -/
def rebuilt (s : Session) (ctx : ContextId) : Session :=
  { s with
    store := { s.store with contexts := s.store.contexts.push (s.store.context ctx).renewed }
    contexts := s.contexts.map fun other =>
      if other = ctx then ⟨s.store.contexts.size⟩ else other }

/-- A context that was just reloaded stands for one that is built anew. -/
theorem mirrors_renewed (mirrors : P.Mirrors s.store s.store)
    (pair : P.contexts ctx.index ctx.index) :
    (P.moved ctx.index s.store.contexts.size).Mirrors
      (s.store.setContext ctx (s.store.context ctx).renewed) (s.rebuilt ctx).store := by
  have inside := mirrors.contexts.left_lt pair
  refine ⟨rfl, mirrors.sources, mirrors.states, ⟨?_, ?_⟩, mirrors.traces, ?_⟩
  · rintro i j k l (⟨rfl, rfl⟩ | ⟨apart, first⟩) (⟨rfl, rfl⟩ | ⟨apart', second⟩)
    · exact ⟨fun _ => rfl, fun _ => rfl⟩
    · have known := mirrors.contexts.right_lt second
      exact ⟨fun same => absurd same.symm apart', fun same => by omega⟩
    · have known := mirrors.contexts.right_lt first
      exact ⟨fun same => absurd same apart, fun same => by omega⟩
    · exact mirrors.contexts.single first second
  · rintro i j (⟨rfl, rfl⟩ | ⟨apart, pair'⟩)
    · have related := (mirrors.context_rel pair).withMemo (m := .empty) (n := .empty)
        ⟨rfl, .nil, rfl⟩
      exact ⟨_, _, Array.getElem?_setIfInBounds_self_of_lt inside, Array.getElem?_push_size,
        related.moved⟩
    · obtain ⟨c, d, left, right, related⟩ := mirrors.contexts.content pair'
      refine ⟨c, d, (Array.getElem?_setIfInBounds_ne (Ne.symm apart)).trans left, ?_, related.moved⟩
      change (s.store.contexts.push _)[j]? = some d
      rw [Array.getElem?_push, if_neg (Nat.ne_of_lt (mirrors.contexts.right_lt pair')), right]
  · intro i j r pair' found
    have tidy := mirrors.tidy pair' found
    exact ⟨tidy.distinct, tidy.apart, tidy.settled⟩

theorem step_reload (idle : s.Idle) (inside : ctx.index < s.store.contexts.size) {k : Nat}
    (opened : s.contexts[k]? = some ctx) :
    s.step (.context k .reload) = (.ok .done,
      { s with store := s.store.setContext ctx (s.store.context ctx).renewed }) := by
  have forgot : (⟨[], [], (s.store.context ctx).memo.computing⟩ : Memo) = .empty := by
    rw [idle ctx.index _ (Store.getElem?_contexts inside)]
    rfl
  rw [step_eq, perform_context opened]
  change (_, ({ s with store := s.store.setContext ctx ({ s.store.context ctx with
    memo := ⟨[], [], (s.store.context ctx).memo.computing⟩ } : Context) } : Session)) = _
  rw [forgot]
  rfl

/-- After it was reloaded, a context cannot be told from one that is built anew. -/
theorem answers_reloaded (twins : P.Twins s s) (idle : s.Idle) {k : Nat}
    (opened : s.contexts[k]? = some ctx) (later : List Operation) :
    (s.step (.context k .reload)).2.answers later = (s.rebuilt ctx).answers later := by
  have pair := List.forall₂_same.mp twins.contexts ctx (List.mem_of_getElem? opened)
  rw [step_reload idle (twins.mirrors.contexts.left_lt pair) opened]
  have computations : List.Forall₂ (P.moved ctx.index s.store.contexts.size).Computations
      s.computations s.computations :=
    twins.computations.imp fun _ _ same => ⟨same.catalog, same.deciding, same.helper, same.backend,
      same.state⟩
  have contexts : List.Forall₂
      (fun a b => (P.moved ctx.index s.store.contexts.size).contexts a.index b.index) s.contexts
      (s.rebuilt ctx).contexts := by
    refine List.forall₂_map_right_iff.mpr (List.forall₂_same.mpr fun other member => ?_)
    by_cases same : other = ctx
    · rw [if_pos same, same]
      exact .inl ⟨rfl, rfl⟩
    · rw [if_neg same]
      exact .inr ⟨fun index => same (congrArg ContextId.mk index),
        List.forall₂_same.mp twins.contexts other member⟩
  have renewed : (P.moved ctx.index s.store.contexts.size).Twins
      { s with store := s.store.setContext ctx (s.store.context ctx).renewed } (s.rebuilt ctx) :=
    ⟨mirrors_renewed twins.mirrors pair, twins.shown, computations, contexts, twins.states⟩
  exact renewed.answers_eq later

/-! ## Until a context is reloaded -/

/-- Operations change of a source nothing but its values. -/
theorem sources_step (twins : P.Twins s s) (op : Operation) :
    Kept (fun _ => True) Source.Alike s.store.sources (s.step op).2.store.sources := by
  have every : ∀ {owned : Nat → Prop} (i : Nat), owned i → True := fun _ _ => trivial
  rw [store_step]
  cases keeps : op.replaces with
  | false =>
      obtain ⟨Q, advance, _⟩ := pairsAt_operation twins keeps
      exact advance.left.sources.mono every
  | true =>
      cases op with
      | computation which op =>
          cases op with
          | perform command request =>
              cases built : s.computations[which]? with
              | none =>
                  rw [perform_missing_computation built]
                  exact .refl .refl _
              | some c =>
                  have kept := (c.keeps_rehearse (σ := s.store) command request).sources.mono every
                  rw [perform_computation built, onComputation, Computation.perform_eq, bind_assoc,
                    runFrom_bind]
                  revert kept
                  generalize runFrom (c.rehearse command request) s.store = ran
                  obtain ⟨result, σ⟩ := ran
                  cases result <;> exact fun kept => kept
          | _ => cases keeps
      | state which op =>
          cases op with
          | adopt other =>
              have same : (runFrom (s.perform (.state which (.adopt other))) s.store).2.sources =
                  s.store.sources := by
                simp only [perform, onState, held]
                cases s.states[which]? <;> cases s.states[other]? <;> rfl
              rw [same]
              exact .refl .refl _
          | _ => cases keeps
      | _ => cases keeps

/-- The operation does not reload a context. -/
def Spares (ctx : ContextId) (s : Session) (op : Operation) : Prop :=
  ¬ s.Reloads op ctx.index

/-- A session in which a context has not been reloaded since another one. -/
structure Since (room : Option Nat) (k : Nat) (ctx : ContextId) (s t : Session) : Prop where
  reached : t.Reached room
  opened : t.contexts[k]? = some ctx
  inside : ctx.index < t.store.contexts.size
  onward : (s.store.context ctx).Onward False (t.store.context ctx)
  alike : Kept (fun _ => True) Source.Alike s.store.sources t.store.sources

theorem Since.step {room : Option Nat} {k : Nat} (since : Since room k ctx s t) {op : Operation}
    (spares : Spares ctx t op) : Since room k ctx s (t.step op).2 := by
  obtain ⟨P, twins⟩ := since.reached.exists_twins
  obtain ⟨d, found, onward⟩ := (onward_step t op).kept _ _ (Store.getElem?_contexts since.inside)
  have inside := (Array.getElem?_eq_some_iff.mp found).1
  rw [Store.getElem?_contexts inside, Option.some.injEq] at found
  subst found
  exact ⟨since.reached.after [op], getElem?_of_prefix (contexts_step t op) since.opened, inside,
    ⟨onward.catalog.trans since.onward.catalog, onward.computing.trans since.onward.computing,
      fun spared => (since.onward.known spared).trans (onward.known spares)⟩,
    since.alike.trans Source.Alike.trans (sources_step twins op) fun _ _ own => own⟩

theorem step_outcome {k : Nat} (opened : s.contexts[k]? = some ctx) (table : String) :
    s.step (.context k (.outcome table)) = ((runFrom (ctx.outcome table) s.store).1.map .outcome,
      { s with store := (runFrom (ctx.outcome table) s.store).2 }) :=
  step_of_answer (perform_context opened _)

theorem step_value {k : Nat} (opened : s.contexts[k]? = some ctx) (c : Coordinate) :
    s.step (.context k (.value c)) = ((runFrom (ctx.read c) s.store).1.map .text,
      { s with store := (runFrom (ctx.read c) s.store).2 }) :=
  step_of_answer (perform_context opened _)

section

variable {room : Option Nat} {k : Nat} {u : Session}

/-- The outcome of a table that a context has given it gives again. -/
theorem outcome_since (opened : s.contexts[k]? = some ctx) (inside : ctx.index < s.store.contexts.size)
    {table : String} {o : Outcome}
    (answered : (s.step (.context k (.outcome table))).1 = .ok (.outcome o))
    (since : Since room k ctx (s.step (.context k (.outcome table))).2 u) :
    (u.step (.context k (.outcome table))).1 = .ok (.outcome o) := by
  rw [step_outcome opened] at answered since
  rw [step_outcome since.opened]
  cases ran : runFrom (ctx.outcome table) s.store with
  | mk result σ =>
    rw [ran] at answered since
    cases result with
    | error f => cases answered
    | ok o' =>
        cases answered
        obtain ⟨catalog, t, found, taken, known⟩ := ContextId.known_of_outcome inside ran
        rw [ContextId.outcome_of_known (since.onward.catalog.trans found) taken
          ((since.onward.known not_false).outcomes known)]
        rfl

/-- The text that a context has read from a table or a named condition it gives again, as long as the
name stands for the same source. -/
theorem value_since (opened : s.contexts[k]? = some ctx) (inside : ctx.index < s.store.contexts.size)
    {c : Coordinate} {id : SourceId} {text : String}
    (found : (s.store.context ctx).registry.find? (.text c.source) = some id)
    (computed : (s.store.source id).direct? c.fragment = none)
    (answered : (s.step (.context k (.value c))).1 = .ok (.text text))
    (since : Since room k ctx (s.step (.context k (.value c))).2 u)
    (still : (u.store.context ctx).registry.find? (.text c.source) = some id) :
    (u.step (.context k (.value c))).1 = .ok (.text text) := by
  rw [step_value opened] at answered since
  rw [step_value since.opened]
  cases ran : runFrom (ctx.read c) s.store with
  | mk result σ =>
    rw [ran] at answered since
    cases result with
    | error f => cases answered
    | ok text' =>
        cases answered
        have recalls := ContextId.recalls_of_read inside found computed ran
        have held := ContextId.held_of_computed computed
        obtain ⟨_, _, rfl⟩ := ContextId.value_of_evaluate ran
        obtain ⟨source, now, alike, _⟩ := since.alike _ _ held
        rw [← Store.source_of_getElem? now] at alike
        rw [ContextId.read_of_recalls still ((recalls.mono (since.onward.known not_false)).of_alike alike)]
        rfl

end

/-- Operations that do not reload a context lead to a session that is since then. -/
theorem since_of_leads {room : Option Nat} {k : Nat} (reached : s.Reached room)
    (opened : s.contexts[k]? = some ctx) (leads : s.Leads (Spares ctx) t) :
    Since room k ctx s t := by
  obtain ⟨P, twins⟩ := reached.exists_twins
  have pair := List.forall₂_same.mp twins.contexts ctx (List.mem_of_getElem? opened)
  exact leads.keeps (fun _ _ since spares => since.step spares)
    ⟨reached, opened, twins.mirrors.contexts.left_lt pair, .refl _, .refl .refl _⟩

/-- Whatever was done before and however it failed, no table is left marked, and a context that is
reloaded answers from then on as one that is built anew.  Until then it keeps what it has computed at
any depth, and gives the outcomes and the results of named conditions that it has given before. -/
theorem reloading_renews {room : Option Nat} (reached : s.Reached room) {k : Nat}
    (opened : s.contexts[k]? = some ctx) :
    (s.store.context ctx).memo.computing = [] ∧
    ((s.step (.context k .reload)).1 = .ok .done ∧ ∀ later : List Operation,
      (s.step (.context k .reload)).2.answers later = (s.rebuilt ctx).answers later) ∧
    (∀ t : Session, s.Leads (Spares ctx) t →
      (s.store.context ctx).known.Le (t.store.context ctx).known) ∧
    (∀ (table : String) (o : Outcome) (t : Session),
      (s.step (.context k (.outcome table))).1 = .ok (.outcome o) →
      (s.step (.context k (.outcome table))).2.Leads (Spares ctx) t →
      (t.step (.context k (.outcome table))).1 = .ok (.outcome o)) ∧
    ∀ (c : Coordinate) (id : SourceId) (text : String) (t : Session),
      (s.store.context ctx).registry.find? (.text c.source) = some id →
      (s.store.source id).direct? c.fragment = none →
      (s.step (.context k (.value c))).1 = .ok (.text text) →
      (s.step (.context k (.value c))).2.Leads (Spares ctx) t →
      (t.store.context ctx).registry.find? (.text c.source) = some id →
      (t.step (.context k (.value c))).1 = .ok (.text text) := by
  obtain ⟨P, twins⟩ := reached.exists_twins
  have pair := List.forall₂_same.mp twins.contexts ctx (List.mem_of_getElem? opened)
  have inside := twins.mirrors.contexts.left_lt pair
  have kept := fun op => getElem?_of_prefix (contexts_step s op) opened
  refine ⟨reached.idle _ _ (Store.getElem?_contexts inside), ⟨?_, fun later => ?_⟩,
    fun t leads => (since_of_leads reached opened leads).onward.known not_false, ?_, ?_⟩
  · rw [step_reload reached.idle inside opened]
  · exact answers_reloaded twins reached.idle opened later
  · intro table o t answered leads
    exact outcome_since opened inside answered (since_of_leads (reached.after [_]) (kept _) leads)
  · intro c id text t found computed answered leads still
    exact value_since opened inside found computed answered
      (since_of_leads (reached.after [_]) (kept _) leads) still

/-- A table that tells whether a fragment is one. -/
def glance : Table :=
  .make "T" [⟨"1", [⟨.row .condition, "x::n", "1"⟩, ⟨.row .outcome, "outcome", "one"⟩]⟩] none

/-- A context on a state whose fragment is zero. -/
def glancing : Session :=
  (start none).after
    [.build (.ofList [glance]) .empty
      (.sources [(.text "x", .stored (.text "x") [(.text "n", .text "0")] [])]),
    .computation 0 (.open .null)]

/-- What the table says, as a coordinate. -/
def glimpse : Operation :=
  .context 0 (.value (Coordinate.parse "T::outcome"))

/-- The context that has asked the table, and then has read what it says. -/
def glanced : Session := (glancing.step (.context 0 (.outcome "T"))).2

/-- The context when the fragment was made one after that. -/
def turned : Session :=
  ((glanced.step glimpse).2.step (.context 0 (.write (Coordinate.parse "x::n") (.text "1")))).2

theorem turned_renews :
    (turned.step (.context 0 (.outcome "T"))).1 = .ok (.outcome [("outcome", "else")]) ∧
    (turned.step glimpse).1 = .ok (.text "else") ∧
    (∀ later : List Operation,
      (turned.step (.context 0 .reload)).2.answers later = (turned.rebuilt ⟨0⟩).answers later) ∧
    (turned.rebuilt ⟨0⟩).answers [glimpse] = [.ok (.text "one")] := by
  have reached : glancing.Reached none := ⟨_, rfl⟩
  have spares : ∀ (s : Session) (op : ContextOperation), op ≠ .reload →
      Spares ⟨0⟩ s (.context 0 op) := by
    rintro s op other ⟨k, ctx, same, _, _⟩
    cases same
    exact other rfl
  have written : (glanced.step glimpse).2.Leads (Spares ⟨0⟩) turned :=
    .go (spares _ _ (by simp)) (.stay _)
  have opened : glancing.contexts[0]? = some ⟨0⟩ := by cbv
  have opened' : glanced.contexts[0]? = some ⟨0⟩ := by cbv
  have opened'' : turned.contexts[0]? = some ⟨0⟩ := by cbv
  obtain ⟨_, _, _, outcome, _⟩ := reloading_renews reached opened
  obtain ⟨_, _, _, _, value⟩ := reloading_renews (reached.after [_]) opened'
  obtain ⟨_, ⟨_, renews⟩, _⟩ := reloading_renews (reached.after [_, _, _]) opened''
  refine ⟨outcome "T" _ turned (by cbv) (.go (spares _ _ (by simp)) written), ?_, renews, by cbv⟩
  exact value (Coordinate.parse "T::outcome") ⟨3⟩ "else" turned (by cbv) (by cbv) (by cbv) written (by cbv)

end Session

end DecisionTables
