import Mathlib
import DecisionTables.Proofs.Interleaving

/-!
# Entry points of a computation

A computation and its decisions each open contexts on a state.  Where a computation is
built of tables or loaded from settings, both hold the same state, and commands give that
state new sources instead of replacing it.  So whatever is done with a session, its entry
points open the same contexts, and a stored source answers as it does in these.
-/

namespace DecisionTables

/-- The computation and its decisions are on one state and by one backend. -/
structure Computation.Joint (c : Computation) : Prop where
  state : c.decisions.state = c.state
  backend : c.decisions.backend = c.backend

namespace Computation

variable {c : Computation} {σ σ' : Store}

/-! ## Computations on one state -/

theorem Joint.of_tables {catalog commands : Catalog} {choice : StateChoice}
    (ran : runFrom (ofTables catalog commands choice) σ = (.ok c, σ')) : c.Joint := by
  obtain ⟨state, σ₁, _, made⟩ := runFrom_bind_value ran
  cases made
  exact ⟨rfl, rfl⟩

theorem Joint.of_settings {fs : Files} {settings : Settings} {choice : StateChoice}
    (ran : runFrom (load fs settings choice) σ = (.ok c, σ')) : c.Joint := by
  obtain ⟨tables, σ₁, _, ran⟩ := runFrom_bind_value ran
  obtain ⟨commands, σ₂, _, ran⟩ := runFrom_bind_value ran
  exact .of_tables ran

/-- The decisions open the context that the computation opens. -/
theorem Joint.open_eq (joint : c.Joint) (request : Value) :
    c.decisions.open .absent request = c.open request := by
  rw [Computation.open, ← joint.state, ← joint.backend]
  rfl

/-- The decisions decide a table in the context that the computation opens. -/
theorem Joint.decideByFacade_eq (joint : c.Joint) (table : String) (request : Value) :
    c.decisions.decide table .absent request = c.open request >>= fun ctx => ctx.outcome table := by
  rw [Decisions.decide, joint.open_eq]

/-- The computation decides a table in the context that it opens. -/
theorem Joint.decide_eq (joint : c.Joint) (table : String) :
    c.decide table .absent = c.open .null >>= fun ctx => ctx.outcome table := by
  rw [Computation.open, ← joint.backend]
  rfl

/-! ## Stored sources -/

/-- A fragment is read from a source that a context finds as by its coordinate. -/
theorem runFrom_readFrom_of_find? {ctx : ContextId} {name fragment : String} {id : SourceId}
    {source : Source}
    (found : Assoc.find? (σ.scope (σ.context ctx).registry) (.text name) = some (id, source)) :
    runFrom (ctx.readFrom id source fragment) σ = runFrom (ctx.read ⟨name, fragment⟩) σ := by
  have same : σ.resolver ctx ⟨name, fragment⟩ =
      (σ.scope (σ.context ctx).registry).readFrom σ.room id source fragment :=
    Scope.resolve_eq_readFrom found σ.room
  rw [ContextId.readFrom, runFrom_bind, runFrom_get, ContextId.read, ContextId.runFrom_evaluate, same]
  exact ctx.runFrom_evaluate _ σ

/-- A fragment of a stored source is read in a context over the state as by its coordinate. -/
theorem runFrom_stateFor {ctx : ContextId} {own : Registry} {opened : Store} {name : String}
    {id : SourceId} (stored : (σ.state c.state).find? (.text name) = some id)
    (ran : runFrom (c.open .null) σ = (.ok ctx, opened)) (fresh : σ.FreshOver opened ctx c.state own)
    (known : id.index < σ.sources.size) (fragment : String) :
    (runFrom (c.stateFor name [fragment]) σ).1 =
      (runFrom (ctx.read ⟨name, fragment⟩) opened).1.map fun text => [(fragment, text)] := by
  have found : runFrom (c.state.find name) σ = (.ok id, σ) := by
    rw [StateId.find, runFrom_bind_ok (runFrom_get σ), stored]
    rfl
  have kept : opened.source id = σ.source id := fresh.keeps.source_eq known not_false
  have inScope : Assoc.find? (opened.scope (opened.context ctx).registry) (.text name) =
      some (id, σ.source id) := by
    rw [← kept]
    refine fresh.above.find?_scope ?_
    rw [Store.state, fresh.states]
    exact stored
  rw [stateFor, runFrom_bind_ok found, runFrom_bind_ok (runFrom_get σ), runFrom_bind_ok ran, readAll, bind_assoc,
    runFrom_bind, runFrom_readFrom_of_find? inScope]
  cases runFrom (ctx.read ⟨name, fragment⟩) opened with
  | mk result τ => cases result <;> rfl

end Computation

namespace Session

variable {s : Session} {room : Option Nat} {which : Nat} {c : Computation}

/-! ## Fresh contexts -/

theorem exists_stored_of_hasState {name : String} (built : s.computations[which]? = some c)
    (has : (s.step (.computation which (.hasState name))).1 = .ok (.truth true)) :
    ∃ id, (s.store.state c.state).find? (.text name) = some id := by
  rw [step_of_answer (perform_computation built _)] at has
  have stored : (s.store.state c.state).contains (.text name) = true :=
    Answer.truth.inj (Except.ok.inj has)
  exact Option.isSome_iff_exists.mp stored

/-- The operation builds a computation of tables, or of settings that tell where these are. -/
inductive Builds : Operation → Prop where
  | tables (catalog commands : Catalog) (choice : StateSource) :
      Builds (.build catalog commands choice)
  | settings (fs : Files) (settings : Settings) (choice : StateSource) :
      Builds (.load fs settings choice)

/-- What is built is a computation on one state. -/
theorem Reached.exists_joint {s t : Session} (reached : s.Reached room) {building : Operation}
    (builds : Builds building) (built : s.step building = (.ok .done, t)) :
    ∃ c : Computation, c.Joint ∧ t.Works room s.computations.length c := by
  have reached' := reached.after [building]
  rw [Session.after, Session.after, built] at reached'
  suffices ∃ c : Computation, c.Joint ∧ t.computations = s.computations ++ [c] by
    obtain ⟨c, joint, computations⟩ := this
    exact ⟨c, joint, reached', computations ▸ List.getElem?_concat_length⟩
  cases builds with
  | tables catalog commands choice =>
      obtain ⟨c, σ, ran, rfl⟩ := exists_of_step_done (bind_assoc _ _ _).symm built
      obtain ⟨_, _, _, ran⟩ := runFrom_bind_value ran
      exact ⟨c, .of_tables ran, rfl⟩
  | settings fs settings choice =>
      obtain ⟨c, σ, ran, rfl⟩ := exists_of_step_done (bind_assoc _ _ _).symm built
      obtain ⟨_, _, _, ran⟩ := runFrom_bind_value ran
      exact ⟨c, .of_settings ran, rfl⟩

theorem Works.after (works : s.Works room which c) (later : List Operation) :
    (s.after later).Works room which c := by
  induction later generalizing s with
  | nil => exact works
  | cons op rest ih => exact ih (works.step op)

/-- Opening a context on the current state succeeds, and the context is over that state. -/
theorem Works.exists_fresh (works : s.Works room which c) :
    ∃ ctx opened own, runFrom (c.open .null) s.store = (.ok ctx, opened) ∧
      s.store.FreshOver opened ctx c.state own := by
  obtain ⟨ctx, opened, own, ran, fresh, _⟩ := ContextId.exists_open_over works.tidy.1
    (some c.decisions.catalog) (.requestOf []) c.backend
  exact ⟨ctx, opened, own, ran, fresh⟩

/-- The session with a context that was just opened. -/
def opening (s : Session) (ctx : ContextId) (opened : Store) : Session :=
  { s with store := opened, contexts := s.contexts ++ [ctx] }

variable {ctx : ContextId} {opened : Store}

theorem step_of_open {op : Operation}
    (performs : s.perform op = c.open .null >>= fun ctx => pure (.context ctx))
    (ran : runFrom (c.open .null) s.store = (.ok ctx, opened)) :
    s.step op = (.ok .done, s.opening ctx opened) := by
  rw [step_eq, performs, runFrom_bind_ok ran]
  rfl

theorem answer_opening {α : Type} {x : Engine α} {tell : α → Answer} {ask : ContextOperation}
    (asks : onContext ctx ask = x >>= fun a => pure (.answer (tell a))) :
    ((s.opening ctx opened).step (.context s.contexts.length ask)).1 =
      (runFrom x opened).1.map tell := by
  have last : (s.opening ctx opened).contexts[s.contexts.length]? = some ctx :=
    List.getElem?_concat_length
  rw [step_of_answer ((perform_context last ask).trans asks)]
  rfl

/-- An outcome that is asked for in a context that is opened for it is the one in a context that was
opened before. -/
theorem answer_outcome {op : Operation} {table : String}
    (performs : s.perform op =
      (c.open .null >>= fun ctx => ctx.outcome table) >>= fun o => pure (.answer (.outcome o)))
    (ran : runFrom (c.open .null) s.store = (.ok ctx, opened)) :
    (s.step op).1 = ((s.opening ctx opened).step (.context s.contexts.length (.outcome table))).1 := by
  rw [step_of_answer performs, runFrom_bind_ok ran]
  exact (answer_opening (x := ctx.outcome table) rfl).symm

/-- The entry points of a computation never drift apart.  Of whatever tables it was built and on
whatever state, and whatever was done with the session since, the computation and its decisions open
the same fresh context; a table has the outcome there, or fails with the fault, that the computation
and its decisions give; and a fragment of a stored source is the text, or the fault, that its
coordinate has there. -/
theorem entry_points_agree {room : Option Nat} {s₀ s₁ : Session} (reached : s₀.Reached room)
    {building : Operation} (builds : Builds building) (built : s₀.step building = (.ok .done, s₁))
    (later : List Operation) :
    let s := s₁.after later
    let which := s₀.computations.length
    let opened := (s.step (.computation which (.open .null))).2
    let ask := fun q => (opened.step (.context s.contexts.length q)).1
    s.step (.computation which (.open .null)) = (.ok .done, opened) ∧
      s.step (.computation which (.openByFacade .absent .null)) = (.ok .done, opened) ∧
      (∀ table,
        (s.step (.computation which (.decide table .absent))).1 = ask (.outcome table) ∧
        (s.step (.computation which (.decideByFacade table .absent .null))).1 =
          ask (.outcome table)) ∧
      ∀ name fragment, (s.step (.computation which (.hasState name))).1 = .ok (.truth true) →
        ∃ result : Except Fault String,
          (s.step (.computation which (.stateFor name [fragment]))).1 =
            result.map (fun text => .outcome [(fragment, text)]) ∧
          ask (.value ⟨name, fragment⟩) = result.map .text := by
  obtain ⟨c, joint, works₁⟩ := reached.exists_joint builds built
  intro s which opened ask
  have works : s.Works room which c := works₁.after later
  obtain ⟨ctx, store, own, ran, fresh⟩ := works.exists_fresh
  have opens : s.step (.computation which (.open .null)) = (.ok .done, s.opening ctx store) :=
    step_of_open (perform_computation works.built _) ran
  have same : opened = s.opening ctx store := congrArg Prod.snd opens
  have asked : ∀ q, ask q = ((s.opening ctx store).step (.context s.contexts.length q)).1 :=
    fun q => congrArg (fun t => (step t (.context s.contexts.length q)).1) same
  refine ⟨opens.trans (by rw [same]), ?_, fun table => ⟨?_, ?_⟩, fun name fragment has => ?_⟩
  · rw [same]
    refine step_of_open ((perform_computation works.built _).trans ?_) ran
    rw [← joint.open_eq]
    rfl
  · rw [asked]
    refine answer_outcome ((perform_computation works.built _).trans ?_) ran
    rw [← joint.decide_eq]
    rfl
  · rw [asked]
    refine answer_outcome ((perform_computation works.built _).trans ?_) ran
    rw [← joint.decideByFacade_eq]
    rfl
  · obtain ⟨id, stored⟩ := exists_stored_of_hasState works.built has
    have known := works.tidy.1.known id (Assoc.mem_values_of_find? stored)
    have told : (s.step (.computation which (.stateFor name [fragment]))).1 =
        (runFrom (c.stateFor name [fragment]) s.store).1.map .outcome :=
      congrArg Prod.fst (step_of_answer (perform_computation works.built _))
    refine ⟨(runFrom (ctx.read ⟨name, fragment⟩) store).1, ?_, (asked _).trans (answer_opening rfl)⟩
    rw [told, Computation.runFrom_stateFor stored ran fresh known]
    cases (runFrom (ctx.read ⟨name, fragment⟩) store).1 <;> rfl

/-- Tables to decide by; the state hides the first of them. -/
def reviewing : Catalog :=
  .ofList [.make "rank" [⟨"1", [⟨.row .outcome, "level", "computed"⟩]⟩] none,
    .make "review" [⟨"1", [⟨.row .condition, "rank::level", "stored"⟩,
      ⟨.row .condition, "market::shop", "3"⟩, ⟨.row .outcome, "verdict", "passed"⟩]⟩] none]

/-- A command. -/
def pricing : Catalog :=
  .ofList [.make "raise" [⟨"1", [⟨.row .assignment, "market::shop", "2"⟩]⟩] none]

/-- A state whose first source is named as a table. -/
def markets : Value :=
  .mapping [(.text "rank", .mapping [(.text "level", .text "stored")]),
    (.text "market", .mapping [(.text "shop", .scalar (.int 1))])]

/-- The computation that is built of these. -/
def market : Operation := .build reviewing pricing (.contents markets)

/-- A command succeeds, another one fails, and a context that is opened afterwards writes. -/
def trading : List Operation :=
  [.computation 0 (.perform "raise" .null), .computation 0 (.perform "missing" .null),
    .computation 0 (.open .null), .context 0 (.write ⟨"market", "shop"⟩ (.text "3"))]

/-- The session after that. -/
def traded : Session := ((start none).step market).2.after trading

theorem market_entry_points :
    ((start none).step market).2.answers trading =
      [.ok .done, .error (.engine (.unknownTable "missing")), .ok .done, .ok .done] ∧
    (traded.step (.computation 0 (.decide "review" .absent))).1 =
      .ok (.outcome [("verdict", "passed")]) ∧
    (traded.step (.computation 0 (.decideByFacade "review" .absent .null))).1 =
      .ok (.outcome [("verdict", "passed")]) ∧
    (traded.step (.computation 0 (.stateFor "rank" ["level"]))).1 =
      .ok (.outcome [("level", "stored")]) := by
  have reached : (start none).Reached none := ⟨[], rfl⟩
  have built : ((start none).step market).1 = .ok .done := by cbv
  have told : (traded.step (.computation 0 (.decide "review" .absent))).1 =
      .ok (.outcome [("verdict", "passed")]) := by cbv
  have has : (traded.step (.computation 0 (.hasState "rank"))).1 = .ok (.truth true) := by cbv
  have text : ((traded.step (.computation 0 (.open .null))).2.step
      (.context traded.contexts.length (.value ⟨"rank", "level"⟩))).1 = .ok (.text "stored") := by
    cbv
  have agree := entry_points_agree reached (.tables reviewing pricing (.contents markets))
    (Prod.ext built rfl) trading
  have first : (start none).computations.length = 0 := rfl
  simp only [first] at agree
  obtain ⟨_, _, decided, read⟩ := agree
  obtain ⟨decide, byFacade⟩ := decided "review"
  obtain ⟨result, state, value⟩ := read "rank" "level" has
  refine ⟨by cbv, told, byFacade.trans (decide.symm.trans told), ?_⟩
  cases result with
  | ok found =>
      cases value.symm.trans text
      exact state
  | error f => cases value.symm.trans text

end Session

end DecisionTables
