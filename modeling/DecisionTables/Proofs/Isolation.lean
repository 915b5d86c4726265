import Mathlib
import DecisionTables.Proofs.Reaching

/-!
# Self-tests are isolated

A self-test runs on reset copies.  Operations change the values of a stored state, but
never the names, the kinds and the defaults of its sources, so a test gives after any
history what it gave before, and it leaves nothing behind.
-/

namespace DecisionTables

/-! ## States that differ in values -/

theorem SourcesAlike.trans {ρ σ τ : Store} {i j k : SourceId} (first : SourcesAlike ρ σ i j)
    (second : SourcesAlike σ τ j k) : SourcesAlike ρ τ i k := by
  obtain ⟨s, t, left, middle, alike⟩ := first
  obtain ⟨t', u, middle', right, alike'⟩ := second
  rw [middle] at middle'
  obtain rfl := Option.some.inj middle'
  exact ⟨s, u, left, right, Eq.trans alike alike'⟩

theorem RegistriesAlike.trans {ρ σ τ : Store} {q r s : Registry} (first : RegistriesAlike ρ σ q r)
    (second : RegistriesAlike σ τ r s) : RegistriesAlike ρ τ q s := by
  refine forall₂_trans ?_ first second
  rintro e f g ⟨name, alike⟩ ⟨name', alike'⟩
  exact ⟨name.trans name', alike.trans alike'⟩

theorem StatesAlike.trans {ρ σ τ : Store} {i j k : StateId} (first : StatesAlike ρ σ i j)
    (second : StatesAlike σ τ j k) : StatesAlike ρ τ i k := by
  obtain ⟨q, r, left, middle, alike⟩ := first
  obtain ⟨r', s, middle', right, alike'⟩ := second
  rw [middle] at middle'
  obtain rfl := Option.some.inj middle'
  exact ⟨q, s, left, right, alike.trans alike'⟩

/-! ## Copies -/

section

variable {P : Pairing} {ρ σ σ' : Store}

/-- A copy of a state has the names, kinds and defaults of the state. -/
theorem StateId.alike_of_copy (mirrors : P.Mirrors σ σ) {id working : StateId}
    (pair : P.states id.index id.index) (run : runFrom id.copy σ = (.ok working, σ')) :
    StatesAlike σ σ' id working := by
  obtain ⟨r, σ₁, copied, _, entries⟩ := StateId.exists_copy (mirrors.state_tidy pair)
  rw [run] at copied
  cases copied
  obtain ⟨q, _, found, _⟩ := mirrors.states.content pair
  have same : σ.state id = q := by
    rw [Store.state, Array.getD_eq_getD_getElem?, found]
    rfl
  rw [same] at entries
  refine ⟨q, r, found, Array.getElem?_push_size, entries.imp fun _ _ both => ⟨both.1, ?_⟩⟩
  obtain ⟨s, held, held'⟩ := both.2
  exact ⟨s, s, held, held', .refl s⟩

/-- Giving a state the sources of an alike state keeps every state alike to what it was. -/
theorem StatesAlike.adopt {id state working : StateId} (alike : StatesAlike ρ σ id id)
    (adopted : state = id → StatesAlike ρ σ id working) :
    StatesAlike ρ (σ.setState state (σ.state working)) id id := by
  obtain ⟨r, s, left, right, registries⟩ := alike
  by_cases replaced : state.index = id.index
  · have replaces : state = id := congrArg StateId.mk replaced
    obtain ⟨r', s', left', right', registries'⟩ := adopted replaces
    have same : σ.state working = s' := by
      rw [Store.state, Array.getD_eq_getD_getElem?, right']
      rfl
    refine ⟨r', s', left', ?_, registries'⟩
    have inside := (Array.getElem?_eq_some_iff.mp right).1
    rw [same, Store.setState, replaced]
    exact Array.getElem?_setIfInBounds_self_of_lt inside
  · refine ⟨r, s, left, ?_, registries⟩
    rw [Store.setState]
    exact (Array.getElem?_setIfInBounds_ne replaced).trans right

/-- A command keeps every state alike to what it was, also the state that it replaces. -/
theorem StatesAlike.perform (mirrors : P.Mirrors σ σ) {c : Computation}
    (state : P.states c.state.index c.state.index) (command : String) (request : Value)
    {id : StateId} (alike : StatesAlike ρ σ id id) :
    StatesAlike ρ (runFrom (c.perform command request) σ).2 id id := by
  have split : c.perform command request =
      c.state.copy >>= fun working =>
        c.workOn command request working >>= fun _ => c.state.adopt working := by
    simp only [Computation.perform, Computation.workOn, bind_assoc]
  rw [split]
  have still : Keeps Owned.nothing ρ ρ := .refl ρ
  obtain ⟨Q, σ₁, _, advance, ⟨f, run, _⟩ | ⟨working, _, run, run', pair⟩⟩ :=
    (pairsAt_stateCopy mirrors state).run
  · rw [runFrom_bind_fault run]
    exact alike.keep still advance.left
  · rw [runFrom_bind_ok run]
    cases run.symm.trans run'
    have copy := StateId.alike_of_copy mirrors state run
    have alike₁ := alike.keep still advance.left
    have worked := pairsAt_workOn advance.mirrors (rfl : c.decisions.catalog = _)
      (rfl : c.backend = _) command request pair
    obtain ⟨Q', σ₂, _, advance', ⟨f, run, _⟩ | ⟨_, _, run, _⟩⟩ := worked.run
    · rw [runFrom_bind_fault run]
      exact alike₁.keep still advance'.left
    · rw [runFrom_bind_ok run]
      refine (alike₁.keep still advance'.left).adopt fun replaces => ?_
      rw [replaces] at copy
      exact (alike.trans copy).keep still advance'.left

end

/-! ## Histories -/

/-- The operation hands one stored state the sources of another by its handle. -/
def Operation.adopts : Operation → Bool
  | .state _ (.adopt _) => true
  | _ => false

namespace Session

section

variable {P : Pairing} {ρ : Store} {s : Session}

/-- One operation keeps a state alike to what it was. -/
theorem alike_step (twins : P.Twins s s) {op : Operation} (apart : op.adopts = false)
    {id : StateId} (alike : StatesAlike ρ s.store id id) :
    StatesAlike ρ (s.step op).2.store id id := by
  have still : Keeps Owned.nothing ρ ρ := .refl ρ
  rw [store_step]
  cases keeps : op.replaces with
  | false =>
      obtain ⟨Q, advance, _⟩ := pairsAt_operation twins keeps
      exact alike.keep still advance.left
  | true =>
      cases op with
      | computation which op =>
          cases op with
          | perform command request =>
              cases built : s.computations[which]? with
              | none =>
                  rw [perform_missing_computation built]
                  exact alike
              | some c =>
                  rw [perform_computation built]
                  have self := List.forall₂_same.mp twins.computations c
                    (List.mem_of_getElem? built)
                  have performed := alike.perform twins.mirrors self.state command request
                  change StatesAlike ρ (runFrom (c.perform command request >>= fun _ =>
                    pure (Reply.answer Answer.done)) s.store).2 id id
                  rw [runFrom_bind]
                  revert performed
                  generalize runFrom (c.perform command request) s.store = ran
                  obtain ⟨result, σ⟩ := ran
                  cases result <;> exact fun performed => performed
          | _ => cases keeps
      | state which op =>
          cases op with
          | adopt other => cases apart
          | _ => cases keeps
      | _ => cases keeps

/-- A history keeps a state alike to what it was. -/
theorem alike_after (twins : P.Twins s s) {history : List Operation}
    (apart : ∀ op ∈ history, op.adopts = false) {id : StateId}
    (alike : StatesAlike ρ s.store id id) : StatesAlike ρ (s.after history).store id id := by
  induction history generalizing P s with
  | nil => exact alike
  | cons op rest ih =>
      obtain ⟨_, Q, _, twins'⟩ := twins.step op
      exact ih twins' (fun later member => apart later (List.mem_cons_of_mem _ member))
        (alike_step twins (apart op List.mem_cons_self) alike)

/-- A computation keeps its place. -/
theorem computations_after (s : Session) (history : List Operation) :
    s.computations <+: (s.after history).computations := by
  induction history generalizing s with
  | nil => exact List.prefix_rfl
  | cons op rest ih => exact (computations_step s op).trans (ih _)

/-! ## Self-tests -/

theorem step_selfTest {which : Nat} {c : Computation} (built : s.computations[which]? = some c)
    (tests : Option Catalog) :
    s.step (.computation which (.selfTest tests)) =
      ((runFrom (c.selfTest tests) s.store).1.map .report,
        { s with store := (runFrom (c.selfTest tests) s.store).2 }) :=
  step_of_answer (perform_computation built _)

theorem step_verify {which : Nat} {ctx : ContextId} (opened : s.contexts[which]? = some ctx)
    (tests : Catalog) :
    s.step (.context which (.verify tests)) =
      ((runFrom (Report.ofCatalog ctx tests) s.store).1.map .report,
        { s with store := (runFrom (Report.ofCatalog ctx tests) s.store).2 }) :=
  step_of_answer (perform_context opened _)

/-- A self-test only adds to the store. -/
theorem keeps_selfTest {σ : Store} {c : Computation} (alike : StatesAlike σ σ c.state c.state)
    (tests : Option Catalog) : Keeps Owned.nothing σ (runFrom (c.selfTest tests) σ).2 := by
  obtain ⟨Q, advance, _⟩ := pairsAt_selfTest (Pairing.mirrors_blank rfl)
    (rfl : c.decisions.catalog = _) (rfl : c.backend = _) alike tests
  exact Pairing.keeps_of_blank advance

/-- States that differ at most in values give the same self-test. -/
theorem selfTest_eq {σ τ : Store} (room : σ.room = τ.room) {c : Computation}
    (alike : StatesAlike σ τ c.state c.state) (tests : Option Catalog) :
    (runFrom (c.selfTest tests) σ).1 = (runFrom (c.selfTest tests) τ).1 := by
  obtain ⟨Q, _, results⟩ := pairsAt_selfTest (Pairing.mirrors_blank room)
    (rfl : c.decisions.catalog = _) (rfl : c.backend = _) alike tests
  exact results.eq

/-- The pairing of two traces alone, whatever they have to show. -/
def tracesOnly (i j : TraceId) : Pairing :=
  { Pairing.apart (fun _ _ => True) trivial fun _ _ => trivial with
    traces := orPair (fun _ _ => False) i.index j.index }

theorem mirrors_tracesOnly {σ τ : Store} (room : σ.room = τ.room) {i j : TraceId} {t u : Trace}
    (shown : σ.traces[i.index]? = some t) (shown' : τ.traces[j.index]? = some u) :
    (tracesOnly i j).Mirrors σ τ := by
  refine ⟨room, .empty _ _, .empty _ _, .empty _ _, ⟨?_, ?_⟩, fun impossible => impossible.elim⟩
  · rintro i j k l (impossible | ⟨rfl, rfl⟩) (impossible' | ⟨rfl, rfl⟩)
    · exact impossible.elim
    · exact impossible.elim
    · exact impossible'.elim
    · exact ⟨fun _ => rfl, fun _ => rfl⟩
  · rintro i j (impossible | ⟨rfl, rfl⟩)
    · exact impossible.elim
    · exact ⟨t, u, shown, shown', trivial⟩

/-- Contexts that differ at most in values and memory can be tested from alike. -/
theorem testable_tracesOnly {σ τ : Store} {ctx ctx' : ContextId} {c d : Context}
    (left : σ.contexts[ctx.index]? = some c) (right : τ.contexts[ctx'.index]? = some d)
    (alike : ContextsAlike σ τ c d) : Testable (tracesOnly c.trace d.trace) σ τ ctx ctx' := by
  refine .alike left right ?_ ?_ alike (.inr ⟨rfl, rfl⟩)
  · exact fun ⟨_, impossible⟩ => impossible
  · exact fun ⟨_, impossible⟩ => impossible

/-- Contexts that differ at most in values and memory give the same tests. -/
theorem ofCatalog_eq {σ τ : Store} (room : σ.room = τ.room) {ctx ctx' : ContextId}
    {c d : Context} {t u : Trace} (left : σ.contexts[ctx.index]? = some c)
    (right : τ.contexts[ctx'.index]? = some d) (shown : σ.traces[c.trace.index]? = some t)
    (shown' : τ.traces[d.trace.index]? = some u) (alike : ContextsAlike σ τ c d)
    (tests : Catalog) :
    (runFrom (Report.ofCatalog ctx tests) σ).1 = (runFrom (Report.ofCatalog ctx' tests) τ).1 := by
  obtain ⟨Q, _, results⟩ := Report.pairsAt_ofCatalog (mirrors_tracesOnly room shown shown')
    (testable_tracesOnly left right alike) tests
  exact results.eq

/-- A context of a session that was reached is in the store, and so is its trace. -/
theorem exists_context (twins : P.Twins s s) {which : Nat} {ctx : ContextId}
    (opened : s.contexts[which]? = some ctx) :
    s.store.contexts[ctx.index]? = some (s.store.context ctx) ∧
      ∃ t, s.store.traces[(s.store.context ctx).trace.index]? = some t := by
  have pair := List.forall₂_same.mp twins.contexts ctx (List.mem_of_getElem? opened)
  obtain ⟨c, _, found, _⟩ := twins.mirrors.contexts.content pair
  obtain ⟨t, _, shown, _⟩ := twins.mirrors.traces.content (twins.mirrors.context_rel pair).trace
  refine ⟨?_, t, shown⟩
  rw [Store.context, Array.getD_eq_getD_getElem?, found]
  rfl

/-- A self-test gives after any history what it gave before, and it changes no later answer.
Contexts that differ at most in values and in what they remember are tested alike. -/
theorem self_tests_are_isolated {room : Option Nat} (reached : s.Reached room) :
    (∀ which < s.computations.length, ∀ tests : Option Catalog,
      (∀ history : List Operation, (∀ op ∈ history, op.adopts = false) →
        ((s.after history).step (.computation which (.selfTest tests))).1 =
          (s.step (.computation which (.selfTest tests))).1) ∧
      ∀ later : List Operation,
        (s.step (.computation which (.selfTest tests))).2.answers later = s.answers later) ∧
    ∀ (t : Session) (i j : Nat) (ctx ctx' : ContextId), t.Reached room →
      s.contexts[i]? = some ctx → t.contexts[j]? = some ctx' →
      ContextsAlike s.store t.store (s.store.context ctx) (t.store.context ctx') →
      ∀ tests : Catalog,
        (s.step (.context i (.verify tests))).1 = (t.step (.context j (.verify tests))).1 := by
  obtain ⟨P, twins⟩ := reached.exists_twins
  constructor
  · intro which built tests
    have found : s.computations[which]? = some s.computations[which] :=
      List.getElem?_eq_getElem built
    have self := List.forall₂_same.mp twins.computations _ (List.mem_of_getElem? found)
    have alike := twins.mirrors.statesAlike self.state
    constructor
    · intro history apart
      obtain ⟨more, appended⟩ := computations_after s history
      have kept : (s.after history).computations[which]? = some s.computations[which] := by
        rw [← appended, List.getElem?_append_left built, found]
      have room_eq := reached.room_eq.trans (reached.after history).room_eq.symm
      rw [step_selfTest kept, step_selfTest found,
        selfTest_eq room_eq (alike_after twins apart alike) tests]
    · intro later
      rw [step_selfTest found]
      exact twins.answers_of_keeps (keeps_selfTest alike tests) later
  · intro t i j ctx ctx' reached' opened opened' contexts tests
    obtain ⟨Q, twins'⟩ := reached'.exists_twins
    obtain ⟨left, u, shown⟩ := exists_context twins opened
    obtain ⟨right, u', shown'⟩ := exists_context twins' opened'
    have room_eq := reached.room_eq.trans reached'.room_eq.symm
    rw [step_verify opened, step_verify opened',
      ofCatalog_eq room_eq left right shown shown' contexts tests]

end

/-- A computation that counts, and a context with a request of its own. -/
def counting (request : String) : List Operation :=
  [.openBare (.requestOf [(.text "amount", .text request)]),
    .build (.ofList [.make "count" [⟨"1", [⟨.row .assignment, "counter::n", "1"⟩]⟩] none]) .empty
      (.contents (.mapping [(.text "counter", .mapping [(.text "n", .scalar (.int 0))])]))]

theorem contextsAlike_counting (left right : String) :
    ContextsAlike ((start none).after (counting left)).store
      ((start none).after (counting right)).store
      (((start none).after (counting left)).store.context ⟨0⟩)
      (((start none).after (counting right)).store.context ⟨0⟩) := by
  refine ⟨rfl, rfl, ⟨[], [], rfl, rfl, .nil⟩, ⟨_, _, rfl, rfl, rfl⟩, ?_⟩
  exact .cons ⟨rfl, _, _, rfl, rfl, rfl⟩ (.cons ⟨rfl, _, _, rfl, rfl, rfl⟩ .nil)

theorem counting_is_isolated :
    (((start none).after (counting "1")).after
        [.computation 0 .state, .state 0 (.write "counter" "n" (.text "7"))] |>.step
        (.computation 0 (.selfTest none))).1 =
      (((start none).after (counting "1")).step (.computation 0 (.selfTest none))).1 ∧
    (((start none).after (counting "1")).step (.computation 0 (.selfTest none))).2.answers
        [.computation 0 .storedState] =
      ((start none).after (counting "1")).answers [.computation 0 .storedState] ∧
    (((start none).after (counting "1")).step (.context 0 (.verify .empty))).1 =
      (((start none).after (counting "2")).step (.context 0 (.verify .empty))).1 := by
  have reached : ((start none).after (counting "1")).Reached none := ⟨_, rfl⟩
  have built : 0 < ((start none).after (counting "1")).computations.length := by
    cbv
  obtain ⟨isolated, alike⟩ := self_tests_are_isolated reached
  obtain ⟨same, silent⟩ := isolated 0 built none
  refine ⟨same _ ?_, silent _, ?_⟩
  · decide
  · exact alike _ 0 0 ⟨0⟩ ⟨0⟩ ⟨counting "2", rfl⟩ (by cbv) (by cbv) (contextsAlike_counting _ _) _

end Session

end DecisionTables
