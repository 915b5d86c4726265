import DecisionTables.Proofs.Effects
import DecisionTables.Proofs.Erasing

/-!
# Checkpoints

A stored state that was built from a mapping of mappings comes back from its export: the
names, the values and the kinds of its sources are all there.  So a computation that is
resumed from what is exported stands for the one that goes on.  Only the decisions that
the facade makes on a state of its own are not about what was exported.
-/

namespace DecisionTables

/-! ## Export and import -/

namespace StateId

variable {σ τ : Store} {id : StateId}

/-- Every source of the state has stored values without defaults, and the name that it is under. -/
def Plain (σ : Store) (id : StateId) : Prop :=
  ∀ entry ∈ σ.state id, ∃ values, σ.source entry.2 = .stored entry.1 values []

/-- What differs at most in values from a plain state is plain. -/
theorem Plain.of_alike (plain : Plain σ id) (alike : StatesAlike σ τ id id) : Plain τ id := by
  intro entry member
  obtain ⟨before, inside, name, sources⟩ := exists_of_forall₂_mem alike.registries member
  obtain ⟨values, held⟩ := plain before inside
  have same := sources.reset_eq
  rw [held, name] at same
  revert same
  generalize τ.source entry.2 = source
  obtain ⟨self, content⟩ := source
  intro same
  cases content with
  | memory kind values' defaults =>
      cases same
      exact ⟨values', rfl⟩
  | _ => cases same

end StateId

/-! ## Facades on another state -/

/-- The same computation, but for the state that its facade was given. -/
inductive Computation.Akin (c : Computation) : Computation → Prop where
  | facade (id : StateId) : Akin c { c with decisions := { c.decisions with state := id } }

/-- The operation does not ask the facade, which has a state of its own, for a decision. -/
def Operation.own : Operation → Bool
  | .computation _ (.decideByFacade _ _ _) => false
  | _ => true

/-- A state is named. -/
def StateSource.given : StateSource → Bool
  | .absent => false
  | .contents .null => false
  | _ => true

/-- The operation asks a facade without naming a state, so that the facade takes its own. -/
def Operation.leans : Operation → Bool
  | .computation _ (.decideByFacade _ choice _) => !choice.given
  | .computation _ (.openByFacade choice _) => !choice.given
  | _ => false

/-- The same answer or the same object, but for the state of a facade. -/
inductive Reply.Akin : Reply → Reply → Prop where
  | same (reply : Reply) : Akin reply reply
  | computation {c d : Computation} (akin : c.Akin d) : Akin (.computation c) (.computation d)

namespace Session

/-- The same sessions, but for the states of the facades. -/
structure Akin (s t : Session) : Prop where
  store : t.store = s.store
  computations : List.Forall₂ Computation.Akin s.computations t.computations
  contexts : t.contexts = s.contexts
  states : t.states = s.states

theorem Akin.withStore {s t : Session} (akin : s.Akin t) (σ : Store) :
    Akin { s with store := σ } { t with store := σ } :=
  { akin with store := rfl }

theorem decide_akin {c d : Computation} (akin : c.Akin d) (table : String) (choice : StateChoice) :
    d.decide table choice = c.decide table choice := by
  obtain ⟨id⟩ := akin
  cases choice with
  | contents value =>
      cases value with
      | scalar s => cases s <;> rfl
      | _ => rfl
  | _ => rfl

/-- Two steps that do the same to a store, with replies that are the same but for facades. -/
def AkinAt (σ : Store) (x y : Engine Reply) : Prop :=
  (runFrom y σ).2 = (runFrom x σ).2 ∧ Matches Reply.Akin (runFrom x σ).1 (runFrom y σ).1

theorem akinAt_of_eq {σ : Store} {x y : Engine Reply} (same : y = x) : AkinAt σ x y := by
  rw [same]
  refine ⟨rfl, ?_⟩
  generalize (runFrom x σ).1 = result
  cases result with
  | ok reply => exact .value (.same reply)
  | error f => exact .fault f

/-- Where a state is named, the facade takes that one. -/
theorem open_akin {c d : Computation} (akin : c.Akin d) {α : Type} {choice : StateSource}
    (given : choice.given = true) (s : Session) (request : Value) (rest : ContextId → Engine α) :
    (s.choose choice >>= fun chosen => d.decisions.open chosen request >>= rest) =
      s.choose choice >>= fun chosen => c.decisions.open chosen request >>= rest := by
  obtain ⟨id⟩ := akin
  cases choice with
  | absent => cases given
  | contents value =>
      cases value with
      | scalar s =>
          cases s with
          | null => cases given
          | _ => rfl
      | _ => rfl
  | sources sources => simp only [choose, bind_assoc, pure_bind]; rfl
  | held state => simp only [choose, bind_assoc, pure_bind]; rfl

theorem akinAt_onComputation {s t : Session} (akin : s.Akin t) {c d : Computation}
    (computations : c.Akin d) {which : Nat} {op : ComputationOperation}
    (stands : (Operation.computation which op).leans = false) (σ : Store) :
    AkinAt σ (s.onComputation c op) (t.onComputation d op) := by
  have chosen : ∀ choice, t.choose choice = s.choose choice := by
    intro choice
    cases choice with
    | held state => rw [choose, choose, akin.states]
    | _ => rfl
  cases op with
  | decide table choice =>
      apply akinAt_of_eq
      rw [onComputation, onComputation, chosen]
      simp only [decide_akin computations]
  | decideByFacade table choice request =>
      have given : choice.given = true := by simpa [Operation.leans] using stands
      apply akinAt_of_eq
      simp only [onComputation, chosen, Decisions.decide, bind_assoc]
      exact open_akin computations given s request _
  | openByFacade choice request =>
      have given : choice.given = true := by simpa [Operation.leans] using stands
      apply akinAt_of_eq
      simp only [onComputation, chosen]
      exact open_akin computations given s request _
  | withState contents =>
      obtain ⟨id⟩ := computations
      simp only [AkinAt, onComputation, Computation.withState, bind_assoc, runFrom_bind]
      generalize runFrom (StateId.ofNested contents) σ = ran
      obtain ⟨result, σ'⟩ := ran
      cases result with
      | ok state => exact ⟨rfl, .value (.computation (.facade id))⟩
      | error f => exact ⟨rfl, .fault f⟩
  | _ =>
      obtain ⟨id⟩ := computations
      exact akinAt_of_eq rfl

theorem akinAt_perform {s t : Session} (akin : s.Akin t) {op : Operation}
    (stands : op.leans = false) (σ : Store) :
    AkinAt σ (s.perform op) (t.perform op) := by
  cases op with
  | computation which op =>
      cases built : s.computations[which]? with
      | none =>
          have missing : t.computations[which]? = none := by
            rw [List.getElem?_eq_none_iff, ← akin.computations.length_eq]
            exact List.getElem?_eq_none_iff.mp built
          rw [perform_missing_computation built, perform_missing_computation missing]
          exact ⟨rfl, .fault _⟩
      | some c =>
          obtain ⟨inside, rfl⟩ := List.getElem?_eq_some_iff.mp built
          have inside' := inside.trans_eq akin.computations.length_eq
          rw [perform_computation built, perform_computation (List.getElem?_eq_getElem inside')]
          exact akinAt_onComputation akin (akin.computations.get inside inside') stands σ
  | _ =>
      apply akinAt_of_eq
      obtain ⟨_, computations, contexts, states⟩ := s
      obtain ⟨_, computations', contexts', states'⟩ := t
      obtain ⟨_, _, rfl, rfl⟩ := akin
      rfl

theorem Akin.step {s t : Session} (akin : s.Akin t) {op : Operation} (stands : op.leans = false) :
    (t.step op).1 = (s.step op).1 ∧ (s.step op).2.Akin (t.step op).2 := by
  have performed := akinAt_perform akin stands s.store
  rw [step_eq, step_eq, akin.store]
  revert performed
  unfold AkinAt
  generalize runFrom (s.perform op) s.store = left
  generalize runFrom (t.perform op) s.store = right
  obtain ⟨left, σ⟩ := left
  obtain ⟨right, τ⟩ := right
  rintro ⟨rfl, replies⟩
  have still := akin.withStore τ
  cases replies with
  | fault f => exact ⟨rfl, still⟩
  | value related =>
      cases related with
      | same =>
          rename_i reply
          cases reply with
          | answer a => exact ⟨rfl, still⟩
          | computation c =>
              exact ⟨rfl, { still with
                computations := List.rel_append still.computations (.cons (.facade _) .nil) }⟩
          | context ctx =>
              exact ⟨rfl, { still with contexts := congrArg (· ++ [ctx]) still.contexts }⟩
          | state id => exact ⟨rfl, { still with states := congrArg (· ++ [id]) still.states }⟩
      | computation related =>
          exact ⟨rfl, { still with
            computations := List.rel_append still.computations (.cons related .nil) }⟩

/-- Whatever is done without the states of the facades answers the same. -/
theorem Akin.answers_eq {s t : Session} (akin : s.Akin t) {ops : List Operation}
    (stand : ∀ op ∈ ops, op.leans = false) : t.answers ops = s.answers ops := by
  induction ops generalizing s t with
  | nil => rfl
  | cons op rest ih =>
      obtain ⟨same, akin'⟩ := akin.step (stand op List.mem_cons_self)
      rw [answers, answers, same, ih akin' fun later member =>
        stand later (List.mem_cons_of_mem _ member)]

/-! ## Decisions of the facades -/

/-- The session in which nothing is known but one computation. -/
def only (s : Session) (c : Computation) : Session :=
  ⟨s.store, [c], [], []⟩

/-- The names for someone who knows nothing but the computation in a place, which comes first. -/
def alone (s : Session) (which : Nat) : Naming where
  computations
    | 0 => which
    | i + 1 => s.computations.length + i
  contexts i := s.contexts.length + i
  states i := s.states.length + i

/-- A run in which a context writes to the state. -/
def marked : List Operation :=
  [.computation 0 (.perform "mark" .null), .computation 0 (.open .null),
    .context 0 (.write ⟨"counter", "n"⟩ (.text "5"))]

end Session

end DecisionTables
