import DecisionTables.Proofs.Replay

/-!
# Names for the objects of a session

An operation names an object by its place among those of its kind.  Where two sessions
hold the same objects in other places, the same operations under other names do the
same and answer the same.
-/

namespace DecisionTables

/-! ## Places in lists -/

/-- What a list holds, another one holds in a new place, and so with what is added to both. -/
structure Finds {α : Type} (place : Nat → Nat) (xs ys : List α) : Prop where
  found : ∀ i, ys[place i]? = xs[i]?
  next : ∀ i, place (xs.length + i) = ys.length + i

namespace Finds

variable {α : Type} {place : Nat → Nat} {xs ys : List α}

theorem append (finds : Finds place xs ys) (zs : List α) :
    Finds place (xs ++ zs) (ys ++ zs) := by
  constructor
  · intro i
    by_cases inside : i < xs.length
    · have found := finds.found i
      rw [List.getElem?_eq_getElem inside] at found
      have inside' := (List.getElem?_eq_some_iff.mp found).1
      rw [List.getElem?_append_left inside', List.getElem?_append_left inside, finds.found]
    · obtain ⟨j, rfl⟩ := Nat.exists_eq_add_of_le (Nat.le_of_not_lt inside)
      rw [finds.next, List.getElem?_append_right (Nat.le_add_right _ _),
        List.getElem?_append_right (Nat.le_add_right _ _), Nat.add_sub_cancel_left,
        Nat.add_sub_cancel_left]
  · intro i
    rw [List.length_append, List.length_append, Nat.add_assoc, Nat.add_assoc, finds.next]

theorem held_eq (finds : Finds place xs ys) (i : Nat) :
    Session.held ys (place i) = Session.held xs i := by
  rw [Session.held, Session.held, finds.found]

end Finds

/-- The place of an object among some more, when those after the first few are passed over. -/
def past (few all : Nat) (i : Nat) : Nat :=
  if i < few then i else i + (all - few)

theorem past_of_lt {few all i : Nat} (inside : i < few) : past few all i = i := by
  rw [past, if_pos inside]

theorem finds_past {α : Type} {xs ys : List α} (more : xs <+: ys) :
    Finds (past xs.length ys.length) xs ys := by
  have longer := more.length_le
  constructor
  · intro i
    unfold past
    split
    · rename_i inside
      rw [List.getElem?_eq_getElem inside, more.getElem inside]
      exact List.getElem?_eq_getElem _
    · rw [List.getElem?_eq_none (by omega), List.getElem?_eq_none (by omega)]
  · intro i
    rw [past, if_neg (by omega)]
    omega

/-! ## Other names -/

/-- The new places of computations, contexts and states. -/
structure Naming where
  computations : Nat → Nat
  contexts : Nat → Nat
  states : Nat → Nat

def StateSource.renamed (place : Nat → Nat) : StateSource → StateSource
  | .held state => .held (place state)
  | choice => choice

def ComputationOperation.renamed (ρ : Naming) : ComputationOperation → ComputationOperation
  | .decide table choice => .decide table (choice.renamed ρ.states)
  | .decideByFacade table choice request =>
    .decideByFacade table (choice.renamed ρ.states) request
  | .openByFacade choice request => .openByFacade (choice.renamed ρ.states) request
  | op => op

def StateOperation.renamed (ρ : Naming) : StateOperation → StateOperation
  | .adopt other => .adopt (ρ.states other)
  | op => op

/-- The operation with new names for the objects that it is about. -/
def Operation.renamed (ρ : Naming) : Operation → Operation
  | .build catalog commands choice => .build catalog commands (choice.renamed ρ.states)
  | .buildWith catalog backend choice => .buildWith catalog backend (choice.renamed ρ.states)
  | .load fs settings choice => .load fs settings (choice.renamed ρ.states)
  | .newState choice => .newState (choice.renamed ρ.states)
  | .computation which op => .computation (ρ.computations which) (op.renamed ρ)
  | .context which op => .context (ρ.contexts which) op
  | .state which op => .state (ρ.states which) (op.renamed ρ)
  | op => op

/-! ## Operations within a session -/

def StateSource.within (s : Session) : StateSource → Bool
  | .held state => state < s.states.length
  | _ => true

def ComputationOperation.within (s : Session) : ComputationOperation → Bool
  | .decide _ choice => choice.within s
  | .decideByFacade _ choice _ => choice.within s
  | .openByFacade choice _ => choice.within s
  | _ => true

def StateOperation.within (s : Session) : StateOperation → Bool
  | .adopt other => other < s.states.length
  | _ => true

/-- The operation is about objects that the session holds. -/
def Operation.within (s : Session) : Operation → Bool
  | .build _ _ choice => choice.within s
  | .buildWith _ _ choice => choice.within s
  | .load _ _ choice => choice.within s
  | .newState choice => choice.within s
  | .computation which op => which < s.computations.length && op.within s
  | .context which _ => which < s.contexts.length
  | .state which op => which < s.states.length && op.within s
  | _ => true

/-- The objects of a session keep their names. -/
structure Naming.Fixes (ρ : Naming) (s : Session) : Prop where
  computations : ∀ i < s.computations.length, ρ.computations i = i
  contexts : ∀ i < s.contexts.length, ρ.contexts i = i
  states : ∀ i < s.states.length, ρ.states i = i

section

variable {ρ : Naming} {s : Session}

theorem StateSource.renamed_of_within (fixes : ρ.Fixes s) {choice : StateSource}
    (within : choice.within s = true) : choice.renamed ρ.states = choice := by
  cases choice with
  | held state => rw [StateSource.renamed, fixes.states state (of_decide_eq_true within)]
  | _ => rfl

theorem ComputationOperation.renamed_of_within (fixes : ρ.Fixes s) {op : ComputationOperation}
    (within : op.within s = true) : op.renamed ρ = op := by
  cases op with
  | decide _ choice => rw [renamed, StateSource.renamed_of_within fixes within]
  | decideByFacade _ choice _ => rw [renamed, StateSource.renamed_of_within fixes within]
  | openByFacade choice _ => rw [renamed, StateSource.renamed_of_within fixes within]
  | _ => rfl

theorem StateOperation.renamed_of_within (fixes : ρ.Fixes s) {op : StateOperation}
    (within : op.within s = true) : op.renamed ρ = op := by
  cases op with
  | adopt other => rw [renamed, fixes.states other (of_decide_eq_true within)]
  | _ => rfl

/-- An operation on objects that keep their names is the same under new names. -/
theorem Operation.renamed_of_within (fixes : ρ.Fixes s) {op : Operation}
    (within : op.within s = true) : op.renamed ρ = op := by
  cases op with
  | build _ _ choice => rw [renamed, StateSource.renamed_of_within fixes within]
  | buildWith _ _ choice => rw [renamed, StateSource.renamed_of_within fixes within]
  | load _ _ choice => rw [renamed, StateSource.renamed_of_within fixes within]
  | newState choice => rw [renamed, StateSource.renamed_of_within fixes within]
  | computation which op =>
      obtain ⟨inside, within⟩ := Bool.and_eq_true_iff.mp within
      rw [renamed, fixes.computations which (of_decide_eq_true inside),
        ComputationOperation.renamed_of_within fixes within]
  | context which op => rw [renamed, fixes.contexts which (of_decide_eq_true within)]
  | state which op =>
      obtain ⟨inside, within⟩ := Bool.and_eq_true_iff.mp within
      rw [renamed, fixes.states which (of_decide_eq_true inside),
        StateOperation.renamed_of_within fixes within]
  | _ => rfl

end

namespace Session

/-- The second session holds the objects of the first in new places. -/
structure Renamed (ρ : Naming) (s t : Session) : Prop where
  store : t.store = s.store
  computations : Finds ρ.computations s.computations t.computations
  contexts : Finds ρ.contexts s.contexts t.contexts
  states : Finds ρ.states s.states t.states

namespace Renamed

variable {ρ : Naming} {s t : Session}

theorem choose_eq (renamed : Renamed ρ s t) (choice : StateSource) :
    t.choose (choice.renamed ρ.states) = s.choose choice := by
  cases choice with
  | held state => rw [StateSource.renamed, choose, choose, renamed.states.held_eq]
  | _ => rfl

theorem onComputation_eq (renamed : Renamed ρ s t) (c : Computation) (op : ComputationOperation) :
    t.onComputation c (op.renamed ρ) = s.onComputation c op := by
  cases op with
  | decide _ choice =>
      rw [ComputationOperation.renamed, onComputation, onComputation, renamed.choose_eq]
  | decideByFacade _ choice _ =>
      rw [ComputationOperation.renamed, onComputation, onComputation, renamed.choose_eq]
  | openByFacade choice _ =>
      rw [ComputationOperation.renamed, onComputation, onComputation, renamed.choose_eq]
  | _ => rfl

theorem onState_eq (renamed : Renamed ρ s t) (id : StateId) (op : StateOperation) :
    t.onState id (op.renamed ρ) = s.onState id op := by
  cases op with
  | adopt other => rw [StateOperation.renamed, onState, onState, renamed.states.held_eq]
  | _ => rfl

theorem perform_eq (renamed : Renamed ρ s t) (op : Operation) :
    t.perform (op.renamed ρ) = s.perform op := by
  cases op with
  | build _ _ choice => rw [Operation.renamed, perform, perform, renamed.choose_eq]
  | buildWith _ _ choice => rw [Operation.renamed, perform, perform, renamed.choose_eq]
  | load _ _ choice => rw [Operation.renamed, perform, perform, renamed.choose_eq]
  | newState choice => rw [Operation.renamed, perform, perform, renamed.choose_eq]
  | computation which op =>
      simp only [Operation.renamed, perform, renamed.computations.held_eq,
        renamed.onComputation_eq]
  | context which op => rw [Operation.renamed, perform, perform, renamed.contexts.held_eq]
  | state which op =>
      simp only [Operation.renamed, perform, renamed.states.held_eq, renamed.onState_eq]
  | _ => rfl

theorem withStore (renamed : Renamed ρ s t) (σ : Store) :
    Renamed ρ { s with store := σ } { t with store := σ } :=
  { renamed with store := rfl }

theorem keep (renamed : Renamed ρ s t) (reply : Reply) :
    (t.keep reply).1 = (s.keep reply).1 ∧ Renamed ρ (s.keep reply).2 (t.keep reply).2 := by
  cases reply with
  | answer a => exact ⟨rfl, renamed⟩
  | computation c =>
      exact ⟨rfl, { renamed with computations := renamed.computations.append [c] }⟩
  | context ctx => exact ⟨rfl, { renamed with contexts := renamed.contexts.append [ctx] }⟩
  | state id => exact ⟨rfl, { renamed with states := renamed.states.append [id] }⟩

/-- An operation under new names answers the same, and what it makes stands in a new place. -/
theorem step (renamed : Renamed ρ s t) (op : Operation) :
    (t.step (op.renamed ρ)).1 = (s.step op).1 ∧
      Renamed ρ (s.step op).2 (t.step (op.renamed ρ)).2 := by
  rw [step_eq, step_eq, renamed.perform_eq, renamed.store]
  generalize runFrom (s.perform op) s.store = ran
  obtain ⟨result, σ⟩ := ran
  cases result with
  | error f => exact ⟨rfl, renamed.withStore σ⟩
  | ok reply =>
      obtain ⟨same, kept⟩ := (renamed.withStore σ).keep reply
      exact ⟨congrArg Except.ok same, kept⟩

theorem answers_eq (renamed : Renamed ρ s t) (ops : List Operation) :
    t.answers (ops.map (Operation.renamed ρ)) = s.answers ops := by
  induction ops generalizing s t with
  | nil => rfl
  | cons op rest ih =>
      obtain ⟨same, renamed'⟩ := renamed.step op
      rw [List.map_cons, Session.answers, Session.answers, same, ih renamed']

end Renamed

end Session

end DecisionTables
