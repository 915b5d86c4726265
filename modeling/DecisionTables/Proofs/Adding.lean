import DecisionTables.Proofs.Pairing
import DecisionTables.Session

/-!
# Steps that only add

What a step leaves of a store is told by a relation: a `Frame` is one that steps one
after the other keep, and an `AddingFrame` one that is kept as well when sources and
states are made.  Making sources, states and contexts leaves everything in the store as
it was, also where it fails.
-/

namespace DecisionTables

/-! ## Frames -/

/-- Whatever store a step starts from, what it leaves is related to it. -/
def Framed (R : Store → Store → Prop) {α : Type} (x : Engine α) : Prop :=
  ∀ σ, R σ (runFrom x σ).2

/-- A relation of stores that steps one after the other keep. -/
structure Frame (R : Store → Store → Prop) : Prop where
  refl : ∀ σ, R σ σ
  trans : ∀ {σ σ' σ''}, R σ σ' → R σ' σ'' → R σ σ''

/-- A relation that making sources and states keeps as well. -/
structure AddingFrame (R : Store → Store → Prop) : Prop extends Frame R where
  source : ∀ (σ : Store) (s : Source), R σ { σ with sources := σ.sources.push s }
  state : ∀ (σ : Store) (r : Registry), R σ { σ with states := σ.states.push r }

variable {R : Store → Store → Prop} {α β : Type}

namespace Frame

theorem pure (frame : Frame R) (a : α) : Framed R (pure a) := fun σ => frame.refl σ

theorem throw (frame : Frame R) (f : Fault) : Framed R (throw f : Engine α) := fun σ => frame.refl σ

theorem bind (frame : Frame R) {x : Engine α} {f : α → Engine β} (first : Framed R x)
    (rest : ∀ a, Framed R (f a)) : Framed R (x >>= f) := by
  intro σ
  have before := first σ
  rw [runFrom_bind]
  revert before
  generalize runFrom x σ = ran
  obtain ⟨result, σ'⟩ := ran
  intro before
  cases result with
  | ok a => exact frame.trans before (rest a σ')
  | error f => exact before

theorem ofExcept (frame : Frame R) (r : Except Fault α) : Framed R (Engine.ofExcept r) := by
  cases r with
  | ok a => exact frame.pure a
  | error f => exact frame.throw f

theorem ofEngine (frame : Frame R) (r : Except EngineError α) : Framed R (Engine.ofEngine r) := by
  cases r with
  | ok a => exact frame.pure a
  | error e => exact frame.throw _

theorem requestOfValue (frame : Frame R) (value : Value) : Framed R (requestOfValue value) :=
  frame.bind (frame.ofExcept _) fun _ => frame.pure _

theorem held (frame : Frame R) (objects : List α) (which : Nat) :
    Framed R (Session.held objects which) := by
  unfold Session.held
  split
  · exact frame.pure _
  · exact frame.throw _

end Frame

namespace AddingFrame

theorem addSources (frame : AddingFrame R) (entries : Assoc Scalar Source) :
    Framed R (StateId.addSources entries) := by
  induction entries with
  | nil => exact frame.pure []
  | cons entry rest ih =>
      exact frame.bind (fun σ => frame.source σ _) fun _ => frame.bind ih fun _ => frame.pure _

theorem create (frame : AddingFrame R) (entries : List (Scalar × Source)) :
    Framed R (StateId.create entries) :=
  frame.bind (frame.addSources _) fun r σ => frame.state σ r

theorem ofNested (frame : AddingFrame R) (value : Value) : Framed R (StateId.ofNested value) := by
  cases value with
  | mapping entries => exact frame.bind (frame.ofExcept _) frame.create
  | _ => exact frame.throw _

theorem addAllRegistered (frame : AddingFrame R) (r : Registry) (sources : List Source) :
    Framed R (ContextId.addAllRegistered r sources) := by
  induction sources generalizing r with
  | nil => exact frame.pure r
  | cons s rest ih =>
      exact frame.bind (frame.bind (fun σ => frame.source σ s) fun _ => frame.pure _) ih

theorem stateOf (frame : AddingFrame R) (choice : StateChoice) : Framed R choice.state := by
  unfold StateChoice.state
  split
  · exact frame.create []
  · exact frame.create []
  · exact frame.ofNested _
  · exact frame.pure _

theorem stateOr (frame : AddingFrame R) (other : StateId) (choice : StateChoice) :
    Framed R (choice.stateOr other) := by
  unfold StateChoice.stateOr
  split
  · exact frame.pure other
  · exact frame.pure other
  · exact frame.stateOf _

theorem choose (frame : AddingFrame R) (s : Session) (choice : StateSource) : Framed R (s.choose choice) := by
  cases choice with
  | absent => exact frame.pure _
  | contents value => exact frame.pure _
  | sources sources => exact frame.bind (frame.create sources) fun _ => frame.pure _
  | held state => exact frame.bind (frame.held _ state) fun _ => frame.pure _

end AddingFrame

/-! ## Steps that leave what is there -/

/-- Whatever a step finds in the store, it leaves as it was. -/
def OnlyAdds {α : Type} (x : Engine α) : Prop :=
  ∀ σ, Keeps Owned.nothing σ (runFrom x σ).2

namespace OnlyAdds

theorem frame : AddingFrame (Keeps Owned.nothing) where
  refl := Keeps.refl
  trans first second := first.trans second (fun _ _ no => no) (fun _ _ no => no) fun _ _ no => no
  source σ _ := { Keeps.refl σ with sources := .push Source.Alike.refl _ _ }
  state σ _ := { Keeps.refl σ with states := .push (fun _ => trivial) _ _ }

theorem pure (a : α) : OnlyAdds (pure a) := frame.pure a

theorem throw (f : Fault) : OnlyAdds (throw f : Engine α) := frame.throw f

theorem get : OnlyAdds (get : Engine Store) := fun σ => .refl σ

theorem bind {x : Engine α} {f : α → Engine β} (first : OnlyAdds x) (rest : ∀ a, OnlyAdds (f a)) :
    OnlyAdds (x >>= f) :=
  frame.bind first rest

theorem addContext (c : Context) : OnlyAdds (Engine.addContext c) :=
  fun σ => { Keeps.refl σ with contexts := .push (fun _ => trivial) _ _ }

theorem addTrace : OnlyAdds Engine.addTrace :=
  fun σ => { Keeps.refl σ with traces := .push (fun _ => trivial) _ _ }

theorem ofNested (value : Value) : OnlyAdds (StateId.ofNested value) := frame.ofNested value

theorem «open» (state : StateId) (catalog : Option Catalog) (request : Source)
    (backend : Option Backend) : OnlyAdds (ContextId.open state catalog request backend) :=
  have added := fun r sources => show OnlyAdds _ from frame.addAllRegistered r sources
  addTrace.bind fun _ => (added _ _).bind fun _ => bind (fun σ => frame.source σ request) fun _ =>
    (added _ _).bind fun _ => get.bind fun _ => addContext _

theorem openComputation (c : Computation) (request : Value) : OnlyAdds (c.open request) :=
  bind (frame.requestOfValue request) fun _ => «open» _ _ _ _

theorem openDecisions (d : Decisions) (choice : StateChoice) (request : Value) :
    OnlyAdds (d.open choice request) :=
  bind (frame.stateOr _ choice) fun _ => bind (frame.requestOfValue request) fun _ => «open» _ _ _ _

theorem choose (s : Session) (choice : StateSource) : OnlyAdds (s.choose choice) := frame.choose s choice

end OnlyAdds

end DecisionTables
