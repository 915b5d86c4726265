import DecisionTables.Loading
import DecisionTables.Proofs.Lockstep.States
import DecisionTables.Proofs.Lockstep.Testing

/-!
# Computations in lockstep

Everything that a computation does, in lockstep with a computation that stands for
it.  Of a command this is the part before the state is replaced: `rehearse` does all
of the work on a copy, and only what `adopt` does afterwards can be seen in the state.
-/

namespace DecisionTables

namespace Pairing

/-- The same way to name a state, by states that stand for each other. -/
inductive Choices (P : Pairing) : StateChoice → StateChoice → Prop where
  | absent : Choices P .absent .absent
  | contents (value : Value) : Choices P (.contents value) (.contents value)
  | stored {i j : StateId} (pair : P.states i.index j.index) : Choices P (.stored i) (.stored j)

/-- Computations by the same tables and commands, on states that stand for each other. -/
structure Computations (P : Pairing) (c d : Computation) : Prop where
  catalog : c.decisions.catalog = d.decisions.catalog
  deciding : P.states c.decisions.state.index d.decisions.state.index
  helper : c.decisions.backend = d.decisions.backend
  backend : c.backend = d.backend
  state : P.states c.state.index d.state.index

theorem Choices.mono {P Q : Pairing} (le : P.Le Q) {a b : StateChoice} (choices : P.Choices a b) :
    Q.Choices a b := by
  cases choices with
  | absent => exact .absent
  | contents value => exact .contents value
  | stored pair => exact .stored (le.states pair)

theorem Computations.mono {P Q : Pairing} (le : P.Le Q) {c d : Computation}
    (computations : P.Computations c d) : Q.Computations c d :=
  { computations with
    deciding := le.states computations.deciding
    state := le.states computations.state }

end Pairing

namespace Computation

/-- Perform a command in a context of its own on a state. -/
def workOn (c : Computation) (command : String) (request : Value) (working : StateId) :
    Engine Unit := do
  let ctx ← ContextId.open working (some c.decisions.catalog) (← requestOfValue request) c.backend
  ctx.perform command

/-- Perform a command on a copy of the current state, and give the copy. -/
def rehearse (c : Computation) (command : String) (request : Value) : Engine StateId := do
  let working ← c.state.copy
  c.workOn command request working
  return working

theorem perform_eq (c : Computation) (command : String) (request : Value) :
    c.perform command request = c.rehearse command request >>= c.state.adopt := by
  simp only [perform, rehearse, workOn, bind_assoc, pure_bind]

end Computation

section

variable {P : Pairing} {σ τ : Store} {c d : Computation}

/-! ## Choosing a state -/

theorem pairsAt_choiceState (mirrors : P.Mirrors σ τ) {a b : StateChoice}
    (choices : P.Choices a b) :
    PairsAt P (fun Q i j => Q.states i.index j.index) σ τ a.state b.state := by
  cases choices with
  | absent => exact pairsAt_create mirrors []
  | contents value =>
      unfold StateChoice.state
      split
      · exact pairsAt_create mirrors []
      · exact pairsAt_create mirrors []
      · rename_i same
        cases same
        exact pairsAt_ofNested mirrors _
      · rename_i other
        cases other
  | stored pair => exact pairsAt_pure mirrors pair

theorem pairsAt_stateOr (mirrors : P.Mirrors σ τ) {i j : StateId}
    (pair : P.states i.index j.index) {a b : StateChoice} (choices : P.Choices a b) :
    PairsAt P (fun Q i j => Q.states i.index j.index) σ τ (a.stateOr i) (b.stateOr j) := by
  cases choices with
  | absent => exact pairsAt_pure mirrors pair
  | contents value =>
      unfold StateChoice.stateOr
      split
      · exact pairsAt_pure mirrors pair
      · exact pairsAt_pure mirrors pair
      · exact pairsAt_choiceState mirrors (.contents value)
  | stored given => exact pairsAt_choiceState mirrors (.stored given)

theorem pairsAt_requestOfValue (mirrors : P.Mirrors σ τ) (request : Value) :
    PairsAt P Same σ τ (requestOfValue request) (requestOfValue request) := by
  apply pairsAt_bind (pairsAt_ofExcept mirrors request.toMapping)
  rintro Q σ' τ' values _ advance rfl
  exact pairsAt_pure advance.mirrors rfl

/-! ## Making computations -/

theorem pairsAt_ofTables (mirrors : P.Mirrors σ τ) (catalog commands : Catalog)
    {a b : StateChoice} (choices : P.Choices a b) :
    PairsAt P (fun Q c d => Q.Computations c d) σ τ (Computation.ofTables catalog commands a)
      (Computation.ofTables catalog commands b) := by
  apply pairsAt_bind (pairsAt_choiceState mirrors choices)
  intro Q σ' τ' i j advance pair
  exact pairsAt_pure advance.mirrors ⟨rfl, pair, rfl, rfl, pair⟩

theorem pairsAt_ofBackend (mirrors : P.Mirrors σ τ) (catalog : Catalog) (backend : Option Backend)
    {a b : StateChoice} (choices : P.Choices a b) :
    PairsAt P (fun Q c d => Q.Computations c d) σ τ (Computation.ofBackend catalog backend a)
      (Computation.ofBackend catalog backend b) := by
  apply pairsAt_bind (pairsAt_choiceState mirrors choices)
  intro Q σ' τ' i j advance deciding
  apply pairsAt_bind (pairsAt_choiceState advance.mirrors (choices.mono advance.le))
  intro Q' σ'' τ'' i' j' advance' performing
  exact pairsAt_pure advance'.mirrors ⟨rfl, advance'.le.states deciding, rfl, rfl, performing⟩

theorem pairsAt_load (mirrors : P.Mirrors σ τ) (fs : Files) (settings : Settings)
    {a b : StateChoice} (choices : P.Choices a b) :
    PairsAt P (fun Q c d => Q.Computations c d) σ τ (Computation.load fs settings a)
      (Computation.load fs settings b) := by
  apply pairsAt_bind (pairsAt_ofExcept mirrors _)
  rintro Q σ' τ' tables _ advance rfl
  apply pairsAt_bind (pairsAt_ofExcept advance.mirrors _)
  rintro Q' σ'' τ'' commands _ advance' rfl
  exact pairsAt_ofTables advance'.mirrors tables commands
    ((choices.mono advance.le).mono advance'.le)

theorem pairsAt_withState (mirrors : P.Mirrors σ τ) (computations : P.Computations c d)
    (contents : Value) :
    PairsAt P (fun Q c d => Q.Computations c d) σ τ (c.withState contents)
      (d.withState contents) := by
  apply pairsAt_bind (pairsAt_ofNested mirrors contents)
  intro Q σ' τ' i j advance pair
  exact pairsAt_pure advance.mirrors { computations.mono advance.le with state := pair }

/-! ## Decisions -/

theorem pairsAt_decisionsOpen (mirrors : P.Mirrors σ τ) (computations : P.Computations c d)
    {a b : StateChoice} (choices : P.Choices a b) (request : Value) :
    PairsAt P (fun Q a b => Q.contexts a.index b.index) σ τ (c.decisions.open a request)
      (d.decisions.open b request) := by
  apply pairsAt_bind (pairsAt_stateOr mirrors computations.deciding choices)
  intro Q σ' τ' i j advance pair
  apply pairsAt_bind (pairsAt_requestOfValue advance.mirrors request)
  rintro Q' σ'' τ'' source _ advance' rfl
  rw [computations.catalog, computations.helper]
  exact pairsAt_open advance'.mirrors (advance'.le.states pair) _ source _

theorem pairsAt_decisionsDecide (mirrors : P.Mirrors σ τ) (computations : P.Computations c d)
    (table : String) {a b : StateChoice} (choices : P.Choices a b) (request : Value) :
    PairsAt P Same σ τ (c.decisions.decide table a request)
      (d.decisions.decide table b request) := by
  apply pairsAt_bind (pairsAt_decisionsOpen mirrors computations choices request)
  intro Q σ' τ' ctx ctx' advance pair
  exact pairsAt_outcome advance.mirrors pair table

theorem pairsAt_decide (mirrors : P.Mirrors σ τ) (computations : P.Computations c d)
    (table : String) {a b : StateChoice} (choices : P.Choices a b) :
    PairsAt P Same σ τ (c.decide table a) (d.decide table b) := by
  cases choices with
  | absent =>
      exact pairsAt_decisionsDecide mirrors computations table (.stored computations.state) .null
  | contents value =>
      simp only [Computation.decide]
      split
      · exact pairsAt_decisionsDecide mirrors computations table (.stored computations.state) .null
      · exact pairsAt_decisionsDecide mirrors computations table (.stored computations.state) .null
      · exact pairsAt_decisionsDecide mirrors computations table (.contents value) .null
  | stored pair =>
      exact pairsAt_decisionsDecide mirrors computations table (.stored pair) .null

/-! ## Commands and the current state -/

theorem pairsAt_computationOpen (mirrors : P.Mirrors σ τ) (computations : P.Computations c d)
    (request : Value) :
    PairsAt P (fun Q a b => Q.contexts a.index b.index) σ τ (c.open request) (d.open request) := by
  apply pairsAt_bind (pairsAt_requestOfValue mirrors request)
  rintro Q σ' τ' source _ advance rfl
  rw [computations.catalog, computations.backend]
  exact pairsAt_open advance.mirrors (advance.le.states computations.state) _ source _

theorem pairsAt_workOn (mirrors : P.Mirrors σ τ)
    (catalog : c.decisions.catalog = d.decisions.catalog) (backend : c.backend = d.backend)
    (command : String) (request : Value) {working working' : StateId}
    (pair : P.states working.index working'.index) :
    PairsAt P Same σ τ (c.workOn command request working) (d.workOn command request working') := by
  apply pairsAt_bind (pairsAt_requestOfValue mirrors request)
  rintro Q₁ σ₁ τ₁ source _ advance₁ rfl
  rw [catalog, backend]
  apply pairsAt_bind (pairsAt_open advance₁.mirrors (advance₁.le.states pair) _ source _)
  intro Q₂ σ₂ τ₂ ctx ctx' advance₂ contexts
  exact pairsAt_perform advance₂.mirrors contexts command

/-- Working on copies needs of the states no more than that their copies stand for each other. -/
theorem pairsAt_rehearse
    (copies : PairsAt P (fun Q a b => Q.states a.index b.index) σ τ c.state.copy d.state.copy)
    (catalog : c.decisions.catalog = d.decisions.catalog) (backend : c.backend = d.backend)
    (command : String) (request : Value) :
    PairsAt P (fun Q a b => Q.states a.index b.index) σ τ (c.rehearse command request)
      (d.rehearse command request) := by
  apply pairsAt_bind copies
  intro Q σ' τ' working working' advance pair
  apply pairsAt_bind (pairsAt_workOn advance.mirrors catalog backend command request pair)
  intro Q' σ'' τ'' _ _ advance' _
  exact pairsAt_pure advance'.mirrors (advance'.le.states pair)

theorem pairsAt_readAll (mirrors : P.Mirrors σ τ) {ctx ctx' : ContextId}
    (pair : P.contexts ctx.index ctx'.index) {i j : SourceId}
    (sources : P.sources i.index j.index) (source : Source) (fragments : List String) :
    PairsAt P Same σ τ (Computation.readAll ctx i source fragments)
      (Computation.readAll ctx' j source fragments) := by
  induction fragments generalizing P σ τ with
  | nil => exact pairsAt_pure mirrors rfl
  | cons fragment rest ih =>
      apply pairsAt_bind (pairsAt_readFrom mirrors pair sources source fragment)
      rintro Q σ' τ' text _ advance rfl
      apply pairsAt_bind
        (ih advance.mirrors (advance.le.contexts pair) (advance.le.sources sources))
      rintro Q' σ'' τ'' texts _ advance' rfl
      exact pairsAt_pure advance'.mirrors rfl

theorem pairsAt_stateFor (mirrors : P.Mirrors σ τ) (computations : P.Computations c d)
    (name : String) (fragments : List String) :
    PairsAt P Same σ τ (c.stateFor name fragments) (d.stateFor name fragments) := by
  apply pairsAt_bind (pairsAt_stateFind mirrors computations.state name)
  intro Q σ' τ' i j advance sources
  have sources' := advance.le.sources sources
  apply pairsAt_get
  rw [advance.mirrors.source_eq sources']
  apply pairsAt_bind
    (pairsAt_computationOpen advance.mirrors (computations.mono advance.le) .null)
  intro Q' σ'' τ'' ctx ctx' advance' pair
  apply pairsAt_bind (pairsAt_readAll advance'.mirrors pair (advance'.le.sources sources') _
    fragments)
  rintro Q'' σ''' τ''' texts _ advance'' rfl
  exact pairsAt_pure advance''.mirrors rfl

/-- A self-test of the current state sees nothing of its values. -/
theorem pairsAt_selfTest (mirrors : P.Mirrors σ τ)
    (catalog : c.decisions.catalog = d.decisions.catalog) (backend : c.backend = d.backend)
    (alike : StatesAlike σ τ c.state d.state) (tests : Option Catalog) :
    PairsAt P Same σ τ (c.selfTest tests) (d.selfTest tests) := by
  simp only [Computation.selfTest, Computation.open, bind_assoc]
  apply pairsAt_bind (pairsAt_requestOfValue mirrors .null)
  rintro Q σ' τ' source _ advance rfl
  rw [catalog, backend]
  refine pairsAt_openTestable advance.mirrors (alike.keep advance.left advance.right) _ _ _ ?_
  intro Q' σ'' τ'' ctx ctx' advance' testable
  exact Report.pairsAt_ofCatalog advance'.mirrors testable _

end

end DecisionTables
