import Mathlib
import DecisionTables.Proofs.Coinciding
import DecisionTables.Proofs.Resuming

/-!
# Callers that take turns

Two callers work with one engine in turn, and each names only what it holds itself.  Where
nothing that the one names leads to what the other names, none of them can tell that the
other is there.  So it is with a computation that was derived from another one and the
computation that it was derived from, but for the decisions of the derived one: these are
the other's, and are on the other's state.
-/

namespace DecisionTables

/-! ## Separate worlds -/

namespace Pairing

/-- No object of the first stores stands for something by both pairings. -/
structure Apart (P Q : Pairing) : Prop where
  sources : ∀ {i}, (∃ j, P.sources i j) → ¬ ∃ j, Q.sources i j
  states : ∀ {i}, (∃ j, P.states i j) → ¬ ∃ j, Q.states i j
  contexts : ∀ {i}, (∃ j, P.contexts i j) → ¬ ∃ j, Q.contexts i j
  traces : ∀ {i}, (∃ j, P.traces i j) → ¬ ∃ j, Q.traces i j

variable {P P' Q : Pairing} {σ τ ρ σ' τ' : Store}

theorem Apart.symm (apart : P.Apart Q) : Q.Apart P :=
  ⟨fun second first => apart.sources first second, fun second first => apart.states first second,
    fun second first => apart.contexts first second, fun second first => apart.traces first second⟩

/-- What stands for each other by another pairing still does so after a step. -/
theorem Replay.mirrors_apart (replay : P.Replay P' σ τ σ' τ') (mirrors : Q.Mirrors σ ρ)
    (apart : P.Apart Q) : Q.Mirrors σ' ρ := by
  have still : Keeps Owned.nothing ρ ρ := .refl ρ
  have left := replay.left
  refine ⟨left.room.trans mirrors.room, ?_, ?_, ?_, ?_, fun {i j r} pair found => ?_⟩
  · exact mirrors.sources.keepFree left.sources still.sources
      (fun pair owned => apart.sources owned ⟨_, pair⟩) fun _ => id
  · exact mirrors.states.keepFree left.states still.states
      (fun pair owned => apart.states owned ⟨_, pair⟩) fun _ => id
  · exact mirrors.contexts.keepFree left.contexts still.contexts
      (fun pair owned => apart.contexts owned ⟨_, pair⟩) fun _ => id
  · exact mirrors.traces.keepFree left.traces still.traces
      (fun pair owned => apart.traces owned ⟨_, pair⟩) fun _ => id
  · obtain ⟨r', _, before, _⟩ := mirrors.states.content pair
    obtain ⟨r'', after, _, same⟩ := left.states _ r' before
    rw [same fun owned => apart.states owned ⟨_, pair⟩, found] at after
    rw [Option.some.inj after]
    exact (mirrors.tidy pair before).keepRest left

/-- What is new by one pairing is in no pair of the other. -/
theorem not_newer {R S T : Nat → Nat → Prop} {m n : Nat} (newer : Newer R S m n)
    (old : ∀ {i j}, T i j → i < m) (apart : ∀ {i}, (∃ j, R i j) → ¬ ∃ j, T i j) {i : Nat}
    (pair : ∃ j, S i j) : ¬ ∃ j, T i j := by
  rintro ⟨k, other⟩
  exact apart (newer.left_old i (old other) pair) ⟨k, other⟩

/-- After a step the worlds are still apart. -/
theorem Replay.apart (replay : P.Replay P' σ τ σ' τ') (mirrors : Q.Mirrors σ ρ)
    (apart : P.Apart Q) : P'.Apart Q where
  sources := not_newer replay.fresh.sources mirrors.sources.left_lt apart.sources
  states := not_newer replay.fresh.states mirrors.states.left_lt apart.states
  contexts := not_newer replay.fresh.contexts mirrors.contexts.left_lt apart.contexts
  traces := not_newer replay.fresh.traces mirrors.traces.left_lt apart.traces

/-- A caller whose world is apart finds it as it was. -/
theorem Replay.twins_apart (replay : P.Replay P' σ τ σ' τ') {s t : Session} (store : s.store = σ)
    (twins : Q.Twins s t) (apart : P.Apart Q) : Q.Twins { s with store := σ' } t :=
  { twins with mirrors := replay.mirrors_apart (store ▸ twins.mirrors) apart }

/-- A world of new objects is apart from what was there before. -/
theorem Advance.apart_blank (advance : blank.Advance Q σ τ σ' τ') (mirrors : P.Mirrors σ ρ) :
    P.Apart Q := by
  have none : ∀ {R : Nat → Nat → Prop} {i : Nat}, (∃ _ : Nat, False) → ¬ ∃ j, R i j :=
    fun ⟨_, no⟩ => no.elim
  refine Apart.symm ⟨?_, ?_, ?_, ?_⟩
  · exact not_newer advance.fresh.sources mirrors.sources.left_lt none
  · exact not_newer advance.fresh.states mirrors.states.left_lt none
  · exact not_newer advance.fresh.contexts mirrors.contexts.left_lt none
  · exact not_newer advance.fresh.traces mirrors.traces.left_lt none

end Pairing

namespace Session

/-! ## Turns -/

/-- What two callers are answered that work in turn: each finds the store as the other has left it. -/
def takeTurns (s t : Session) :
    List (Operation ⊕ Operation) → List (Except Fault Answer) × List (Except Fault Answer)
  | [] => ([], [])
  | .inl op :: rest =>
    let others := takeTurns (s.step op).2 { t with store := (s.step op).2.store } rest
    ((s.step op).1 :: others.1, others.2)
  | .inr op :: rest =>
    let others := takeTurns { s with store := (t.step op).2.store } (t.step op).2 rest
    (others.1, (t.step op).1 :: others.2)

/-- Callers whose worlds are apart are answered as if each of them were alone, if the second of them
leans on no facade. -/
theorem takeTurns_eq {P Q : Pairing} {s s₀ t t' t₀ : Session} (first : P.Twins s s₀)
    (akin : t'.Akin t) (second : Q.Twins t' t₀) (shared : t.store = s.store) (apart : P.Apart Q)
    {turns : List (Operation ⊕ Operation)} (stand : ∀ op, .inr op ∈ turns → op.leans = false) :
    takeTurns s t turns =
      (s₀.answers (turns.filterMap Sum.getLeft?), t₀.answers (turns.filterMap Sum.getRight?)) := by
  induction turns generalizing P Q s s₀ t t' t₀ with
  | nil => rfl
  | cons turn rest ih =>
      have later := fun op member => stand op (List.mem_cons_of_mem _ member)
      cases turn with
      | inl op =>
          obtain ⟨same, P', replay, first'⟩ := first.replay op
          have store : t'.store = s.store := akin.store.symm.trans shared
          have turned := ih first' (akin.withStore _) (replay.twins_apart store second apart) rfl
            (replay.apart (store ▸ second.mirrors) apart) later
          rw [takeTurns, turned, same]
          rfl
      | inr op =>
          obtain ⟨told, akin'⟩ := akin.step (stand op List.mem_cons_self)
          obtain ⟨same, Q', replay, second'⟩ := second.replay op
          have store : s.store = t'.store := shared.symm.trans akin.store
          have first' : P.Twins { s with store := (t.step op).2.store } s₀ := by
            rw [akin'.store]
            exact replay.twins_apart store first apart.symm
          have turned := ih first' akin' second' rfl
            (replay.apart (store ▸ first.mirrors) apart.symm).symm later
          rw [takeTurns, turned, told, same]
          rfl

/-! ## Derived computations -/

/-- Two computations that do the same for what they are asked are answered alike. -/
theorem step_alike {u : Session} {i j : Nat} {c d : Computation} {ask ask' : ComputationOperation}
    (built : u.computations[i]? = some c) (built' : u.computations[j]? = some d)
    (alike : u.onComputation c ask = u.onComputation d ask') :
    u.step (.computation i ask) = u.step (.computation j ask') := by
  rw [step_eq, step_eq, perform_computation built, perform_computation built', alike]

/-- A computation that is derived from another one stands on a state of its own, in a world that is
apart from all that was there before. -/
theorem exists_derived {P : Pairing} {s t : Session} (twins : P.Twins s s) {which : Nat}
    {c : Computation} (built : s.computations[which]? = some c) {contents : Value}
    (derived : s.step (.computation which (.withState contents)) = (.ok .done, t)) :
    ∃ (id : StateId) (Q : Pairing), t.computations = s.computations ++ [{ c with state := id }] ∧
      Q.Mirrors t.store t.store ∧ Q.states id.index id.index ∧ (∀ {u v}, Q.shown u v → u = v) ∧
      P.Apart Q ∧ Keeps Owned.nothing s.store t.store := by
  obtain ⟨d, σ, ran, rfl⟩ := exists_of_step_done (perform_computation built _) derived
  obtain ⟨id, _, made, kept⟩ := runFrom_bind_value ran
  cases kept
  have adds := OnlyAdds.ofNested contents s.store
  obtain ⟨Q, σ', τ', advance, ⟨f, left, _⟩ | ⟨a, b, left, right, pair⟩⟩ :=
    (pairsAt_ofNested (Pairing.mirrors_blank (rfl : s.store.room = s.store.room)) contents).run
  · rw [left] at made
    cases made
  · cases left.symm.trans made
    cases right.symm.trans made
    rw [made] at adds
    refine ⟨_, Q, rfl, advance.mirrors, pair, fun {u v} same => ?_,
      advance.apart_blank twins.mirrors, adds⟩
    rw [advance.le.shown] at same
    exact same

/-- A computation that is derived from another one stands on its own state, but its decisions do not.
Whatever is done in turn with it and with all that was there before, each side answers as if the
other one did nothing, as long as the derived computation is not asked by its facade without a state
that is given.  Its facade is the one of the computation that it was derived from: whatever was done
since, both open the same contexts and give the same decisions, and those are not the decisions of
the derived computation but of the other one. -/
theorem derived_computations_stand_apart {room : Option Nat} {s₀ s₁ : Session}
    (reached : s₀.Reached room) {building : Operation} (builds : Builds building)
    (built : s₀.step building = (.ok .done, s₁)) (history : List Operation) {contents : Value}
    {t : Session} (derived : (s₁.after history).step
      (.computation s₀.computations.length (.withState contents)) = (.ok .done, t)) :
    let s := s₁.after history
    let original := s₀.computations.length
    let derivative := s.computations.length
    ∃ d : Computation, t.computations = s.computations ++ [d] ∧
      (∀ turns : List (Operation ⊕ Operation), (∀ op, .inr op ∈ turns → op.leans = false) →
        takeTurns { s with store := t.store } (t.only d) turns =
          (s.answers (turns.filterMap Sum.getLeft?),
            (t.only d).answers (turns.filterMap Sum.getRight?))) ∧
      ∀ later : List Operation,
        let u := t.after later
        (∀ choice request, u.step (.computation derivative (.openByFacade choice request)) =
          u.step (.computation original (.openByFacade choice request))) ∧
        (∀ table choice request,
          u.step (.computation derivative (.decideByFacade table choice request)) =
            u.step (.computation original (.decideByFacade table choice request))) ∧
        ∀ table, u.step (.computation derivative (.decideByFacade table .absent .null)) =
          u.step (.computation original (.decide table .absent)) := by
  obtain ⟨c, joint, works₁⟩ := reached.exists_joint builds built
  intro s original derivative
  have works : s.Works room original c := works₁.after history
  obtain ⟨P, twins⟩ := works.reached.exists_twins
  obtain ⟨id, Q, made, mirrors, pair, shown, apart, keeps⟩ := exists_derived twins works.built derived
  refine ⟨{ c with state := id }, made, fun turns stand => ?_, fun later => ?_⟩
  · let d : Computation := { c with decisions := { c.decisions with state := id }, state := id }
    have akin : (t.only d).Akin (t.only { c with state := id }) :=
      ⟨rfl, .cons (.facade c.decisions.state) .nil, rfl, rfl⟩
    have first : P.Twins { s with store := t.store } s :=
      { twins with mirrors := twins.mirrors.keep keeps (.refl s.store) }
    have second : Q.Twins (t.only d) (t.only d) :=
      ⟨mirrors, shown, .cons ⟨rfl, pair, rfl, rfl, pair⟩ .nil, .nil, .nil⟩
    have stand' : ∀ op ∈ turns.filterMap Sum.getRight?, op.leans = false := by
      intro op member
      obtain ⟨turn, inside, right⟩ := List.mem_filterMap.mp member
      rw [Sum.getRight?_eq_some_iff] at right
      exact stand op (right ▸ inside)
    rw [takeTurns_eq first akin second rfl apart stand, akin.answers_eq stand']
  · have built₁ : t.computations[original]? = some c :=
      getElem?_of_prefix (made ▸ List.prefix_append _ _) works.built
    have built₂ : t.computations[derivative]? = some { c with state := id } :=
      made ▸ List.getElem?_concat_length
    have found₁ := getElem?_of_prefix (computations_after t later) built₁
    have found₂ := getElem?_of_prefix (computations_after t later) built₂
    refine ⟨fun choice request => step_alike found₂ found₁ rfl,
      fun table choice request => step_alike found₂ found₁ rfl,
      fun table => step_alike found₂ found₁ ?_⟩
    simp only [onComputation, choose, pure_bind, joint.decideByFacade_eq, joint.decide_eq]

/-- A table that tells when nine are in stock. -/
def stockTables : Catalog :=
  .ofList [.make "T" [⟨"1", [⟨.row .condition, "market::shop", "9"⟩,
    ⟨.row .outcome, "outcome", "nine"⟩]⟩] none]

/-- A command that changes the stock. -/
def restocking : Catalog :=
  .ofList [.make "restock" [⟨"1", [⟨.row .assignment, "market::shop", "9"⟩]⟩] none]

/-- The contents of a state with some stock. -/
def stock (n : Int) : Value :=
  .mapping [(.text "market", .mapping [(.text "shop", .scalar (.int n))])]

/-- The computation that is built of these. -/
def shop : Operation := .build stockTables restocking (.contents (stock 2))

/-- The session with this computation. -/
def stocked : Session := ((start none).step shop).2

/-- The session with another computation that is derived from it. -/
def branched : Session := (stocked.step (.computation 0 (.withState (stock 9)))).2

/-- The derived computation. -/
def branch : Computation :=
  ⟨⟨stockTables, ⟨0⟩, some (.tables restocking)⟩, some (.tables restocking), ⟨1⟩⟩

/-- Turns of the one who holds the first computation and of the one who holds the derived one. -/
def trades : List (Operation ⊕ Operation) :=
  [.inl (.computation 0 (.perform "restock" .null)), .inr (.computation 0 (.open .null)),
    .inr (.context 0 (.write ⟨"market", "shop"⟩ (.text "3"))), .inl (.computation 0 .storedState),
    .inr (.computation 0 .storedState)]

theorem branch_stands_apart :
    takeTurns { stocked with store := branched.store } (branched.only branch) trades =
      ([.ok .done, .ok (.entries [(.text "market", .mapping [(.text "shop", .text "9")])])],
        [.ok .done, .ok .done,
          .ok (.entries [(.text "market", .mapping [(.text "shop", .text "3")])])]) ∧
    branched.step (.computation 1 (.decideByFacade "T" .absent .null)) =
      branched.step (.computation 0 (.decide "T" .absent)) := by
  have reached : (start none).Reached none := ⟨[], rfl⟩
  have result : ((start none).step shop).1 = .ok .done := by cbv
  have built : (start none).step shop = (.ok .done, stocked) := Prod.ext result rfl
  have result' : (stocked.step (.computation 0 (.withState (stock 9)))).1 = .ok .done := by cbv
  have derived : (stocked.after []).step
      (.computation (start none).computations.length (.withState (stock 9))) =
        (.ok .done, branched) := Prod.ext result' rfl
  obtain ⟨d, made, apart, later⟩ := derived_computations_stand_apart reached
    (.tables stockTables restocking (.contents (stock 2))) built [] derived
  have last : branched.computations = stocked.computations ++ [branch] := by cbv
  obtain ⟨-, same⟩ := List.append_inj' (made.symm.trans last) rfl
  obtain rfl : d = branch := List.head_eq_of_cons_eq same
  have stand : ∀ op, .inr op ∈ trades → op.leans = false := by
    intro op member
    simp only [trades, List.mem_cons, reduceCtorEq, Sum.inr.injEq, List.not_mem_nil, or_false,
      false_or] at member
    rcases member with rfl | rfl | rfl <;> rfl
  have first : stocked.answers (trades.filterMap Sum.getLeft?) =
      [.ok .done, .ok (.entries [(.text "market", .mapping [(.text "shop", .text "9")])])] := by cbv
  have second : (branched.only branch).answers (trades.filterMap Sum.getRight?) =
      [.ok .done, .ok .done,
        .ok (.entries [(.text "market", .mapping [(.text "shop", .text "3")])])] := by cbv
  exact ⟨(apart trades stand).trans (congrArg₂ Prod.mk first second), (later []).2.2 "T"⟩

/-- The decisions of the derived computation are not about its own state, and they change with a
command of the other computation. -/
theorem branch_decides_elsewhere :
    (branched.step (.computation 1 (.decide "T" .absent))).1 = .ok (.outcome [("outcome", "nine")]) ∧
    (branched.step (.computation 1 (.decideByFacade "T" .absent .null))).1 =
      .ok (.outcome [("outcome", "else")]) ∧
    ((branched.step (.computation 0 (.perform "restock" .null))).2.step
      (.computation 1 (.decideByFacade "T" .absent .null))).1 =
        .ok (.outcome [("outcome", "nine")]) := by
  refine ⟨by cbv, by cbv, by cbv⟩

end Session

end DecisionTables
