import Mathlib
import DecisionTables.Proofs.Carrying
import DecisionTables.Proofs.Reaching

/-!
# The effect of a command

A command that succeeds has worked on a copy of the current state.  It leaves in the state
what the same work leaves in the state itself: the texts of the assignments of one rule,
and everything else as it was.
-/

namespace DecisionTables

/-! ## Working on a copy -/

theorem fst_eq_iff_of_mem_zip {α β : Type} {xs : List α} {ys : List β} (left : xs.Nodup)
    (right : ys.Nodup) {e f : α × β} (member : e ∈ xs.zip ys) (other : f ∈ xs.zip ys) :
    e.1 = f.1 ↔ e.2 = f.2 := by
  obtain ⟨i, inside, rfl⟩ := List.getElem_of_mem member
  obtain ⟨j, inside', rfl⟩ := List.getElem_of_mem other
  rw [List.getElem_zip, List.getElem_zip, left.getElem_inj_iff, right.getElem_inj_iff]

namespace Pairing

/-- The sources of two registries stand for each other in the order of their names. -/
def zipped (r r' : Registry) : Pairing :=
  { apart (fun _ _ => True) trivial fun _ _ => trivial with
    sources := fun i j => ∃ e ∈ r.values.zip r'.values, e.1.index = i ∧ e.2.index = j }

theorem single_zipped {r r' : Registry} (left : r.values.Nodup) (right : r'.values.Nodup) :
    (zipped r r').Single := by
  rintro _ _ _ _ ⟨⟨⟨i⟩, ⟨j⟩⟩, member, rfl, rfl⟩ ⟨⟨⟨k⟩, ⟨l⟩⟩, member', rfl, rfl⟩
  have single := fst_eq_iff_of_mem_zip left right member member'
  simpa only [SourceId.mk.injEq] using single

theorem sources_zipped {r r' : Registry} {e f : Scalar × SourceId} (member : (e, f) ∈ r.zip r') :
    (zipped r r').sources e.2.index f.2.index := by
  refine ⟨(e.2, f.2), ?_, rfl, rfl⟩
  rw [Assoc.values, Assoc.values, List.zip_map]
  exact List.mem_map_of_mem member

/-- Registries with the same names are registries of sources that stand for each other, place by place. -/
theorem registries_of_zip {P : Pairing} {r r' : Registry} {R : Scalar × SourceId → Scalar × SourceId → Prop}
    (related : List.Forall₂ (fun e f => e.1 = f.1 ∧ R e f) r r')
    (pairs : ∀ {e f}, (e, f) ∈ r.zip r' → P.sources e.2.index f.2.index) : P.Registries r r' := by
  rw [List.forall₂_iff_zip] at related
  rw [Registries, List.forall₂_iff_zip]
  exact ⟨related.1, fun inside => ⟨(related.2 inside).1, pairs inside⟩⟩

/-- Sources that stand for each other are registered in the same place. -/
theorem exists_mem_of_zipped {r r' : Registry} {k l : Nat} (pair : (zipped r r').sources k l) :
    ∃ e f, (e, f) ∈ r.zip r' ∧ e.2.index = k ∧ f.2.index = l := by
  obtain ⟨_, member, rfl, rfl⟩ := pair
  rw [Assoc.values, Assoc.values, List.zip_map] at member
  obtain ⟨⟨e, f⟩, inside, rfl⟩ := List.mem_map.mp member
  exact ⟨e, f, inside, rfl, rfl⟩

variable {σ τ : Store} {i j : StateId}

/-- A state and a copy of it: their sources stand for each other in the order of their names. -/
def copied (σ τ : Store) (i j : StateId) : Pairing :=
  { apart (fun _ _ => True) trivial fun _ _ => trivial with
    sources := fun k l =>
      ∃ e ∈ (σ.state i).values.zip (τ.state j).values, e.1.index = k ∧ e.2.index = l
    states := fun k l => k = i.index ∧ l = j.index }

theorem registries_copied
    (same : List.Forall₂ (fun e f => e.1 = f.1 ∧
      ∃ s, σ.sources[e.2.index]? = some s ∧ τ.sources[f.2.index]? = some s) (σ.state i) (τ.state j)) :
    (copied σ τ i j).Registries (σ.state i) (τ.state j) :=
  registries_of_zip same fun inside => sources_zipped inside

theorem mirrors_copied (room : σ.room = τ.room) (tidy : σ.Tidy (σ.state i)) (tidy' : τ.Tidy (τ.state j))
    (inside : i.index < σ.states.size) (inside' : j.index < τ.states.size)
    (same : List.Forall₂ (fun e f => e.1 = f.1 ∧
      ∃ s, σ.sources[e.2.index]? = some s ∧ τ.sources[f.2.index]? = some s) (σ.state i) (τ.state j)) :
    (copied σ τ i j).Mirrors σ τ := by
  have held : ∀ {ρ : Store} {k : StateId}, k.index < ρ.states.size →
      ρ.states[k.index]? = some (ρ.state k) := by
    intro ρ k inside
    rw [Store.state, Array.getD_eq_getD_getElem?, Array.getElem?_eq_getElem inside]
    rfl
  refine ⟨room, ⟨single_zipped tidy.apart tidy'.apart, ?_⟩, ⟨?_, ?_⟩, .empty _ _, .empty _ _, ?_⟩
  · intro k l pair
    obtain ⟨e, f, inside, rfl, rfl⟩ := exists_mem_of_zipped pair
    obtain ⟨s, left, right⟩ := ((List.forall₂_iff_zip.mp same).2 inside).2
    exact ⟨s, s, left, right, rfl⟩
  · rintro _ _ _ _ ⟨rfl, rfl⟩ ⟨rfl, rfl⟩
    exact ⟨fun _ => rfl, fun _ => rfl⟩
  · rintro _ _ ⟨rfl, rfl⟩
    exact ⟨_, _, held inside, held inside', registries_copied same⟩
  · rintro _ _ r ⟨rfl, rfl⟩ found
    rw [held inside] at found
    cases found
    exact tidy

end Pairing

namespace Store

variable {σ : Store}

theorem state_setState_self {id : StateId} (inside : id.index < σ.states.size) (r : Registry) :
    (σ.setState id r).state id = r := by
  rw [state, setState, Array.getD_eq_getD_getElem?, Array.getElem?_setIfInBounds_self_of_lt inside]
  rfl

end Store

/-- A copy that is made of a state stands for it, and nothing else is made. -/
theorem StateId.mirrors_copy {σ : Store} {state : StateId} (tidy : σ.Tidy (σ.state state))
    (inside : state.index < σ.states.size) :
    ∃ copy ρ, runFrom state.copy σ = (.ok copy, ρ) ∧ Keeps Owned.nothing σ ρ ∧
      (Pairing.copied σ ρ state copy).Mirrors σ ρ := by
  have copies : PairsAt .blank (fun Q a b => Q.states a.index b.index) σ σ state.copy state.copy :=
    pairsAt_copyWith (Pairing.mirrors_blank rfl) (fun s => s) rfl
  obtain ⟨_, made, _⟩ := copies
  have keeps := Pairing.keeps_of_blank made
  obtain ⟨r, ρ, copied, tidy', same⟩ := StateId.exists_copy tidy
  rw [copied] at keeps
  refine ⟨_, _, copied, keeps, ?_⟩
  have registry : Store.state { ρ with states := ρ.states.push r } ⟨ρ.states.size⟩ = r :=
    ρ.state_pushed r
  refine Pairing.mirrors_copied keeps.room.symm tidy ?_ inside ?_ ?_
  · rw [registry]
    exact ⟨tidy'.distinct, tidy'.apart, tidy'.settled⟩
  · exact Nat.lt_of_lt_of_eq (Nat.lt_succ_self _) (Array.size_push _).symm
  · rw [registry]
    exact same

namespace Computation

variable {P : Pairing} {σ σ' : Store} {c : Computation} {command : String} {request : Value}

/-- A command does to the state what its work does in the state itself. -/
theorem carried_of_work (mirrors : P.Mirrors σ σ) (pair : P.states c.state.index c.state.index)
    {writes : Except Fault (List (Coordinate × String))}
    (worked : σ.Carried c.state (runFrom (c.workOn command request c.state) σ) writes) :
    σ.Carried c.state (runFrom (c.perform command request) σ) writes := by
  have inside := mirrors.states.left_lt pair
  obtain ⟨working, σ₁, copied, keeps, mirrors'⟩ :=
    StateId.mirrors_copy (mirrors.state_tidy pair) inside
  have both : PairsAt _ Same σ σ₁ (c.workOn command request c.state)
      (c.workOn command request working) :=
    pairsAt_workOn mirrors' rfl rfl command request ⟨rfl, rfl⟩
  rw [perform_eq, rehearse, bind_assoc, runFrom_bind_ok copied, bind_assoc]
  obtain ⟨Q, τ, τ', advance, ⟨f, left, right⟩ | ⟨_, _, left, right, _⟩⟩ := both.run
  · rw [left] at worked
    cases worked
    rw [runFrom_bind_fault right]
    exact .failed f _
  · rw [left] at worked
    cases worked with
    | written held =>
        rw [runFrom_bind_ok right, pure_bind]
        refine .written (Eq.trans ?_ held)
        have same := advance.mirrors.map_eq (advance.mirrors.state_rel (advance.le.states ⟨rfl, rfl⟩))
          fun name source => (name, source)
        have still := Nat.lt_of_lt_of_le inside
          (Nat.le_trans keeps.states.size_le advance.right.states.size_le)
        rw [Store.holdings, Store.state_setState_self still]
        exact same.symm

/-- The rule that a command runs: the only one of its table that is satisfied in a context that was
just opened on the current state. -/
structure Selection (c : Computation) (commands : Catalog) (command : String) (request : Value)
    (σ : Store) where
  table : Table
  ctx : ContextId
  opened : Store
  rule : Rule
  checked : Progress
  found : commands.table command = .ok table
  fresh : runFrom (c.open request) σ = (.ok ctx, opened)
  blank : opened.progress ctx = .start
  sees : ∀ name source, (σ.holdings c.state).find? name = some source →
    ∃ id, Assoc.find? (opened.scope (opened.context ctx).registry) name = some (id, source)
  single : runFrom (Rule.satisfied (opened.resolver ctx) table.rules)
    (Progress.start.reported (.command command)) = (.ok [rule], checked)

namespace Selection

variable {commands : Catalog} (sel : c.Selection commands command request σ)

/-- The sources that the context finds. -/
def scope : Scope :=
  sel.opened.scope (sel.opened.context sel.ctx).registry

/-- What the context remembers and has reported when the assignments begin. -/
def progress : Progress :=
  sel.checked.reported (.table sel.table.name sel.rule.name)

theorem declared : sel.rule ∈ sel.table.rules :=
  (Rule.sublist_of_satisfied sel.single).subset List.mem_cons_self

/-- The coordinate is the target of an assignment. -/
def Targets (name : Scalar) (fragment : String) : Prop :=
  ∃ a ∈ sel.rule.assignments, name = .text a.target.source ∧ fragment = a.target.fragment

end Selection

/-- Opening a context on a state with distinct sources changes none of them. -/
theorem exists_freshOver {state : StateId} {catalog : Catalog} {backend : Option Backend}
    {ctx : ContextId} {opened : Store} (tidy : σ.Tidy (σ.state state))
    (fresh : runFrom (requestOfValue request >>= fun source =>
      ContextId.open state (some catalog) source backend) σ = (.ok ctx, opened)) :
    ∃ own, σ.FreshOver opened ctx state own ∧ (opened.context ctx).backend = backend := by
  obtain ⟨source, _, made, fresh⟩ := runFrom_bind_value fresh
  obtain ⟨values, _, taken, made⟩ := runFrom_bind_value made
  rw [runFrom_ofExcept, Prod.mk.injEq] at taken
  obtain ⟨_, rfl⟩ := taken
  cases made
  obtain ⟨ctx', opened', own, fresh', opens, backend⟩ :=
    ContextId.exists_open_over tidy (some catalog) (.requestOf values) backend
  cases fresh.symm.trans fresh'
  exact ⟨own, opens, backend⟩

/-- A context over a state finds its sources, each under its name. -/
theorem find?_scope_of_over {ctx : ContextId} {opened : Store} {own : Registry}
    {state : StateId} (above : opened.Over ctx state own) {name : Scalar} {source : Source}
    (held : (opened.holdings state).find? name = some source) :
    ∃ id, Assoc.find? (opened.scope (opened.context ctx).registry) name = some (id, source) := by
  rw [Store.holdings, Assoc.find?_mapValues, Option.map_eq_some_iff] at held
  obtain ⟨id, stored, rfl⟩ := held
  exact ⟨id, above.find?_scope stored⟩

theorem workOn_eq (c : Computation) (command : String) (request : Value) :
    c.workOn command request c.state = c.open request >>= fun ctx => ctx.perform command := by
  simp only [workOn, Computation.open, bind_assoc]

/-- A command whose work would fail in the state itself fails alike. -/
theorem perform_failed (mirrors : P.Mirrors σ σ) (pair : P.states c.state.index c.state.index)
    {f : Fault} (failed : (runFrom (c.workOn command request c.state) σ).1 = .error f) :
    (runFrom (c.perform command request) σ).1 = .error f := by
  have performed : σ.Carried c.state (runFrom (c.perform command request) σ) (.error f) := by
    refine carried_of_work mirrors pair ?_
    rw [show runFrom (c.workOn command request c.state) σ = (.error f, _) from Prod.ext failed rfl]
    exact .failed f _
  revert performed
  generalize runFrom (c.perform command request) σ = ran
  intro performed
  cases performed
  rfl

/-- A command is enacted on the sources that a context opened on the current state finds, and what it
writes is written to the current state. -/
theorem carried_command (mirrors : P.Mirrors σ σ) (pair : P.states c.state.index c.state.index)
    {commands : Catalog} (backend : c.backend = some (.tables commands)) {ctx : ContextId}
    {opened : Store} (fresh : runFrom (c.open request) σ = (.ok ctx, opened)) {t : Table}
    (found : commands.table command = .ok t) :
    σ.Carried c.state (runFrom (c.perform command request) σ)
      (runFrom ((opened.scope (opened.context ctx).registry).enact σ.room command t) .start).1 := by
  have tidy := mirrors.state_tidy pair
  obtain ⟨own, freshOver, backend'⟩ := exists_freshOver tidy fresh
  have performed := ContextId.carried_perform freshOver.above (backend'.trans backend) found
  rw [freshOver.progress, freshOver.keeps.room] at performed
  refine carried_of_work mirrors pair ?_
  rw [workOn_eq, runFrom_bind_ok fresh]
  exact performed.of_holdings
    (Store.holdings_keep tidy (mirrors.states.left_lt pair) freshOver.keeps)

/-- A command that succeeds runs the assignments of the rule that it selects, and writes what they
give to the state. -/
theorem exists_selection (mirrors : P.Mirrors σ σ) (pair : P.states c.state.index c.state.index)
    {commands : Catalog} (backend : c.backend = some (.tables commands)) {u : Unit}
    (ran : runFrom (c.perform command request) σ = (.ok u, σ')) :
    ∃ (sel : c.Selection commands command request σ) (texts : List String) (p : Progress),
      runFrom (sel.scope.carry σ.room sel.rule.assignments) sel.progress = (.ok texts, p) ∧
      σ'.holdings c.state =
        (σ.holdings c.state).putAll (Assignment.writes sel.rule.assignments texts) := by
  have succeeds : ∀ f, (runFrom (c.workOn command request c.state) σ).1 ≠ .error f := by
    intro f failed
    have performed := perform_failed mirrors pair failed
    rw [ran] at performed
    cases performed
  rw [workOn_eq] at succeeds
  rcases fresh : runFrom (c.open request) σ with ⟨result, opened⟩
  cases result with
  | error f =>
      rw [runFrom_bind_fault fresh] at succeeds
      exact absurd rfl (succeeds f)
  | ok ctx =>
      have tidy := mirrors.state_tidy pair
      obtain ⟨own, freshOver, backend'⟩ := exists_freshOver tidy fresh
      cases found : commands.table command with
      | error e =>
          rw [runFrom_bind_ok fresh] at succeeds
          exact absurd (ContextId.runFrom_perform_unknown (backend'.trans backend) found) (succeeds _)
      | ok t =>
          have carried := carried_command mirrors pair backend fresh found
          rw [ran] at carried
          rcases enacted : runFrom ((opened.scope (opened.context ctx).registry).enact σ.room command t)
            .start with ⟨result, q⟩
          rw [enacted] at carried
          cases carried with
          | written held =>
              obtain ⟨r, texts, p, single, carried, rfl⟩ := Scope.exists_of_enact enacted
              have still := Store.holdings_keep tidy (mirrors.states.left_lt pair) freshOver.keeps
              rw [← freshOver.keeps.room] at single
              refine ⟨⟨t, ctx, opened, r, p, found, fresh, freshOver.progress, ?_, single⟩, texts, q,
                carried, held⟩
              rw [← still]
              exact fun _ _ => find?_scope_of_over freshOver.above

theorem Selection.rewritten {commands : Catalog} (sel : c.Selection commands command request σ)
    (held : Holdings) (texts : List String) :
    held.Rewritten sel.Targets (held.putAll (Assignment.writes sel.rule.assignments texts)) := by
  refine Holdings.rewritten_putAll _ held fun w member name same => ?_
  obtain ⟨a, inside, target⟩ := List.mem_map.mp (List.of_mem_zip member).1
  exact ⟨a, inside, target ▸ Scalar.eq_text_of_beq same, target ▸ rfl⟩

end Computation

/-! ## Commands of a session -/

namespace Session

variable {s : Session} {which : Nat} {c : Computation}

theorem getElem?_of_prefix {α : Type} {xs ys : List α} (kept : xs <+: ys) {i : Nat} {x : α}
    (found : xs[i]? = some x) : ys[i]? = some x := by
  obtain ⟨more, rfl⟩ := kept
  rw [List.getElem?_append_left (List.getElem?_eq_some_iff.mp found).1, found]

theorem step_storedState (built : s.computations[which]? = some c) :
    s.step (.computation which .storedState) =
      (.ok (.entries (s.store.holdings c.state).shown), s) := by
  have shown : (s.store.holdings c.state).shown = StateId.exportFrom s.store (s.store.state c.state) := by
    simp only [Holdings.shown, Store.holdings, StateId.exportFrom, Assoc.mapValues, List.map_map,
      Function.comp_def]
  rw [step_of_answer (perform_computation built _), shown]
  rfl

theorem step_performCommand (built : s.computations[which]? = some c) (command : String)
    (request : Value) :
    s.step (.computation which (.perform command request)) =
      ((runFrom (c.perform command request) s.store).1.map fun _ => .done,
        { s with store := (runFrom (c.perform command request) s.store).2 }) :=
  step_of_answer (perform_computation built _)

/-- A command of a session that succeeds writes what the rule that it selects gives. -/
theorem exists_selection {room : Option Nat} (reached : s.Reached room)
    (built : s.computations[which]? = some c) {commands : Catalog}
    (backend : c.backend = some (.tables commands)) {command : String} {request : Value}
    (performed : (s.step (.computation which (.perform command request))).1 = .ok .done) :
    ∃ (sel : c.Selection commands command request s.store) (texts : List String) (p : Progress),
      runFrom (sel.scope.carry room sel.rule.assignments) sel.progress = (.ok texts, p) ∧
      (s.step (.computation which (.perform command request))).2.store.holdings c.state =
        (s.store.holdings c.state).putAll (Assignment.writes sel.rule.assignments texts) := by
  obtain ⟨P, twins⟩ := reached.exists_twins
  have self := List.forall₂_same.mp twins.computations c (List.mem_of_getElem? built)
  rw [step_performCommand built] at performed ⊢
  cases ran : runFrom (c.perform command request) s.store with
  | mk result σ =>
    rw [ran] at performed
    cases result with
    | error f => cases performed
    | ok u =>
        rw [← reached.room_eq]
        exact Computation.exists_selection twins.mirrors self.state backend ran

/-- A command that succeeds selects one rule in a context of its own on the current state, and leaves
the current state with the texts of the assignments of this rule, each resolved in what those before
it have left.  Nothing else of the state changes, and new fragments come last. -/
theorem command_effect_is_exact {room : Option Nat} (reached : s.Reached room)
    (built : s.computations[which]? = some c) {commands : Catalog}
    (backend : c.backend = some (.tables commands)) {command : String} {request : Value}
    (performed : (s.step (.computation which (.perform command request))).1 = .ok .done) :
    let s' := (s.step (.computation which (.perform command request))).2
    ∃ (sel : c.Selection commands command request s.store) (texts : List String) (p : Progress),
      sel.rule ∈ sel.table.rules ∧
      runFrom (sel.scope.carry room sel.rule.assignments) sel.progress = (.ok texts, p) ∧
      s'.store.holdings c.state =
        (s.store.holdings c.state).putAll (Assignment.writes sel.rule.assignments texts) ∧
      (s.store.holdings c.state).Rewritten sel.Targets (s'.store.holdings c.state) ∧
      (s.step (.computation which .storedState)).1 =
        .ok (.entries (s.store.holdings c.state).shown) ∧
      (s'.step (.computation which .storedState)).1 =
        .ok (.entries (s'.store.holdings c.state).shown) := by
  obtain ⟨sel, texts, p, carried, written⟩ := exists_selection reached built backend performed
  have built' := getElem?_of_prefix
    (computations_step s (.computation which (.perform command request))) built
  refine ⟨sel, texts, p, sel.declared, carried, written, ?_, ?_, ?_⟩
  · rw [written]
    exact sel.rewritten _ texts
  · rw [step_storedState built]
  · rw [step_storedState built']

/-- A command that writes a fragment twice, and another one from what was written before. -/
def stepping : Table :=
  .make "step"
    [⟨"1", [⟨.row .assignment, "counter::n", "request::by"⟩,
      ⟨.row .assignment, "counter::total", "counter::n"⟩, ⟨.row .assignment, "counter::n", "1"⟩]⟩] none

/-- A computation with this command, on a state of two counters. -/
def steps : List Operation :=
  [.build .empty (.ofList [stepping])
    (.contents (.mapping [(.text "counter", .mapping [(.text "n", .scalar (.int 0))]),
      (.text "other", .mapping [(.text "n", .scalar (.int 5))])]))]

/-- This computation. -/
def stepper : Computation :=
  ⟨⟨.empty, ⟨0⟩, some (.tables (.ofList [stepping]))⟩, some (.tables (.ofList [stepping])), ⟨0⟩⟩

/-- A request to step. -/
def byThree : Value := .mapping [(.text "by", .text "3")]

theorem steps_are_exact :
    (((start none).after steps).step (.computation 0 (.perform "step" byThree))).1 = .ok .done ∧
    (((start none).after steps).step (.computation 0 (.perform "step" byThree))).2.answers
        [.computation 0 .storedState] =
      [.ok (.entries [(.text "counter", .mapping [(.text "n", .text "1"), (.text "total", .text "3")]),
        (.text "other", .mapping [(.text "n", .scalar (.int 5))])])] ∧
    ∃ (r : Rule) (texts : List String),
      (((start none).after steps).step (.computation 0 (.perform "step" byThree))).2.store.holdings
          stepper.state =
        (((start none).after steps).store.holdings stepper.state).putAll
          (Assignment.writes r.assignments texts) := by
  have performed :
      (((start none).after steps).step (.computation 0 (.perform "step" byThree))).1 = .ok .done := by
    cbv
  have reached : ((start none).after steps).Reached none := ⟨steps, rfl⟩
  have built : ((start none).after steps).computations[0]? = some stepper := by cbv
  have backend : stepper.backend = some (.tables (.ofList [stepping])) := rfl
  obtain ⟨sel, texts, _, _, _, written, _⟩ := command_effect_is_exact reached built backend performed
  exact ⟨performed, by cbv, sel.rule, texts, written⟩

end Session

end DecisionTables
