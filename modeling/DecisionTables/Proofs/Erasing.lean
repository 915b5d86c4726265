import DecisionTables.Proofs.Adding
import DecisionTables.Proofs.Isolation
import DecisionTables.Proofs.Naming

/-!
# Queries can be erased

A query works on objects that it makes itself: it opens a context of its own, which
nothing that the caller can name leads to, and it writes to no source of the state.  So
a list of operations answers the same when queries are left out of it.  What stays has
to name its objects by other places then, for a query may make an object as well.
-/

namespace DecisionTables

/-! ## Steps that write to no source -/

/-- Whatever source a step finds in the store, it leaves as it was. -/
def LeavesSources {α : Type} (x : Engine α) : Prop :=
  ∀ (σ : Store) (i : Nat) (s : Source), σ.sources[i]? = some s →
    (runFrom x σ).2.sources[i]? = some s

theorem OnlyAdds.leavesSources {α : Type} {x : Engine α} (adds : OnlyAdds x) : LeavesSources x := by
  intro σ i s found
  obtain ⟨s', now, _, same⟩ := (adds σ).sources i s found
  rw [now, same id]

namespace LeavesSources

variable {α β : Type}

theorem frame : Frame fun σ τ => ∀ (i : Nat) (s : Source), σ.sources[i]? = some s → τ.sources[i]? = some s where
  refl _ _ _ found := found
  trans first second i s found := second i s (first i s found)

theorem pure (a : α) : LeavesSources (pure a) := frame.pure a

theorem throw (f : Fault) : LeavesSources (throw f : Engine α) := frame.throw f

theorem get : LeavesSources (get : Engine Store) := fun σ => frame.refl σ

theorem ofEngine (r : Except EngineError α) : LeavesSources (Engine.ofEngine r) := frame.ofEngine r

theorem bind {x : Engine α} {f : α → Engine β} (first : LeavesSources x)
    (rest : ∀ a, LeavesSources (f a)) : LeavesSources (x >>= f) :=
  frame.bind first rest

theorem evaluate (ctx : ContextId) (step : Resolver → Evaluation α) :
    LeavesSources (ctx.evaluate step) := by
  intro σ i s found
  rw [ctx.runFrom_evaluate]
  exact found

theorem outcome (ctx : ContextId) (table : String) : LeavesSources (ctx.outcome table) := by
  unfold ContextId.outcome ContextId.table ContextId.catalog
  refine bind (bind (bind get fun σ => ?_) fun catalog => ofEngine _) fun t => evaluate ctx _
  split
  · exact pure _
  · exact throw _

theorem decideByFacade (d : Decisions) (table : String) (choice : StateChoice) (request : Value) :
    LeavesSources (d.decide table choice request) :=
  (OnlyAdds.openDecisions d choice request).leavesSources.bind fun ctx => outcome ctx table

theorem find (id : StateId) (name : String) : LeavesSources (id.find name) := by
  unfold StateId.find
  refine bind get fun σ => ?_
  split
  · exact pure _
  · exact throw _

theorem readAll (ctx : ContextId) (id : SourceId) (source : Source) (fragments : List String) :
    LeavesSources (Computation.readAll ctx id source fragments) := by
  induction fragments with
  | nil => exact pure []
  | cons fragment rest ih =>
      exact (get.bind fun _ => evaluate ctx _).bind fun _ => ih.bind fun _ => pure _

theorem stateFor (c : Computation) (name : String) (fragments : List String) :
    LeavesSources (c.stateFor name fragments) :=
  (find c.state name).bind fun id => get.bind fun _ =>
    (OnlyAdds.openComputation c .null).leavesSources.bind fun ctx =>
      (readAll ctx id _ fragments).bind fun _ => pure _

/-- Of all that is done with a computation, only commands and self-tests write to sources. -/
theorem onComputation (s : Session) (c : Computation) {op : ComputationOperation}
    (asks : op.replaces = false) (untested : ∀ tests, op ≠ .selfTest tests) :
    LeavesSources (s.onComputation c op) := by
  have chosen := fun choice => (OnlyAdds.choose s choice).leavesSources
  cases op with
  | decide table choice =>
      exact (chosen choice).bind fun _ => (decideByFacade _ _ _ _).bind fun _ => pure _
  | decideByFacade table choice request =>
      exact (chosen choice).bind fun _ => (decideByFacade _ _ _ _).bind fun _ => pure _
  | perform command request => cases asks
  | hasState name => exact (get.bind fun _ => pure _).bind fun _ => pure _
  | stateFor name fragments => exact (stateFor c name fragments).bind fun _ => pure _
  | storedState => exact (get.bind fun _ => pure _).bind fun _ => pure _
  | withState contents =>
      exact ((OnlyAdds.ofNested contents).leavesSources.bind fun _ => pure _).bind fun _ => pure _
  | selfTest tests => exact absurd rfl (untested tests)
  | tableNames => exact pure _
  | hasTable table => exact pure _
  | findRule table rule => exact (ofEngine _).bind fun _ => pure _
  | «open» request =>
      exact (OnlyAdds.openComputation c request).leavesSources.bind fun _ => pure _
  | openByFacade choice request =>
      exact (chosen choice).bind fun _ =>
        (OnlyAdds.openDecisions _ _ _).leavesSources.bind fun _ => pure _
  | state => exact pure _

end LeavesSources

/-! ## Steps that cannot name a context -/

namespace Pairing

variable {P : Pairing} {σ τ σ' τ' : Store}

/-- The pairs of sources and states alone. -/
def durable (P : Pairing) : Pairing :=
  { blank with sources := P.sources, states := P.states }

theorem Mirrors.durable (mirrors : P.Mirrors σ τ) : P.durable.Mirrors σ τ :=
  ⟨mirrors.room, mirrors.sources, mirrors.states, .empty _ _, .empty _ _, mirrors.tidy⟩

/-- A step that is given no context and writes to no source only adds to the store. -/
theorem Advance.keeps {Q : Pairing} (advance : P.durable.Advance Q σ τ σ' τ')
    (sources : ∀ (i : Nat) (s : Source), σ.sources[i]? = some s → σ'.sources[i]? = some s) :
    Keeps Owned.nothing σ σ' where
  room := advance.left.room
  sources i s found := ⟨s, sources i s found, .refl s, fun _ => rfl⟩
  states := advance.left.states
  contexts := advance.left.contexts.mono fun _ ⟨_, impossible⟩ => impossible
  traces := advance.left.traces.mono fun _ ⟨_, impossible⟩ => impossible

end Pairing

/-! ## Queries -/

/-- The operation asks something of a computation: it is about one, and is no command. -/
def Operation.asks : Operation → Bool
  | .computation _ op => !op.replaces
  | _ => false

namespace Session

variable {P : Pairing} {s : Session}

/-- A query only adds to the store. -/
theorem keeps_query (twins : P.Twins s s) {op : Operation} (asks : op.asks = true) :
    Keeps Owned.nothing s.store (s.step op).2.store := by
  cases op with
  | computation which op =>
      have asks : op.replaces = false := by simpa [Operation.asks] using asks
      rw [store_step]
      cases built : s.computations[which]? with
      | none =>
          rw [perform_missing_computation built]
          exact .refl _
      | some c =>
          have self := List.forall₂_same.mp twins.computations c (List.mem_of_getElem? built)
          by_cases tested : ∃ tests, op = .selfTest tests
          · obtain ⟨tests, rfl⟩ := tested
            rw [← store_step, step_selfTest built]
            exact keeps_selfTest (twins.mirrors.statesAlike self.state) tests
          · rw [perform_computation built]
            obtain ⟨Q, advance, _⟩ := pairsAt_onComputation twins.mirrors.durable twins.states
              (c := c) (d := c) { self with } asks
            refine advance.keeps (LeavesSources.onComputation s c asks ?_ s.store)
            exact fun tests same => tested ⟨tests, same⟩
  | _ => cases asks

/-- How the objects of a session are named in a session that has made some more. -/
def naming (s t : Session) : Naming where
  computations := past s.computations.length t.computations.length
  contexts := past s.contexts.length t.contexts.length
  states := past s.states.length t.states.length

theorem renamed_step (s : Session) (op : Operation) :
    Renamed (s.naming (s.step op).2) { s with store := (s.step op).2.store } (s.step op).2 :=
  ⟨rfl, finds_past (computations_step s op), finds_past (contexts_step s op),
    finds_past (states_step s op)⟩

/-- Whatever is done after a query answers as without the query. -/
theorem answers_after_query (twins : P.Twins s s) {op : Operation} (asks : op.asks = true)
    (later : List Operation) :
    (s.step op).2.answers (later.map (Operation.renamed (s.naming (s.step op).2))) =
      s.answers later := by
  rw [(renamed_step s op).answers_eq]
  exact twins.answers_of_keeps (keeps_query twins asks) later

/-! ## Erasing -/

/-- The second list is the first one without some of its queries, which are marked by `false`.
What stays names no object that an erased query has made. -/
inductive Erased : Session → List (Operation × Bool) → List Operation → Prop where
  | done (s : Session) : Erased s [] []
  | keep {s : Session} {op : Operation} {marked : List (Operation × Bool)} {rest : List Operation}
      (later : Erased (s.step op).2 marked rest) : Erased s ((op, true) :: marked) (op :: rest)
  | erase {s : Session} {op : Operation} {marked : List (Operation × Bool)} {rest : List Operation}
      (asks : op.asks = true)
      (later : Erased (s.step op).2 marked
        (rest.map (Operation.renamed (s.naming (s.step op).2)))) :
      Erased s ((op, false) :: marked) rest

/-- What the marked operations answer, of those that are marked by `true`. -/
def keptAnswers (s : Session) : List (Operation × Bool) → List (Except Fault Answer)
  | [] => []
  | (op, kept) :: rest =>
    if kept then (s.step op).1 :: keptAnswers (s.step op).2 rest
    else keptAnswers (s.step op).2 rest

theorem answers_of_erased {room : Option Nat} {s : Session} (reached : s.Reached room)
    {marked : List (Operation × Bool)} {rest : List Operation} (erased : Erased s marked rest) :
    s.answers rest = s.keptAnswers marked := by
  induction erased with
  | done s => rfl
  | @keep s op marked rest _ ih =>
      rw [answers, keptAnswers, if_pos rfl, ih (reached.after [op])]
  | @erase s op marked rest asks _ ih =>
      obtain ⟨P, twins⟩ := reached.exists_twins
      have left := ih (reached.after [op])
      rw [answers_after_query twins asks] at left
      exact left

/-- The operations that are marked by `true`. -/
def keptOperations (marked : List (Operation × Bool)) : List Operation :=
  (marked.filter fun entry => entry.2).map fun entry => entry.1

/-- No later session has fewer objects. -/
structure Grows (s t : Session) : Prop where
  computations : s.computations.length ≤ t.computations.length
  contexts : s.contexts.length ≤ t.contexts.length
  states : s.states.length ≤ t.states.length

theorem Grows.step {s t : Session} (grows : s.Grows t) (op : Operation) :
    s.Grows (t.step op).2 :=
  ⟨grows.computations.trans (computations_step t op).length_le,
    grows.contexts.trans (contexts_step t op).length_le,
    grows.states.trans (states_step t op).length_le⟩

theorem Grows.fixes {s t : Session} (grows : s.Grows t) (u : Session) : (t.naming u).Fixes s :=
  ⟨fun _ inside => past_of_lt (inside.trans_le grows.computations),
    fun _ inside => past_of_lt (inside.trans_le grows.contexts),
    fun _ inside => past_of_lt (inside.trans_le grows.states)⟩

/-- Operations on objects that were there from the start stay as they are. -/
theorem erased_of_within {s t : Session} (grows : s.Grows t) {marked : List (Operation × Bool)}
    (asks : ∀ entry ∈ marked, entry.2 = false → entry.1.asks = true)
    (within : ∀ entry ∈ marked, entry.2 = true → entry.1.within s = true) :
    Erased t marked (keptOperations marked) := by
  induction marked generalizing t with
  | nil => exact .done t
  | cons entry rest ih =>
      obtain ⟨op, kept⟩ := entry
      have within' := fun later member => within later (List.mem_cons_of_mem _ member)
      have more := ih (grows.step op)
        (fun later member => asks later (List.mem_cons_of_mem _ member)) within'
      cases kept with
      | true => exact .keep more
      | false =>
          have same : (keptOperations rest).map (Operation.renamed (t.naming (t.step op).2)) =
              keptOperations rest := by
            refine (List.map_congr_left fun later member => ?_).trans (List.map_id _)
            obtain ⟨entry, chosen, rfl⟩ := List.mem_map.mp member
            obtain ⟨inside, kept⟩ := List.mem_filter.mp chosen
            exact Operation.renamed_of_within (grows.fixes _) (within' entry inside kept)
          refine .erase (asks _ List.mem_cons_self rfl) ?_
          change Erased _ rest ((keptOperations rest).map _)
          rw [same]
          exact more

/-- When queries are left out, whether they fail or not, all that stays answers the same, also
where what stays is about objects that were made meanwhile. -/
theorem queries_can_be_erased {room : Option Nat} {s : Session} (reached : s.Reached room) :
    (∀ (marked : List (Operation × Bool)) (rest : List Operation), Erased s marked rest →
      s.answers rest = s.keptAnswers marked) ∧
    ∀ marked : List (Operation × Bool),
      (∀ entry ∈ marked, entry.2 = false → entry.1.asks = true) →
      (∀ entry ∈ marked, entry.2 = true → entry.1.within s = true) →
      s.answers (keptOperations marked) = s.keptAnswers marked :=
  ⟨fun _ _ erased => answers_of_erased reached erased, fun _ asks within =>
    answers_of_erased reached (erased_of_within ⟨Nat.le_refl _, Nat.le_refl _, Nat.le_refl _⟩
      asks within)⟩

/-- The contents of a state with one counter. -/
def tally : Assoc Scalar Value :=
  [(.text "counter", .mapping [(.text "n", .scalar (.int 0))])]

/-- Commands of which one adds to the counter's fragments. -/
def marks : Catalog :=
  .ofList [.make "mark" [⟨"1", [⟨.row .assignment, "counter::m", "1"⟩]⟩] none]

/-- A computation with this command. -/
def marking : List Operation :=
  [.build .empty marks (.contents (.mapping tally))]

/-- Queries around a command, one of which makes a context and one of which fails. -/
def asked : List (Operation × Bool) :=
  [(.computation 0 (.open .null), false),
    (.computation 0 (.decide "missing" .absent), false),
    (.computation 0 (.open .null), true),
    (.context 1 (.write ⟨"counter", "n"⟩ (.text "5")), true),
    (.computation 0 (.perform "mark" .null), true),
    (.computation 0 .storedState, true)]

/-- What stays of them. -/
def unasked : List Operation :=
  [.computation 0 (.open .null), .context 0 (.write ⟨"counter", "n"⟩ (.text "5")),
    .computation 0 (.perform "mark" .null), .computation 0 .storedState]

theorem erased_asked : Erased ((start none).after marking) asked unasked := by
  have opened : naming ((start none).after marking)
      (((start none).after marking).step (.computation 0 (.open .null))).2 =
        ⟨past 1 1, past 0 1, past 0 0⟩ := by cbv
  have decided : naming (((start none).after marking).step (.computation 0 (.open .null))).2
      ((((start none).after marking).step (.computation 0 (.open .null))).2.step
        (.computation 0 (.decide "missing" .absent))).2 =
        ⟨past 1 1, past 1 1, past 0 0⟩ := by cbv
  refine .erase rfl ?_
  rw [opened]
  refine .erase rfl ?_
  rw [decided]
  exact .keep (.keep (.keep (.keep (.done _))))

/-- A self-test before a command. -/
def rehearsed : List (Operation × Bool) :=
  [(.computation 0 (.selfTest none), false), (.computation 0 (.perform "mark" .null), true)]

theorem asked_can_be_erased :
    ((start none).after marking).answers unasked =
        ((start none).after marking).keptAnswers asked ∧
      ((start none).after marking).answers [.computation 0 (.perform "mark" .null)] =
        ((start none).after marking).keptAnswers rehearsed := by
  have reached : ((start none).after marking).Reached none := ⟨marking, rfl⟩
  obtain ⟨erased, within⟩ := queries_can_be_erased reached
  have built : 0 < ((start none).after marking).computations.length := by cbv
  refine ⟨erased _ _ erased_asked, within rehearsed (by decide) ?_⟩
  intro entry member kept
  obtain rfl | rfl := List.mem_pair.mp member
  · cases kept
  · exact Bool.and_eq_true_iff.mpr ⟨decide_eq_true built, rfl⟩

end Session

end DecisionTables
