import Mathlib
import DecisionTables.Proofs.Depending
import DecisionTables.Proofs.Reaching
import DecisionTables.Proofs.Registering

/-!
# Contexts that differ elsewhere

Contexts are opened on states of sessions, over tables, with requests.  Wherever two of them
agree on what a table reaches, that table is decided alike in both: nothing else that a state,
a request or a catalog holds makes a difference to it.
-/

namespace DecisionTables

/-! ## Scopes of contexts -/

/-- Where no source is registered twice, none is there under two names. -/
theorem Store.apart_scope (σ : Store) {r : Registry} (apart : r.values.Nodup) : (σ.scope r).Apart := by
  have registered : ∀ {name id source}, Assoc.find? (σ.scope r) (.text name) = some (id, source) →
      (Scalar.text name, id) ∈ r := by
    intro name id source found
    rw [Store.scope, Assoc.find?_mapValues] at found
    obtain ⟨id', found, same⟩ := Option.map_eq_some_iff.mp found
    obtain ⟨key, equal, member⟩ := Assoc.exists_mem_of_find? found
    rw [Scalar.eq_text_of_beq equal] at member
    cases same
    exact member
  intro m n id s s' left right
  cases List.inj_on_of_nodup_map apart (registered left) (registered right) rfl
  rfl

namespace Scope

variable {scope scope' : Scope} {t : Table}

/-- Scopes that agree on all that a table reaches. -/
theorem Agree.of_reaches (agree : ∀ c, scope.Reaches t c → scope.AgreeAt scope' c)
    (ends : ∀ c, scope.Reaches t c → ¬ scope.Endless c) (apart : scope.Apart) (apart' : scope'.Apart) :
    scope.Agree scope' (scope.Reaches t) where
  reads c reached := (agree c reached).readAlike
  tables reached found content _ member := .table reached found content member
  conditions reached follows := .condition reached follows
  ends := ends
  apart := apart
  apart' := apart'

end Scope

/-! ## States of sessions -/

/-- A state that a session holds: by itself, in a computation or in a context. -/
inductive Session.Holds (s : Session) : StateId → Prop where
  | state {state} (member : state ∈ s.states) : s.Holds state
  | current {c} (member : c ∈ s.computations) : s.Holds c.state
  | deciding {c} (member : c ∈ s.computations) : s.Holds c.decisions.state
  | context {ctx} (member : ctx ∈ s.contexts) : s.Holds (s.store.context ctx).state

/-- The sources of a state that is held are distinct. -/
theorem Session.Reached.tidy {room : Option Nat} {s : Session} (reached : s.Reached room)
    {state : StateId} (held : s.Holds state) : s.store.Tidy (s.store.state state) := by
  obtain ⟨P, twins⟩ := reached.exists_twins
  have mirrors := twins.mirrors
  cases held with
  | state member => exact mirrors.state_tidy (List.forall₂_same.mp twins.states state member)
  | current member => exact mirrors.state_tidy (List.forall₂_same.mp twins.computations _ member).state
  | deciding member =>
      exact mirrors.state_tidy (List.forall₂_same.mp twins.computations _ member).deciding
  | context member =>
      exact mirrors.state_tidy
        (mirrors.context_rel (List.forall₂_same.mp twins.contexts _ member)).state

/-! ## Decisions -/

namespace ContextId

variable {σ : Store} {ctx : ContextId} {name : String} {t : Table}

/-- The outcome of a table by its name is that of the table that is found. -/
theorem runFrom_outcome_of_found (found : (runFrom (ctx.table name) σ).1 = .ok t) :
    runFrom (ctx.outcome name) σ = runFrom (ctx.evaluate t.decideOnce) σ := by
  cases registered : (σ.context ctx).catalog with
  | none =>
      have missing : runFrom ctx.catalog σ = (.error .missingMember, σ) := by
        rw [catalog, runFrom_bind, runFrom_get]
        simp only [registered]
        rfl
      rw [ContextId.table, runFrom_bind_fault missing] at found
      cases found
  | some tables =>
      rw [runFrom_table registered] at found
      rw [outcome, runFrom_bind, runFrom_table registered]
      revert found
      cases tables.table name with
      | error _ => exact fun impossible => by cases impossible
      | ok u =>
          intro found
          cases found
          rfl

end ContextId

theorem Store.FreshOver.runFrom_evaluate {σ opened : Store} {ctx : ContextId} {state : StateId}
    {own : Registry} (fresh : σ.FreshOver opened ctx state own) {α : Type}
    (step : Resolver → Evaluation α) :
    (runFrom (ctx.evaluate step) opened).1 =
      (runFrom (step ((opened.scope (opened.context ctx).registry).resolve σ.room)) .start).1 := by
  rw [ctx.runFrom_evaluate, Store.resolver, fresh.progress, fresh.keeps.room]

namespace Session

/-- A decision depends on nothing but what its table reaches.  Wherever two contexts are opened on
states of sessions, over whatever tables and with whatever requests, a table is decided alike in both
if they agree on the coordinates that it reaches and no chain of named conditions from these is
endless: it has the same outcome in both or fails with the same fault, also where each of them finds
it under a name. -/
theorem decisions_depend_on_what_is_reached {room : Option Nat} {s s' : Session}
    (reached : s.Reached room) (reached' : s'.Reached room) {state state' : StateId}
    (held : s.Holds state) (held' : s'.Holds state') (catalog catalog' : Option Catalog)
    (request request' : Source) (backend backend' : Option Backend) :
    ∃ ctx opened ctx' opened',
      runFrom (ContextId.open state catalog request backend) s.store = (.ok ctx, opened) ∧
      runFrom (ContextId.open state' catalog' request' backend') s'.store = (.ok ctx', opened') ∧
      ∀ t : Table,
        let scope := opened.scope (opened.context ctx).registry
        let scope' := opened'.scope (opened'.context ctx').registry
        (∀ c, scope.Reaches t c → scope.AgreeAt scope' c) →
        (∀ c, scope.Reaches t c → ¬ scope.Endless c) →
          (runFrom (ctx.evaluate t.decide) opened).1 = (runFrom (ctx'.evaluate t.decide) opened').1 ∧
          (runFrom (ctx.evaluate t.decideOnce) opened).1 =
            (runFrom (ctx'.evaluate t.decideOnce) opened').1 ∧
          ∀ name name', (runFrom (ctx.table name) opened).1 = .ok t →
            (runFrom (ctx'.table name') opened').1 = .ok t →
            (runFrom (ctx.outcome name) opened).1 = (runFrom (ctx'.outcome name') opened').1 := by
  obtain ⟨ctx, opened, own, ran, fresh, _⟩ :=
    ContextId.exists_open_over (reached.tidy held) catalog request backend
  obtain ⟨ctx', opened', own', ran', fresh', _⟩ :=
    ContextId.exists_open_over (reached'.tidy held') catalog' request' backend'
  refine ⟨ctx, opened, ctx', opened', ran, ran', fun t => ?_⟩
  intro scope scope' agree ends
  have agree : scope.Agree scope' (scope.Reaches t) := .of_reaches agree ends
    (opened.apart_scope fresh.above.registered.1) (opened'.apart_scope fresh'.above.registered.1)
  have subjects : ∀ c ∈ t.subjects, scope.Reaches t c := fun _ => .subject
  have once : (runFrom (ctx.evaluate t.decideOnce) opened).1 =
      (runFrom (ctx'.evaluate t.decideOnce) opened').1 := by
    rw [fresh.runFrom_evaluate, fresh'.runFrom_evaluate, reached.room_eq, reached'.room_eq]
    exact agree.decideOnce_eq subjects room
  refine ⟨?_, once, fun name name' found found' => ?_⟩
  · rw [fresh.runFrom_evaluate, fresh'.runFrom_evaluate, reached.room_eq, reached'.room_eq]
    exact agree.decide_eq subjects room
  · rw [ContextId.runFrom_outcome_of_found found, ContextId.runFrom_outcome_of_found found']
    exact once

/-- A table that reads a named condition and another table. -/
def gateTable : Table :=
  .make "gate" [⟨"open", [⟨.row .condition, "conditions::started", "true"⟩,
    ⟨.row .condition, "size::outcome", "some"⟩, ⟨.row .outcome, "text", "open"⟩]⟩] none

/-- The table that it reads. -/
def sizeTable : Table :=
  .make "size" [⟨"some", [⟨.row .condition, "counter::n", ">0"⟩, ⟨.row .outcome, "outcome", "some"⟩]⟩]
    none

/-- A session with a state of a counter, a named condition on it, and more. -/
def guarded (values : Assoc Scalar Value) (named : List (String × Condition))
    (others : List (Scalar × Source)) : Session :=
  (start (some Nesting.evaluationRoom)).after [.newState (.sources
    ([(.text "counter", .stored (.text "counter") ((.text "n", .scalar (.int 1)) :: values) []),
      (.text "conditions", .ofConditions (("started", .parse "counter::n" ">0") :: named))] ++ others))]

/-- The session with nothing more. -/
def plain : Session := guarded [] [] []

/-- The session with another fragment, another named condition, and a source that hides the
constants. -/
def laden : Session :=
  guarded [(.text "m", .scalar (.int 2))] [("later", .parse "request::x" "1")]
    [(.text "constant", .stored (.text "constant") [] [])]

/-- The store with a context over these tables and the plain state. -/
def overPlain : Store :=
  (runFrom (ContextId.open ⟨0⟩ (some (.ofList [gateTable, sizeTable])) (.requestOf []) none) plain.store).2

/-- The store with a context over more tables and the other state, with a request. -/
def overLaden : Store :=
  (runFrom (ContextId.open ⟨0⟩ (some (.ofList [sizeTable, .make "more" [] none, gateTable]))
    (.requestOf [(.text "x", .scalar (.int 1))]) (some .bare)) laden.store).2

theorem reached_from_gate {c : Coordinate}
    (reached : (overPlain.scope (overPlain.context ⟨0⟩).registry).Reaches gateTable c) :
    c = ⟨"conditions", "started"⟩ ∨ c = ⟨"size", "outcome"⟩ ∨ c = ⟨"counter", "n"⟩ := by
  induction reached with
  | subject member =>
      have subjects : gateTable.subjects = [⟨"conditions", "started"⟩, ⟨"size", "outcome"⟩] := by decide
      rw [subjects, List.mem_pair] at member
      exact member.imp_right .inl
  | table _ found content member earlier =>
      rcases earlier with rfl | rfl | rfl
      · cases found
        cases content
      · cases found
        cases content
        have subjects : sizeTable.subjects = [⟨"counter", "n"⟩] := by decide
        rw [subjects] at member
        exact .inr (.inr (List.mem_singleton.mp member))
      · cases found
        cases content
  | condition _ follows earlier =>
      have started : (overPlain.scope (overPlain.context ⟨0⟩).registry).follow
        ⟨"conditions", "started"⟩ = some ⟨"counter", "n"⟩ := by cbv
      rcases earlier with rfl | rfl | rfl
      · cases started.symm.trans follows
        exact .inr (.inr rfl)
      · cases follows
      · cases follows

/-- In both contexts the table has the same outcome. -/
theorem gate_is_decided_alike :
    (runFrom (ContextId.outcome ⟨0⟩ "gate") overPlain).1.toOption = some [("text", "open")] ∧
      (runFrom (ContextId.outcome ⟨0⟩ "gate") overPlain).1 =
        (runFrom (ContextId.outcome ⟨0⟩ "gate") overLaden).1 := by
  have reached : plain.Reached (some Nesting.evaluationRoom) := ⟨_, rfl⟩
  have reached' : laden.Reached (some Nesting.evaluationRoom) := ⟨_, rfl⟩
  have held : plain.Holds ⟨0⟩ := .state (List.mem_singleton.mpr rfl)
  have held' : laden.Holds ⟨0⟩ := .state (List.mem_singleton.mpr rfl)
  obtain ⟨ctx, opened, ctx', opened', ran, ran', alike⟩ :=
    decisions_depend_on_what_is_reached reached reached' held held' (some (.ofList [gateTable, sizeTable]))
      (some (.ofList [sizeTable, .make "more" [] none, gateTable])) (.requestOf [])
      (.requestOf [(.text "x", .scalar (.int 1))]) none (some .bare)
  obtain rfl : ContextId.mk 0 = ctx := Except.ok.inj (congrArg Prod.fst ran)
  obtain rfl : overPlain = opened := congrArg Prod.snd ran
  obtain rfl : ContextId.mk 0 = ctx' := Except.ok.inj (congrArg Prod.fst ran')
  obtain rfl : overLaden = opened' := congrArg Prod.snd ran'
  refine ⟨by decide +kernel, ?_⟩
  refine (alike gateTable (fun c reached => ?_) fun c reached => ?_).2.2 "gate" "gate" rfl rfl
  · rcases reached_from_gate reached with rfl | rfl | rfl
    · exact .found rfl rfl (.conditions (by cbv))
    · exact .found rfl rfl (.table sizeTable)
    · exact .found rfl rfl (.memory (by cbv))
  · rcases reached_from_gate reached with rfl | rfl | rfl
    · exact fun endless => endless 2 (by cbv)
    · exact fun endless => endless 1 rfl
    · exact fun endless => endless 1 rfl

end Session

end DecisionTables
