import DecisionTables.Proofs.Abreast
import DecisionTables.Proofs.Adding
import DecisionTables.Proofs.Recalling
import DecisionTables.Proofs.Registering

/-!
# What a context knows endures

However a step ends, the tables that it has marked are marked no more, and what a context
has computed it does not compute again.  Only a context that is reloaded forgets.
-/

namespace DecisionTables

/-! ## Evaluations -/

/-- The same tables are being computed as before, and all that was known is still known. -/
structure Progress.Onward (p q : Progress) : Prop where
  computing : Scope.SameComputing p q
  known : p.known.Le q.known

theorem Progress.along_onward : Along Progress.Onward where
  refl _ := ⟨rfl, .refl _⟩
  trans _ _ _ first second :=
    ⟨Eq.trans second.computing first.computing, first.known.trans second.known⟩
  reported _ _ := ⟨rfl, .refl _⟩

namespace Progress.Onward

variable {p q : Progress}

theorem leaving {name : String} (onward : (p.entering name).Onward q) : p.Onward (q.leaving name) :=
  ⟨onward.computing.leaving, onward.known⟩

/-- What is remembered was not known before. -/
theorem knowing (onward : p.Onward q) {name : String}
    (unknown : p.memo.outcomes.find? name = none) (o : Outcome) : p.Onward (q.knowing name o) :=
  ⟨onward.computing, onward.known.withOutcome_of_unknown unknown o⟩

theorem judged (onward : p.Onward q) {id : SourceId} {name : String}
    (unknown : p.memo.verdicts.find? (id, name) = none) (text : String) :
    p.Onward (q.judged id name text) :=
  ⟨onward.computing, onward.known.withVerdict_of_unknown unknown text⟩

end Progress.Onward

section

variable {resolve : Resolver}

theorem Table.onward_decideOnce (resolves : ∀ c p, Progress.Onward p (runFrom (resolve c) p).2)
    (t : Table) (p : Progress) : p.Onward (runFrom (t.decideOnce resolve) p).2 :=
  t.along_decideOnce Progress.along_onward resolves (fun _ _ onward => onward.leaving)
    (fun _ _ outcome unknown onward => onward.knowing unknown outcome) p

theorem Source.onward_read (resolves : ∀ c p, Progress.Onward p (runFrom (resolve c) p).2)
    (source : Source) (id : SourceId) (fragment : String) (p : Progress) :
    p.Onward (runFrom (source.read resolve id fragment) p).2 := by
  rcases source.direct_or_computed fragment with
    ⟨result, direct⟩ | ⟨t, content⟩ | ⟨named, condition, content, registered⟩
  · rw [runFrom_read_direct direct]
    exact Progress.along_onward.refl p
  · rw [snd_read_table content]
    exact t.onward_decideOnce resolves p
  · rw [runFrom_read_condition content registered]
    exact condition.along_decideOnce Progress.along_onward resolves id fragment
      (fun _ _ text unknown onward => onward.judged unknown text) p

theorem onward_tooDeep (c : Coordinate) (p : Progress) :
    p.Onward (runFrom ((fun _ => throw .tooDeep : Resolver) c) p).2 :=
  Progress.along_onward.refl p

theorem Scope.onward_resolveWithin (scope : Scope) (depth : Nat) (room : Option Nat) (c : Coordinate)
    (p : Progress) : p.Onward (runFrom (scope.resolveWithin depth room c) p).2 := by
  induction depth generalizing room c p with
  | zero => exact Progress.along_onward.refl p
  | succ depth ih =>
      rw [resolveWithin]
      cases Assoc.find? scope (.text c.source) with
      | none => exact Progress.along_onward.refl p
      | some entry =>
          obtain ⟨id, source⟩ := entry
          cases left : roomBelow source room with
          | none =>
              simp only [left]
              exact source.onward_read onward_tooDeep id _ p
          | some room' =>
              simp only [left]
              exact source.onward_read (ih room') id _ p

theorem Scope.onward_resolve (scope : Scope) (room : Option Nat) (c : Coordinate) (p : Progress) :
    p.Onward (runFrom (scope.resolve room c) p).2 :=
  scope.onward_resolveWithin _ room c p

theorem Scope.onward_readFrom (scope : Scope) (room : Option Nat) (id : SourceId) (source : Source)
    (fragment : String) (p : Progress) :
    p.Onward (runFrom (scope.readFrom room id source fragment) p).2 := by
  rw [Scope.readFrom]
  cases roomBelow source room with
  | none => exact source.onward_read onward_tooDeep id fragment p
  | some left => exact source.onward_read (scope.onward_resolveWithin _ left) id fragment p

end

/-! ## What was computed is remembered -/

theorem Table.known_of_decideOnce {resolve : Resolver} {t : Table} {p q : Progress} {o : Outcome}
    (ran : runFrom (t.decideOnce resolve) p = (.ok o, q)) : q.known.outcomes.find? t.name = some o := by
  cases t.once resolve p with
  | known _ remembered ran' =>
      cases ran.symm.trans ran'
      exact remembered
  | cyclic _ _ ran' => cases ran.symm.trans ran'
  | value _ _ _ _ _ ran' =>
      cases ran.symm.trans ran'
      exact Assoc.find?_insert_self _ _ (beq_self_eq_true t.name)
  | fault _ _ _ _ _ ran' => cases ran.symm.trans ran'

theorem Condition.known_of_decideOnce {resolve : Resolver} {id : SourceId} {name : String}
    {c : Condition} {p q : Progress} {text : String}
    (ran : runFrom (c.decideOnce resolve id name) p = (.ok text, q)) :
    q.known.verdicts.find? (id, name) = some text := by
  cases c.once resolve id name p with
  | known _ remembered ran' =>
      cases ran.symm.trans ran'
      exact remembered
  | value _ _ _ _ ran' =>
      cases ran.symm.trans ran'
      exact Assoc.find?_insert_self _ _ (beq_self_eq_true (id, name))
  | fault _ _ _ _ ran' => cases ran.symm.trans ran'

namespace Source

variable {s t : Source} {fragment : String}

theorem computed_table {u : Table} (content : s.content = .table u) : s.direct? fragment = none := by
  rw [direct?, content]

theorem computed_condition {named : Assoc String Condition} {c : Condition}
    (content : s.content = .conditions named) (registered : named.find? fragment = some c) :
    s.direct? fragment = none := by
  unfold direct?
  rw [content]
  simp only [registered]

/-- What computes something has no values, so what differs from it in values alone is the same. -/
theorem Alike.eq_of_computed (alike : s.Alike t) (computed : s.direct? fragment = none) : t = s := by
  have same : s.reset = t.reset := alike
  obtain ⟨name, content⟩ := s
  obtain ⟨name', content'⟩ := t
  cases content with
  | table u =>
      cases content' with
      | memory kind values defaults => cases same
      | _ => exact same.symm
  | conditions named =>
      cases content' with
      | memory kind values defaults => cases same
      | _ => exact same.symm
  | _ => cases computed

end Source

/-- The text of a fragment is in an outcome, or is the result of a named condition, that is known. -/
inductive Source.Recalls (k : Knowledge) (id : SourceId) (s : Source) (fragment text : String) :
    Prop where
  | table {t : Table} {o : Outcome} (content : s.content = .table t)
      (known : k.outcomes.find? t.name = some o) (has : o.find? fragment = some text)
  | condition {named : Assoc String Condition} {c : Condition} (content : s.content = .conditions named)
      (registered : named.find? fragment = some c)
      (known : k.verdicts.find? (id, fragment) = some text)

namespace Source.Recalls

variable {k l : Knowledge} {id : SourceId} {s : Source} {fragment text : String}

theorem mono (le : k.Le l) (recalls : s.Recalls k id fragment text) :
    s.Recalls l id fragment text := by
  cases recalls with
  | table content known has => exact .table content (le.outcomes known) has
  | condition content registered known => exact .condition content registered (le.verdicts known)

theorem of_alike {s' : Source} (alike : s.Alike s') (recalls : s.Recalls k id fragment text) :
    s'.Recalls k id fragment text := by
  have computed : s.direct? fragment = none := by
    cases recalls with
    | table content _ _ => exact computed_table content
    | condition content registered _ => exact computed_condition content registered
  rw [alike.eq_of_computed computed]
  exact recalls

theorem runFrom_read {resolve : Resolver} {p : Progress}
    (recalls : s.Recalls p.known id fragment text) :
    runFrom (s.read resolve id fragment) p = (.ok text, p) := by
  cases recalls with
  | table content known has =>
      rw [runFrom_read_table content, Table.runFrom_decideOnce_known known]
      simp only [pick, has]
  | condition content registered known =>
      rw [runFrom_read_condition content registered, Condition.runFrom_decideOnce_known known]

/-- What was read from a table or from a named condition is recalled. -/
theorem of_read {resolve : Resolver} {p q : Progress} (computed : s.direct? fragment = none)
    (ran : runFrom (s.read resolve id fragment) p = (.ok text, q)) :
    s.Recalls q.known id fragment text := by
  rcases s.direct_or_computed fragment with
    ⟨result, direct⟩ | ⟨t, content⟩ | ⟨named, condition, content, registered⟩
  · cases computed.symm.trans direct
  · rw [runFrom_read_table content] at ran
    cases decided : runFrom (t.decideOnce resolve) p with
    | mk result q' =>
      rw [decided] at ran
      cases result with
      | error f => cases ran
      | ok o =>
          cases has : o.find? fragment with
          | none => simp [pick, has] at ran
          | some text' =>
              simp only [pick, has] at ran
              cases ran
              exact .table content (Table.known_of_decideOnce decided) has
  · rw [runFrom_read_condition content registered] at ran
    exact .condition content registered (Condition.known_of_decideOnce ran)

end Source.Recalls

/-- A coordinate of a source that is in scope is read from it. -/
theorem Scope.exists_resolve_eq {scope : Scope} {c : Coordinate} {id : SourceId} {s : Source}
    (found : Assoc.find? scope (.text c.source) = some (id, s)) (room : Option Nat) :
    ∃ below, scope.resolve room c = s.read below id c.fragment := by
  obtain ⟨depth, deep⟩ : ∃ depth, scope.depth = depth + 1 :=
    Nat.exists_eq_add_one.mpr (Nat.mul_pos (Nat.succ_pos _) (Nat.succ_pos _))
  rw [resolve, deep, resolveWithin, found]
  cases left : roomBelow s room with
  | none =>
      simp only [left]
      exact ⟨_, rfl⟩
  | some room' =>
      simp only [left]
      exact ⟨_, rfl⟩

/-! ## Steps on the store -/

/-- What a context has computed. -/
def Context.known (c : Context) : Knowledge := ⟨c.memo.outcomes, c.memo.verdicts⟩

namespace ContextId

variable {σ σ' : Store} {ctx : ContextId}

theorem exists_table {name : String} {t : Table} (ran : runFrom (ctx.table name) σ = (.ok t, σ')) :
    σ' = σ ∧ ∃ catalog, (σ.context ctx).catalog = some catalog ∧ catalog.table name = .ok t := by
  cases found : (σ.context ctx).catalog with
  | none =>
      rw [ContextId.table, ContextId.catalog, bind_assoc, runFrom_bind, runFrom_get] at ran
      simp only [found] at ran
      cases ran
  | some catalog =>
      rw [runFrom_table found] at ran
      obtain ⟨taken, same⟩ := eq_of_ofEngine ran
      exact ⟨same, catalog, rfl, taken⟩

/-- A table that was decided is known. -/
theorem known_of_outcome (inside : ctx.index < σ.contexts.size) {name : String} {o : Outcome}
    (ran : runFrom (ctx.outcome name) σ = (.ok o, σ')) :
    ∃ catalog t, (σ'.context ctx).catalog = some catalog ∧ catalog.table name = .ok t ∧
      (σ'.context ctx).known.outcomes.find? t.name = some o := by
  obtain ⟨t, _, taken, decided⟩ := runFrom_bind_value ran
  obtain ⟨rfl, catalog, found, taken⟩ := exists_table taken
  obtain ⟨p, once, rfl⟩ := value_of_evaluate decided
  refine ⟨catalog, t, ?_, taken, ?_⟩ <;> rw [Store.context_withProgress inside]
  · exact found
  · exact Table.known_of_decideOnce once

theorem outcome_of_known {catalog : Catalog} (found : (σ.context ctx).catalog = some catalog)
    {name : String} {t : Table} (taken : catalog.table name = .ok t) {o : Outcome}
    (known : (σ.context ctx).known.outcomes.find? t.name = some o) :
    (runFrom (ctx.outcome name) σ).1 = .ok o := by
  have table : runFrom (ctx.table name) σ = (.ok t, σ) := by
    rw [runFrom_table found, taken]
    rfl
  have decided : runFrom (t.decideOnce (σ.resolver ctx)) (σ.progress ctx) =
      (.ok o, σ.progress ctx) := Table.runFrom_decideOnce_known known
  rw [ContextId.outcome, runFrom_bind_ok table, runFrom_evaluate, decided]

theorem find?_scope {registry : Registry} {key : Scalar} {id : SourceId}
    (found : registry.find? key = some id) :
    Assoc.find? (σ.scope registry) key = some (id, σ.source id) := by
  rw [Store.scope, Assoc.find?_mapValues, found]
  rfl

/-- What a context has read from a table or from a named condition, it recalls. -/
theorem recalls_of_read (inside : ctx.index < σ.contexts.size) {c : Coordinate} {id : SourceId}
    (found : (σ.context ctx).registry.find? (.text c.source) = some id)
    (computed : (σ.source id).direct? c.fragment = none) {text : String}
    (ran : runFrom (ctx.read c) σ = (.ok text, σ')) :
    (σ.source id).Recalls (σ'.context ctx).known id c.fragment text := by
  obtain ⟨p, resolved, rfl⟩ := value_of_evaluate ran
  obtain ⟨below, reads⟩ := Scope.exists_resolve_eq (find?_scope (σ := σ) found) σ.room
  rw [Store.context_withProgress inside]
  rw [Store.resolver, reads] at resolved
  exact .of_read computed resolved

/-- A source that computes something is in the store. -/
theorem held_of_computed {id : SourceId} {fragment : String}
    (computed : (σ.source id).direct? fragment = none) :
    σ.sources[id.index]? = some (σ.source id) := by
  cases held : σ.sources[id.index]? with
  | some s => rw [Store.source_of_getElem? held]
  | none =>
      rw [Store.source, Array.getD_eq_getD_getElem?, held] at computed
      cases computed

theorem read_of_recalls {c : Coordinate} {id : SourceId}
    (found : (σ.context ctx).registry.find? (.text c.source) = some id) {text : String}
    (recalls : (σ.source id).Recalls (σ.context ctx).known id c.fragment text) :
    (runFrom (ctx.read c) σ).1 = .ok text := by
  obtain ⟨below, reads⟩ := Scope.exists_resolve_eq (find?_scope (σ := σ) found) σ.room
  have recalled : runFrom (σ.resolver ctx c) (σ.progress ctx) = (.ok text, σ.progress ctx) := by
    rw [Store.resolver, reads]
    exact Source.Recalls.runFrom_read (p := σ.progress ctx) recalls
  rw [ContextId.read, runFrom_evaluate, recalled]

end ContextId

/-- A context after some steps, among which it was reloaded or not. -/
structure Context.Onward (reloaded : Prop) (c d : Context) : Prop where
  catalog : d.catalog = c.catalog
  computing : d.memo.computing = c.memo.computing
  known : ¬ reloaded → c.known.Le d.known

theorem Context.Onward.refl {reloaded : Prop} (c : Context) : c.Onward reloaded c :=
  ⟨rfl, rfl, fun _ => .refl _⟩

/-- The store after some steps, among which the contexts in some places were reloaded.  A context
that was added has no table marked. -/
structure Store.Onward (reloaded : Nat → Prop) (σ σ' : Store) : Prop where
  kept : ∀ (i : Nat) (c : Context), σ.contexts[i]? = some c →
    ∃ c', σ'.contexts[i]? = some c' ∧ c.Onward (reloaded i) c'
  added : ∀ (i : Nat) (c : Context), σ.contexts.size ≤ i → σ'.contexts[i]? = some c →
    c.memo.computing = []

namespace Store.Onward

variable {reloaded : Nat → Prop} {σ σ' σ'' : Store}

theorem of_contexts_eq (same : σ'.contexts = σ.contexts) : σ.Onward reloaded σ' := by
  refine ⟨fun i c found => ⟨c, by rw [same, found], .refl c⟩, fun i c outside found => ?_⟩
  rw [same, Array.getElem?_eq_none outside] at found
  cases found

theorem refl (σ : Store) : σ.Onward reloaded σ := of_contexts_eq rfl

theorem mono {more : Nat → Prop} (onward : σ.Onward reloaded σ') (le : ∀ i, reloaded i → more i) :
    σ.Onward more σ' := by
  refine ⟨fun i c found => ?_, onward.added⟩
  obtain ⟨c', found', same⟩ := onward.kept i c found
  exact ⟨c', found', same.catalog, same.computing, fun spared =>
    same.known fun late => spared (le i late)⟩

theorem trans {later : Nat → Prop} (first : σ.Onward reloaded σ') (second : σ'.Onward later σ'')
    (old : ∀ i < σ.contexts.size, later i → reloaded i) : σ.Onward reloaded σ'' := by
  constructor
  · intro i c found
    obtain ⟨c', found', onward⟩ := first.kept i c found
    obtain ⟨c'', found'', onward'⟩ := second.kept i c' found'
    have inside := (Array.getElem?_eq_some_iff.mp found).1
    exact ⟨c'', found'', onward'.catalog.trans onward.catalog,
      onward'.computing.trans onward.computing, fun spared =>
        (onward.known spared).trans (onward'.known fun late => spared (old i inside late))⟩
  · intro i c outside found
    by_cases inside : i < σ'.contexts.size
    · obtain ⟨c', found', onward⟩ := second.kept i _ (Array.getElem?_eq_getElem inside)
      rw [found] at found'
      cases found'
      exact onward.computing.trans (first.added i _ outside (Array.getElem?_eq_getElem inside))
    · exact second.added i c (Nat.le_of_not_lt inside) found

theorem addContext (c : Context) (blank : c.memo.computing = []) :
    σ.Onward reloaded { σ with contexts := σ.contexts.push c } := by
  constructor
  · intro i d found
    have inside := (Array.getElem?_eq_some_iff.mp found).1
    refine ⟨d, ?_, .refl d⟩
    rw [Array.getElem?_push, if_neg (Nat.ne_of_lt inside), found]
  · intro i d outside found
    rw [Array.getElem?_push] at found
    split at found
    · cases found
      exact blank
    · rw [Array.getElem?_eq_none outside] at found
      cases found

theorem setContext {ctx : ContextId} {c : Context}
    (onward : (σ.context ctx).Onward (reloaded ctx.index) c) :
    σ.Onward reloaded (σ.setContext ctx c) := by
  constructor
  · intro i d found
    by_cases here : ctx.index = i
    · subst here
      have inside := (Array.getElem?_eq_some_iff.mp found).1
      rw [getElem?_contexts inside] at found
      cases found
      exact ⟨c, Array.getElem?_setIfInBounds_self_of_lt inside, onward⟩
    · exact ⟨d, (Array.getElem?_setIfInBounds_ne here).trans found, .refl d⟩
  · intro i d outside found
    have inside := (Array.getElem?_eq_some_iff.mp found).1
    have size : (σ.setContext ctx c).contexts.size = σ.contexts.size := Array.size_setIfInBounds
    omega

end Store.Onward

/-- A step that reloads no context but those in some places. -/
def Proceeds {α : Type} (reloaded : Nat → Prop) (x : Engine α) : Prop :=
  ∀ σ : Store, σ.Onward reloaded (runFrom x σ).2

/-- A step that does nothing to contexts. -/
def LeavesContexts {α : Type} (x : Engine α) : Prop :=
  ∀ σ, (runFrom x σ).2.contexts = σ.contexts

namespace LeavesContexts

variable {α β : Type}

theorem proceeds {x : Engine α} (leaves : LeavesContexts x) (reloaded : Nat → Prop) :
    Proceeds reloaded x :=
  fun σ => .of_contexts_eq (leaves σ)

theorem frame : AddingFrame fun σ τ => τ.contexts = σ.contexts where
  refl _ := rfl
  trans first second := second.trans first
  source _ _ := rfl
  state _ _ := rfl

theorem pure (a : α) : LeavesContexts (pure a) := fun _ => rfl

theorem throw (f : Fault) : LeavesContexts (throw f : Engine α) := fun _ => rfl

theorem get : LeavesContexts (get : Engine Store) := fun _ => rfl

theorem bind {x : Engine α} {f : α → Engine β} (first : LeavesContexts x)
    (rest : ∀ a, LeavesContexts (f a)) : LeavesContexts (x >>= f) :=
  frame.bind first rest

theorem ofExcept (r : Except Fault α) : LeavesContexts (Engine.ofExcept r) := frame.ofExcept r

theorem ofEngine (r : Except EngineError α) : LeavesContexts (Engine.ofEngine r) := frame.ofEngine r

theorem create (entries : List (Scalar × Source)) : LeavesContexts (StateId.create entries) :=
  frame.create entries

theorem ofNested (value : Value) : LeavesContexts (StateId.ofNested value) := frame.ofNested value

theorem ofValue (value : Value) : LeavesContexts (StateId.ofValue value) := by
  unfold StateId.ofValue
  split
  · exact create []
  · split
    · exact ofNested _
    · exact throw _
  · exact throw _

theorem state (choice : StateChoice) : LeavesContexts choice.state := frame.stateOf choice

theorem stateOr (other : StateId) (choice : StateChoice) : LeavesContexts (choice.stateOr other) :=
  frame.stateOr other choice

theorem held (objects : List α) (which : Nat) : LeavesContexts (Session.held objects which) :=
  frame.held objects which

theorem choose (s : Session) (choice : StateSource) : LeavesContexts (s.choose choice) :=
  frame.choose s choice

theorem requestOfValue (value : Value) : LeavesContexts (requestOfValue value) := frame.requestOfValue value

theorem addAllRegistered (r : Registry) (sources : List Source) :
    LeavesContexts (ContextId.addAllRegistered r sources) :=
  frame.addAllRegistered r sources

theorem addMissing (r : Registry) (entries : List (Scalar × Source)) :
    LeavesContexts (ContextId.addMissing r entries) := by
  induction entries generalizing r with
  | nil => exact pure r
  | cons entry rest ih =>
      obtain ⟨name, source⟩ := entry
      rw [ContextId.addMissing]
      split
      · exact ih r
      · exact bind (bind (fun _ => rfl) fun _ => pure _) ih

theorem stateFind (id : StateId) (name : String) : LeavesContexts (id.find name) := by
  unfold StateId.find
  refine bind get fun σ => ?_
  split
  · exact pure _
  · exact throw _

theorem stateFindSource (id : StateId) (name : String) : LeavesContexts (id.findSource name) :=
  get.bind fun _ => (stateFind id name).bind fun _ => pure _

theorem copyWith (id : StateId) (f : Source → Source) :
    LeavesContexts (id.mapSources f >>= StateId.create) :=
  (get.bind fun _ => pure _).bind create

theorem toWritable (id : StateId) : LeavesContexts id.toWritable := by
  unfold StateId.toWritable
  refine (get.bind fun _ => pure _).bind fun entries => ?_
  simp only []
  split
  · exact throw _
  · split
    · exact pure _
    · exact throw _

/-- What is done with a state is nothing to contexts. -/
theorem onState (s : Session) (id : StateId) (op : StateOperation) :
    LeavesContexts (s.onState id op) := by
  have exported : LeavesContexts id.export := get.bind fun _ => pure _
  cases op with
  | read name fragment =>
      exact ((stateFindSource id name).bind fun _ => ofExcept _).bind fun _ => pure _
  | write name fragment value =>
      exact ((stateFind id name).bind fun _ => get.bind fun _ => (ofEngine _).bind fun _ _ => rfl).bind
        fun _ => pure _
  | names => exact (get.bind fun _ => pure _).bind fun _ => pure _
  | contains name => exact (get.bind fun _ => pure _).bind fun _ => pure _
  | copy => exact (copyWith id _).bind fun _ => pure _
  | copyReset => exact (copyWith id _).bind fun _ => pure _
  | adopt other => exact (held _ other).bind fun _ => bind (fun _ => rfl) fun _ => pure _
  | «export» => exact exported.bind fun _ => pure _
  | values name => exact (stateFindSource id name).bind fun _ => pure _
  | display =>
      exact ((get.bind fun _ => pure _).bind fun _ => (ofExcept _).bind fun _ => pure _).bind
        fun _ => pure _
  | json => exact ((toWritable id).bind fun _ => ofExcept _).bind fun _ => pure _
  | yaml =>
      refine ((toWritable id).bind fun value => ?_).bind fun _ => pure _
      simp only []
      split
      · exact throw _
      · exact pure _

end LeavesContexts

/-! ## Steps on contexts -/

namespace Proceeds

variable {α β : Type} {reloaded : Nat → Prop} {ctx : ContextId}

theorem frame : Frame (Store.Onward reloaded) where
  refl := .refl
  trans first second := first.trans second fun _ _ late => late

theorem pure (a : α) : Proceeds reloaded (pure a) := frame.pure a

theorem throw (f : Fault) : Proceeds reloaded (throw f : Engine α) := frame.throw f

theorem bind {x : Engine α} {f : α → Engine β} (first : Proceeds reloaded x)
    (rest : ∀ a, Proceeds reloaded (f a)) : Proceeds reloaded (x >>= f) :=
  frame.bind first rest

theorem tryCatch {x : Engine α} {handle : Fault → Engine α} (first : Proceeds reloaded x)
    (rest : ∀ f, Proceeds reloaded (handle f)) : Proceeds reloaded (tryCatch x handle) := by
  intro σ
  have before := first σ
  rw [runFrom_tryCatch]
  revert before
  generalize runFrom x σ = ran
  obtain ⟨result, σ'⟩ := ran
  intro before
  cases result with
  | ok a => exact before
  | error f => exact before.trans (rest f σ') fun _ _ late => late

/-- An evaluation keeps what its steps keep. -/
theorem evaluate {step : Resolver → Evaluation α}
    (onward : ∀ (scope : Scope) (room : Option Nat) (p : Progress),
      p.Onward (runFrom (step (scope.resolve room)) p).2) :
    Proceeds reloaded (ctx.evaluate step) := by
  intro σ
  have after := onward (σ.scope (σ.context ctx).registry) σ.room (σ.progress ctx)
  rw [ctx.runFrom_evaluate]
  have known : σ.Onward reloaded (σ.setContext ctx { σ.context ctx with
      memo := (runFrom (step (σ.resolver ctx)) (σ.progress ctx)).2.memo }) :=
    .setContext ⟨rfl, after.computing, fun _ => after.known⟩
  exact known.trans (.of_contexts_eq rfl) fun _ _ late => late

theorem uniform {step : Resolver → Evaluation α} (uniform : Uniform step) :
    Proceeds reloaded (ctx.evaluate step) :=
  evaluate fun scope room p => uniform.along Progress.along_onward (scope.onward_resolve room) p

theorem table (ctx : ContextId) (name : String) : LeavesContexts (ctx.table name) := by
  unfold ContextId.table ContextId.catalog
  refine .bind (.bind .get fun σ => ?_) fun _ => .ofEngine _
  split
  · exact .pure _
  · exact .throw _

theorem outcome (name : String) : Proceeds reloaded (ctx.outcome name) :=
  ((table ctx name).proceeds _).bind fun t =>
    evaluate fun scope room p => t.onward_decideOnce (scope.onward_resolve room) p

theorem find (ctx : ContextId) (name : String) : LeavesContexts (ctx.find name) := by
  unfold ContextId.find
  refine .bind .get fun σ => ?_
  split
  · exact .pure _
  · exact .throw _

theorem write (ctx : ContextId) (c : Coordinate) (value : Value) : LeavesContexts (ctx.write c value) :=
  (find ctx _).bind fun _ => .bind .get fun _ => .bind (.ofEngine _) fun _ _ => rfl

theorem assignAll (assignments : List Assignment) : Proceeds reloaded (ctx.assignAll assignments) := by
  induction assignments with
  | nil => exact pure _
  | cons a rest ih =>
      exact ((uniform (uniform_resolve a.source)).bind fun _ => (write ctx a.target _).proceeds _).bind
        fun _ => ih

theorem execute (command : String) (backend : Backend) :
    Proceeds reloaded (ctx.execute command backend) := by
  cases backend with
  | bare => exact throw _
  | tables commands =>
      refine ((LeavesContexts.ofEngine _).proceeds _).bind fun t => ?_
      refine (uniform t.uniform_satisfiedRule?).bind fun rule => ?_
      cases rule with
      | none => exact throw _
      | some r => exact assignAll r.assignments

theorem perform (command : String) : Proceeds reloaded (ctx.perform command) := by
  refine (LeavesContexts.get.proceeds _).bind fun σ => ?_
  split
  · exact throw _
  · exact (uniform fun _ respected _ _ _ => respected.report _).bind fun _ => execute command _

theorem openTraced (state : StateId) (catalog : Option Catalog) (request : Source)
    (backend : Option Backend) (trace : TraceId) :
    Proceeds reloaded (ContextId.openTraced state catalog request backend trace) := by
  have added := fun r sources => (LeavesContexts.addAllRegistered r sources).proceeds reloaded
  refine (added _ _).bind fun _ => ?_
  refine ((show LeavesContexts (Engine.addSource request) from fun _ => rfl).proceeds _).bind fun _ => ?_
  refine (added _ _).bind fun _ => (LeavesContexts.get.proceeds _).bind fun _ => ?_
  exact fun _ => .addContext _ rfl

theorem «open» (state : StateId) (catalog : Option Catalog) (request : Source)
    (backend : Option Backend) :
    Proceeds reloaded (ContextId.open state catalog request backend) :=
  ((show LeavesContexts Engine.addTrace from fun _ => rfl).proceeds _).bind fun _ =>
    openTraced _ _ _ _ _

/-- Registering a source changes only where a context finds it. -/
theorem modifyRegistry (registry : Registry) :
    Proceeds reloaded (modify fun σ => σ.setContext ctx { σ.context ctx with registry := registry }) :=
  fun _ => .setContext ⟨rfl, rfl, fun _ => .refl _⟩

theorem register (name : String) (source : Source) : Proceeds reloaded (ctx.register name source) := by
  refine (LeavesContexts.get.proceeds _).bind fun σ => Proceeds.bind ?_ modifyRegistry
  exact LeavesContexts.proceeds (.bind (fun _ => rfl) fun _ => .pure _) _

theorem copyReset : Proceeds reloaded ctx.copyReset := by
  refine (LeavesContexts.get.proceeds _).bind fun σ => ?_
  refine ((LeavesContexts.copyWith _ _).proceeds _).bind fun state => ?_
  refine (LeavesContexts.get.proceeds _).bind fun σ' => ?_
  refine (openTraced _ _ _ _ _).bind fun copy => (LeavesContexts.get.proceeds _).bind fun σ'' => ?_
  refine ((LeavesContexts.addMissing _ _).proceeds _).bind fun registry => ?_
  exact (modifyRegistry registry).bind fun _ => pure _

/-- Reloading a context lets it forget what it has computed, and nothing else. -/
theorem reload (ctx : ContextId) : Proceeds (fun i => i = ctx.index) ctx.reload :=
  fun _ => .setContext ⟨rfl, rfl, fun spared => (spared rfl).elim⟩

theorem prepare (r : Rule) (ctx : ContextId) : Proceeds (fun i => i = ctx.index) (r.prepare ctx) := by
  refine (assignAll r.assignments).bind fun _ => ?_
  split
  · exact (perform _).bind fun _ => reload ctx
  · exact reload ctx

/-- A reset copy is a new context. -/
theorem size_le_of_copyReset {σ σ' : Store} {copy : ContextId}
    (ran : runFrom ctx.copyReset σ = (.ok copy, σ')) : σ.contexts.size ≤ copy.index := by
  obtain ⟨state, σ₁, _, _, _, copied, opened, _, rfl⟩ := ContextId.runFrom_copyReset_ok.mp ran
  have same : σ₁.contexts = σ.contexts := by
    rw [← LeavesContexts.copyWith (σ.context ctx).state Source.reset σ]
    exact congrArg (fun ran : Except Fault StateId × Store => ran.2.contexts) copied.symm
  obtain ⟨_, _, _, own, _, _, _, opened'⟩ := ContextId.runFrom_openTraced σ₁ state
    (σ.context ctx).catalog _ (σ.context ctx).backend (σ.context ctx).trace
  cases opened.symm.trans opened'
  rw [own.added.contexts, same]

/-- A test reloads nothing but the copy that it works on. -/
theorem test (r : Rule) (ctx : ContextId) : Proceeds reloaded (r.test ctx) := by
  intro σ
  have copied : σ.Onward reloaded (runFrom ctx.copyReset σ).2 := copyReset σ
  rw [Rule.test, runFrom_bind]
  cases ran : runFrom ctx.copyReset σ with
  | mk result σ' =>
    rw [ran] at copied
    cases result with
    | error f => exact copied
    | ok copy =>
        have fresh := size_le_of_copyReset ran
        have failures : Proceeds (fun i => i = copy.index)
            (copy.evaluate fun resolve => Condition.failures resolve r.conditions) :=
          uniform (Condition.uniform_failures r.conditions)
        refine copied.trans (((prepare r copy).bind fun _ => failures) σ') fun i inside late => ?_
        omega

theorem addRules (report : Report) (rules : List Rule) :
    Proceeds reloaded (Report.addRules ctx report rules) := by
  induction rules generalizing report with
  | nil => exact pure _
  | cons r rest ih =>
      have tested : Proceeds reloaded (Except.ok <$> r.test ctx : Engine (Except EngineError _)) := by
        rw [← bind_pure_comp]
        exact (test r ctx).bind fun _ => pure _
      refine (tested.tryCatch fun f => ?_).bind fun _ => ih _
      cases f with
      | engine error => exact pure _
      | _ => exact throw _

theorem ofCatalog (tests : Catalog) : Proceeds reloaded (Report.ofCatalog ctx tests) := by
  have tables : ∀ (ts : List Table) (report : Report),
      Proceeds reloaded (Report.addTables ctx report ts) := by
    intro ts
    induction ts with
    | nil => exact fun _ => pure _
    | cons t rest ih => exact fun report => (addRules _ t.rules).bind ih
  exact tables _ _

end Proceeds

end DecisionTables
