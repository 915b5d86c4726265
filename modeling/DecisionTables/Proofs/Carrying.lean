import DecisionTables.Proofs.Registering
import DecisionTables.Proofs.Tracking

/-!
# Carrying out assignments

What assignments do, on the sources alone: each is resolved in the sources as those before
it have left them, and its text is written.  A context over a state does just this, and
what it writes under a stored name it writes to the state.
-/

namespace DecisionTables

namespace Scope

/-- The scope with a fragment of one source written. -/
def put (scope : Scope) (c : Coordinate) (value : Value) : Scope :=
  scope.adjust (.text c.source) fun entry => (entry.1, entry.2.put c.fragment value)

/-- Carry out assignments one after the other, which gives the texts that they write. -/
def carry (room : Option Nat) : Scope → List Assignment → Evaluation (List String)
  | _, [] => return []
  | scope, a :: rest => do
    let text ← scope.resolve room a.source
    match Assoc.find? scope (.text a.target.source) with
    | none => Evaluation.fail (.unknownSource a.target.source)
    | some (_, source) =>
      let _ ← Evaluation.ofExcept (source.write a.target.fragment (.text text))
      return text :: (← carry room (scope.put a.target (.text text)) rest)

section

variable {scope : Scope} {room : Option Nat} {a : Assignment} {rest : List Assignment}
variable {p q : Progress} {text : String} {id : SourceId} {s t : Source}

theorem carry_fault {f : Fault} (failed : runFrom (scope.resolve room a.source) p = (.error f, q)) :
    (runFrom (scope.carry room (a :: rest)) p).1 = .error f := by
  rw [carry, runFrom_bind_fault failed]

theorem carry_missing (resolved : runFrom (scope.resolve room a.source) p = (.ok text, q))
    (missing : Assoc.find? scope (.text a.target.source) = none) :
    (runFrom (scope.carry room (a :: rest)) p).1 =
      .error (.engine (.unknownSource a.target.source)) := by
  rw [carry, runFrom_bind_ok resolved]
  simp only [missing]
  rfl

theorem carry_readOnly {e : EngineError}
    (resolved : runFrom (scope.resolve room a.source) p = (.ok text, q))
    (found : Assoc.find? scope (.text a.target.source) = some (id, s))
    (refused : s.write a.target.fragment (.text text) = .error e) :
    (runFrom (scope.carry room (a :: rest)) p).1 = .error (.engine e) := by
  rw [carry, runFrom_bind_ok resolved]
  simp only [found, refused]
  rfl

theorem carry_cons (resolved : runFrom (scope.resolve room a.source) p = (.ok text, q))
    (found : Assoc.find? scope (.text a.target.source) = some (id, s))
    (written : s.write a.target.fragment (.text text) = .ok t) :
    (runFrom (scope.carry room (a :: rest)) p).1 =
      (runFrom ((scope.put a.target (.text text)).carry room rest) q).1.map (text :: ·) := by
  have allowed : runFrom (Evaluation.ofExcept (.ok t)) q = (.ok t, q) := rfl
  rw [carry, runFrom_bind_ok resolved]
  simp only [found, written]
  rw [runFrom_bind_ok allowed, runFrom_return]

end

end Scope

/-- The sources of a stored state as they are now. -/
def Store.holdings (σ : Store) (id : StateId) : Holdings :=
  (σ.state id).mapValues σ.source

/-- What assignments write, and where. -/
def Assignment.writes (assignments : List Assignment) (texts : List String) :
    List (Coordinate × String) :=
  (assignments.map Assignment.target).zip texts

namespace Store

variable {σ : Store} {ctx : ContextId} {state : StateId} {own : Registry}

/-- A step that only adds to the store changes no source of a state. -/
theorem holdings_keep {σ' : Store} (tidy : σ.Tidy (σ.state state)) (inside : state.index < σ.states.size)
    (keeps : Keeps Owned.nothing σ σ') : σ'.holdings state = σ.holdings state := by
  rw [holdings, keeps.state_eq inside]
  exact Assoc.mapValues_congr fun id member => keeps.source_eq (tidy.known id member) not_false

/-! ## Steps of a context over a state -/

theorem source_setSource_self {id : SourceId} (inside : id.index < σ.sources.size) (s : Source) :
    (σ.setSource id s).source id = s := by
  rw [source, setSource, Array.getD_eq_getD_getElem?, Array.getElem?_setIfInBounds_self_of_lt inside]
  rfl

theorem source_setSource_of_ne {id other : SourceId} (differ : other ≠ id) (s : Source) :
    (σ.setSource id s).source other = σ.source other := by
  have apart : id.index ≠ other.index := fun same => differ (congrArg SourceId.mk same.symm)
  rw [source, setSource, Array.getD_eq_getD_getElem?, Array.getElem?_setIfInBounds_ne apart, source,
    Array.getD_eq_getD_getElem?]

/-- A source of a state that is replaced is found under its name. -/
theorem find?_holdings_setSource {name : Scalar} {id : SourceId} (inside : id.index < σ.sources.size)
    (stored : (σ.state state).find? name = some id) (s : Source) :
    ((σ.setSource id s).holdings state).find? name = some s := by
  change ((σ.state state).mapValues (σ.setSource id s).source).find? name = _
  rw [Assoc.find?_mapValues, stored]
  exact congrArg some (source_setSource_self inside s)

theorem Over.withProgress (above : σ.Over ctx state own) (p : Progress) :
    (σ.withProgress ctx p).Over ctx state own := by
  have context := context_withProgress above.inside p
  refine ⟨?_, ?_, ?_, above.distinct, above.apart, above.known⟩
  · exact Nat.lt_of_lt_of_eq above.inside Array.size_setIfInBounds.symm
  · rw [context]
    exact Nat.lt_of_lt_of_eq above.traced Array.size_setIfInBounds.symm
  · rw [context]
    exact above.registry

theorem Over.registry_withProgress (above : σ.Over ctx state own) (p : Progress) :
    ((σ.withProgress ctx p).context ctx).registry = (σ.context ctx).registry := by
  rw [context_withProgress above.inside]

theorem Over.progress_withProgress (above : σ.Over ctx state own) (p : Progress) :
    (σ.withProgress ctx p).progress ctx = p :=
  Store.progress_withProgress above.inside above.traced p

theorem Over.resolver_withProgress (above : σ.Over ctx state own) (p : Progress) :
    (σ.withProgress ctx p).resolver ctx = σ.resolver ctx :=
  Store.resolver_withProgress above.inside p

theorem Over.setSource (above : σ.Over ctx state own) (id : SourceId) (s : Source) :
    (σ.setSource id s).Over ctx state own := by
  refine ⟨above.inside, above.traced, above.registry, above.distinct, above.apart, fun other member => ?_⟩
  exact Nat.lt_of_lt_of_eq (above.known other member) Array.size_setIfInBounds.symm

variable {c : Coordinate} {value : Value} {id : SourceId} {s : Source}

/-- A write changes the scope of its context under the name of the source alone. -/
theorem Over.scope_setSource (above : σ.Over ctx state own)
    (found : (σ.context ctx).registry.find? (.text c.source) = some id)
    (written : (σ.source id).write c.fragment value = .ok s) :
    (σ.setSource id s).scope (σ.context ctx).registry =
      (σ.scope (σ.context ctx).registry).put c value := by
  obtain ⟨apart, known⟩ := above.registered
  refine Assoc.mapValues_eq_adjust apart found (fun other differ => ?_) ?_
  · rw [source_setSource_of_ne differ]
  · rw [source_setSource_self (known id (Assoc.mem_values_of_find? found)),
      Source.eq_put_of_write written]

/-- A write changes the state as well where the name is a stored one, and nothing of it otherwise. -/
theorem Over.holdings_setSource (above : σ.Over ctx state own)
    (found : (σ.context ctx).registry.find? (.text c.source) = some id)
    (written : (σ.source id).write c.fragment value = .ok s) :
    (σ.setSource id s).holdings state = (σ.holdings state).put c value := by
  change (σ.state state).mapValues (σ.setSource id s).source = _
  rcases above.find? found with stored | ⟨missing, outside⟩
  · have shape : (own ++ σ.state state).values = own.values ++ (σ.state state).values := List.map_append
    have apart := above.apart
    rw [shape] at apart
    refine Assoc.mapValues_eq_adjust (List.nodup_append.mp apart).2.1 stored (fun other differ => ?_) ?_
    · rw [source_setSource_of_ne differ]
    · have inside := above.registered.2 id (Assoc.mem_values_of_find? found)
      rw [source_setSource_self inside, Source.eq_put_of_write written]
  · have absent : (σ.holdings state).find? (.text c.source) = none := by
      rw [holdings, Assoc.find?_mapValues, missing]
      rfl
    rw [Holdings.put, Assoc.adjust_of_missing absent]
    refine Assoc.mapValues_congr fun other member => source_setSource_of_ne ?_ s
    exact fun same => outside (same ▸ member)

end Store

/-- A run on the store ends as it is told, and writes to a state what it is told to write. -/
inductive Store.Carried (σ : Store) (state : StateId) :
    Except Fault PUnit × Store → Except Fault (List (Coordinate × String)) → Prop where
  | failed (f : Fault) (σ' : Store) : Carried σ state (.error f, σ') (.error f)
  | written {σ' writes} (held : σ'.holdings state = (σ.holdings state).putAll writes) :
      Carried σ state (.ok ⟨⟩, σ') (.ok writes)

theorem Store.Carried.of_holdings {σ σ₁ : Store} {state : StateId}
    (same : σ₁.holdings state = σ.holdings state) {ran : Except Fault PUnit × Store}
    {writes : Except Fault (List (Coordinate × String))} (carried : σ₁.Carried state ran writes) :
    σ.Carried state ran writes := by
  cases carried with
  | failed f => exact .failed f _
  | written held =>
      rw [same] at held
      exact .written held

/-- One more text is written before. -/
theorem Store.Carried.cons {σ σ₁ : Store} {state : StateId} {a : Assignment} {rest : List Assignment}
    {text : String} (first : σ₁.holdings state = (σ.holdings state).put a.target (.text text))
    {ran : Except Fault PUnit × Store} {texts : Except Fault (List String)}
    (carried : σ₁.Carried state ran (texts.map (Assignment.writes rest))) :
    σ.Carried state ran ((texts.map (text :: ·)).map (Assignment.writes (a :: rest))) := by
  cases texts with
  | error f =>
      cases carried
      exact .failed _ _
  | ok texts =>
      cases carried with
      | written held =>
          rw [first] at held
          exact .written held

namespace ContextId

variable {σ σ' : Store} {ctx : ContextId} {state : StateId} {own : Registry}

theorem runFrom_write_missing {c : Coordinate}
    (missing : (σ.context ctx).registry.find? (.text c.source) = none) (value : Value) :
    runFrom (ctx.write c value) σ = (.error (.engine (.unknownSource c.source)), σ) := by
  rw [ContextId.write, ContextId.find, bind_assoc, runFrom_bind, runFrom_get]
  simp only [missing]
  rfl

theorem runFrom_write_readOnly {c : Coordinate} {value : Value} {id : SourceId} {e : EngineError}
    (found : (σ.context ctx).registry.find? (.text c.source) = some id)
    (refused : (σ.source id).write c.fragment value = .error e) :
    runFrom (ctx.write c value) σ = (.error (.engine e), σ) := by
  rw [ContextId.write, ContextId.find, bind_assoc, runFrom_bind, runFrom_get]
  simp only [found, pure_bind]
  rw [runFrom_bind, runFrom_get]
  simp only [refused]
  rfl

theorem runFrom_write {c : Coordinate} {value : Value} {id : SourceId} {s : Source}
    (found : (σ.context ctx).registry.find? (.text c.source) = some id)
    (written : (σ.source id).write c.fragment value = .ok s) :
    runFrom (ctx.write c value) σ = (.ok ⟨⟩, σ.setSource id s) := by
  rw [ContextId.write, ContextId.find, bind_assoc, runFrom_bind, runFrom_get]
  simp only [found, pure_bind]
  rw [runFrom_bind, runFrom_get]
  simp only [written]
  rfl

/-- A write fails and changes nothing, or it replaces the source that is registered under the name. -/
theorem write_cases (ctx : ContextId) (c : Coordinate) (value : Value) (σ : Store) :
    (∃ f, runFrom (ctx.write c value) σ = (.error f, σ)) ∨
      ∃ id s, (σ.context ctx).registry.find? (.text c.source) = some id ∧
        (σ.source id).write c.fragment value = .ok s ∧
        runFrom (ctx.write c value) σ = (.ok ⟨⟩, σ.setSource id s) := by
  cases found : (σ.context ctx).registry.find? (.text c.source) with
  | none => exact .inl ⟨_, runFrom_write_missing found value⟩
  | some id =>
      cases written : (σ.source id).write c.fragment value with
      | error e => exact .inl ⟨_, runFrom_write_readOnly found written⟩
      | ok s => exact .inr ⟨id, s, rfl, written, runFrom_write found written⟩

/-- A context over a state carries out assignments as they are carried out on its scope, and what they
write is written to the state. -/
theorem carried_assignAll (assignments : List Assignment) (above : σ.Over ctx state own) :
    σ.Carried state (runFrom (ctx.assignAll assignments) σ)
      ((runFrom ((σ.scope (σ.context ctx).registry).carry σ.room assignments) (σ.progress ctx)).1.map
        (Assignment.writes assignments)) := by
  induction assignments generalizing σ with
  | nil => exact .written rfl
  | cons a rest ih =>
      rcases resolved : runFrom ((σ.scope (σ.context ctx).registry).resolve σ.room a.source)
        (σ.progress ctx) with ⟨result, p⟩
      have read : runFrom (ctx.read a.source) σ = (result, σ.withProgress ctx p) :=
        (ctx.runFrom_evaluate _ σ).trans
          (congrArg (fun ran => (ran.1, σ.withProgress ctx ran.2)) resolved)
      rw [assignAll, assign, bind_assoc]
      cases result with
      | error f =>
          rw [runFrom_bind_fault read, Scope.carry_fault resolved]
          exact .failed f _
      | ok text =>
          rw [runFrom_bind_ok read]
          have above₁ := above.withProgress p
          have registry := above.registry_withProgress p
          have found : Assoc.find? (σ.scope (σ.context ctx).registry) (.text a.target.source) =
              ((σ.context ctx).registry.find? (.text a.target.source)).map fun id => (id, σ.source id) :=
            Assoc.find?_mapValues _ _ _
          cases target : (σ.context ctx).registry.find? (.text a.target.source) with
          | none =>
              rw [target] at found
              rw [runFrom_bind_fault (runFrom_write_missing (registry.symm ▸ target) _),
                Scope.carry_missing resolved found]
              exact .failed _ _
          | some id =>
              rw [target] at found
              have target' := registry.symm ▸ target
              cases written : (σ.source id).write a.target.fragment (.text text) with
              | error e =>
                  rw [runFrom_bind_fault (runFrom_write_readOnly target' written),
                    Scope.carry_readOnly resolved found written]
                  exact .failed _ _
              | ok s =>
                  rw [runFrom_bind_ok (runFrom_write target' written),
                    Scope.carry_cons resolved found written]
                  have carried := ih (above₁.setSource id s)
                  have scope := above₁.scope_setSource target' written
                  change Store.Carried _ state _ ((runFrom (Scope.carry σ.room
                    (((σ.withProgress ctx p).setSource id s).scope
                      ((σ.withProgress ctx p).context ctx).registry) rest)
                    ((σ.withProgress ctx p).progress ctx)).1.map _) at carried
                  rw [scope, registry, above.progress_withProgress] at carried
                  exact .cons (σ := σ) (above₁.holdings_setSource target' written) carried

end ContextId

/-! ## Commands in a context over a state -/

/-- What is satisfied was declared. -/
theorem Rule.sublist_of_satisfied {resolve : Resolver} {rules selected : List Rule} {p q : Progress}
    (ran : runFrom (Rule.satisfied resolve rules) p = (.ok selected, q)) : selected.Sublist rules := by
  induction rules generalizing selected p with
  | nil =>
      cases ran
      exact .refl []
  | cons r rest ih =>
      obtain ⟨holds, p₁, _, ran⟩ := runFrom_bind_value ran
      obtain ⟨others, p₂, checked, ran⟩ := runFrom_bind_value ran
      cases ran
      cases holds with
      | true => exact (ih checked).cons_cons r
      | false => exact (ih checked).cons r

/-- A rule is given only where no other one is satisfied. -/
theorem Table.satisfied_of_satisfiedRule {resolve : Resolver} {t : Table} {r : Rule} {p q : Progress}
    (ran : runFrom (t.satisfiedRule? resolve) p = (.ok (some r), q)) :
    ∃ checked, runFrom (Rule.satisfied resolve t.rules) p = (.ok [r], checked) ∧
      q = checked.reported (.table t.name r.name) := by
  obtain ⟨selected, checked, satisfied, ran⟩ := runFrom_bind_value ran
  match selected with
  | [] => cases ran
  | [r'] =>
      cases ran
      exact ⟨checked, satisfied, rfl⟩
  | _ :: _ :: _ => cases ran

/-- What a command of a table does, on the sources alone: the assignments of the only satisfied rule are
carried out, which gives what is written where. -/
def Scope.enact (scope : Scope) (room : Option Nat) (command : String) (t : Table) :
    Evaluation (List (Coordinate × String)) := do
  Evaluation.report (.command command)
  match ← t.satisfiedRule? (scope.resolve room) with
  | none => Evaluation.fail (.noRuleSatisfied command)
  | some r => return Assignment.writes r.assignments (← scope.carry room r.assignments)

/-- A command that writes something carries out the assignments of the only satisfied rule. -/
theorem Scope.exists_of_enact {scope : Scope} {room : Option Nat} {command : String} {t : Table}
    {p q : Progress} {writes : List (Coordinate × String)}
    (ran : runFrom (scope.enact room command t) p = (.ok writes, q)) :
    ∃ r texts checked, runFrom (Rule.satisfied (scope.resolve room) t.rules)
        (p.reported (.command command)) = (.ok [r], checked) ∧
      runFrom (scope.carry room r.assignments) (checked.reported (.table t.name r.name)) =
        (.ok texts, q) ∧
      writes = Assignment.writes r.assignments texts := by
  obtain ⟨_, _, reported, ran⟩ := runFrom_bind_value ran
  cases reported
  obtain ⟨selected, _, selects, ran⟩ := runFrom_bind_value ran
  cases selected with
  | none => cases ran
  | some r =>
      obtain ⟨texts, _, carried, ran⟩ := runFrom_bind_value ran
      cases ran
      obtain ⟨checked, satisfied, rfl⟩ := Table.satisfied_of_satisfiedRule selects
      exact ⟨r, texts, checked, satisfied, carried, rfl⟩

namespace ContextId

variable {σ : Store} {ctx : ContextId} {state : StateId} {own : Registry} {commands : Catalog}
variable {command : String}

theorem runFrom_perform (backend : (σ.context ctx).backend = some (.tables commands)) :
    runFrom (ctx.perform command) σ = runFrom (ctx.execute command (.tables commands))
      (σ.withProgress ctx ((σ.progress ctx).reported (.command command))) := by
  have reported : runFrom (ctx.report (.command command)) σ =
      (.ok ⟨⟩, σ.withProgress ctx ((σ.progress ctx).reported (.command command))) :=
    ctx.runFrom_evaluate _ σ
  rw [ContextId.perform, runFrom_bind, runFrom_get]
  simp only [backend]
  rw [runFrom_bind_ok reported]

/-- A command without a table fails. -/
theorem runFrom_perform_unknown (backend : (σ.context ctx).backend = some (.tables commands))
    {e : EngineError} (unknown : commands.table command = .error e) :
    (runFrom (ctx.perform command) σ).1 = .error (.engine e) := by
  rw [runFrom_perform backend, execute, unknown]
  rfl

/-- A context over a state performs a command as it is enacted on its scope, and what it writes is
written to the state. -/
theorem carried_perform (above : σ.Over ctx state own)
    (backend : (σ.context ctx).backend = some (.tables commands)) {t : Table}
    (found : commands.table command = .ok t) :
    σ.Carried state (runFrom (ctx.perform command) σ)
      (runFrom ((σ.scope (σ.context ctx).registry).enact σ.room command t) (σ.progress ctx)).1 := by
  have above₁ := above.withProgress ((σ.progress ctx).reported (.command command))
  have taken : runFrom (Engine.ofEngine (commands.table command))
      (σ.withProgress ctx ((σ.progress ctx).reported (.command command))) =
        (.ok t, σ.withProgress ctx ((σ.progress ctx).reported (.command command))) := by
    rw [found]
    rfl
  have reported : runFrom (Evaluation.report (.command command)) (σ.progress ctx) =
      (.ok ⟨⟩, (σ.progress ctx).reported (.command command)) := rfl
  have evaluated := ctx.runFrom_evaluate t.satisfiedRule?
    (σ.withProgress ctx ((σ.progress ctx).reported (.command command)))
  rw [above.resolver_withProgress, above.progress_withProgress] at evaluated
  rw [runFrom_perform backend, execute, runFrom_bind_ok taken, Scope.enact, runFrom_bind_ok reported]
  rcases selects : runFrom (t.satisfiedRule? (σ.resolver ctx))
    ((σ.progress ctx).reported (.command command)) with ⟨selected, p⟩
  rw [selects] at evaluated
  have selects : runFrom (t.satisfiedRule? ((σ.scope (σ.context ctx).registry).resolve σ.room))
    ((σ.progress ctx).reported (.command command)) = (selected, p) := selects
  cases selected with
  | error f =>
      rw [runFrom_bind_fault evaluated, runFrom_bind_fault selects]
      exact .failed f _
  | ok selected =>
      rw [runFrom_bind_ok evaluated, runFrom_bind_ok selects]
      cases selected with
      | none => exact .failed _ _
      | some r =>
          have carried := carried_assignAll r.assignments (above₁.withProgress p)
          rw [above₁.progress_withProgress, above₁.registry_withProgress, above.registry_withProgress]
            at carried
          simp only [runFrom_return]
          exact .of_holdings (σ := σ) (by rfl) carried

end ContextId

end DecisionTables
