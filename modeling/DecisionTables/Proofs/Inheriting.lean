import DecisionTables.Proofs.Enduring
import DecisionTables.Proofs.Opened
import DecisionTables.Proofs.Reopening
import DecisionTables.Proofs.Vouching

/-!
# What a prepared copy inherits

The reset copy on which a rule is tested reads the same tables as the context that it was
made of: its own ones, and those that were stored, requested or registered there.  The
assignments and the command of the rule bring no other table into it.  And when it has been
reloaded it remembers nothing.
-/

namespace DecisionTables

/-- The tables of a context. -/
def Context.tables (c : Context) : Catalog :=
  c.catalog.getD .empty

namespace Catalog

variable {catalog : Catalog} {s t : Source}

theorem Owns.reset (owns : catalog.Owns s) : catalog.Owns s.reset := by
  obtain ⟨name, content⟩ := s
  cases content with
  | memory kind values defaults => exact fun t impossible => by cases impossible
  | _ => exact owns

theorem Owns.nameIfBlank (owns : catalog.Owns s) (name : Scalar) :
    catalog.Owns (s.nameIfBlank name) := by
  unfold Source.nameIfBlank
  split
  · exact owns
  · exact owns

/-- What can be written to is no table. -/
theorem owns_of_write {fragment : String} {value : Value} (written : s.write fragment value = .ok t) :
    catalog.Owns t := by
  obtain ⟨name, content⟩ := s
  cases content with
  | memory kind values defaults =>
      cases written
      exact fun t impossible => by cases impossible
  | _ => cases written

end Catalog

/-- No table can be read in a context but its own ones, whether it is registered, stored or requested. -/
structure Store.OwnTables (σ : Store) (ctx : ContextId) : Prop where
  declared : ∀ t ∈ (σ.context ctx).tables.tables, (σ.context ctx).tables.Owns (.ofTable t)
  registered : σ.All (σ.context ctx).tables.Owns (σ.context ctx).registry
  stored : σ.All (σ.context ctx).tables.Owns (σ.state (σ.context ctx).state)
  requested : (σ.context ctx).tables.Owns (σ.source (σ.context ctx).request)

section

variable (catalog : Catalog) (s : Source) (σ : Store) (ctx : ContextId)

instance Catalog.decidableOwns : Decidable (catalog.Owns s) :=
  match content : s.content with
  | .table t => decidable_of_iff (catalog.entries.find? t.name = some t) (by
      unfold Owns table
      rw [content]
      constructor
      · rintro found _ ⟨⟩
        rw [found]
      · intro owns
        have own := owns t rfl
        split at own
        · cases own
          assumption
        · cases own)
  | .memory .. | .constant | .conditions _ | .bare => isTrue fun t table => by
      rw [content] at table
      cases table

instance Store.decidableAll (S : Source → Prop) [DecidablePred S] (r : Registry) :
    Decidable (σ.All S r) :=
  inferInstanceAs (Decidable (∀ entry ∈ r, S (σ.source entry.2)))

instance Store.decidableOwnTables : Decidable (σ.OwnTables ctx) :=
  decidable_of_iff
    ((∀ t ∈ (σ.context ctx).tables.tables, (σ.context ctx).tables.Owns (.ofTable t)) ∧
      σ.All (σ.context ctx).tables.Owns (σ.context ctx).registry ∧
      σ.All (σ.context ctx).tables.Owns (σ.state (σ.context ctx).state) ∧
      (σ.context ctx).tables.Owns (σ.source (σ.context ctx).request))
    ⟨fun ⟨declared, registered, stored, requested⟩ => ⟨declared, registered, stored, requested⟩,
      fun own => ⟨own.declared, own.registered, own.stored, own.requested⟩⟩

end

/-! ## The reset copy -/

/-- What is put together of values of a kind has values of that kind. -/
theorem Assoc.forall_snd_insertAll {κ ν : Type} [BEq κ] {P : ν → Prop} {a : Assoc κ ν}
    {entries : List (κ × ν)} (old : ∀ entry ∈ a, P entry.2) (new : ∀ entry ∈ entries, P entry.2) :
    ∀ entry ∈ insertAll a entries, P entry.2 := by
  intro entry member
  rcases mem_or_mem_values_of_mem_insertAll member with before | written
  · exact old entry before
  · obtain ⟨other, inside, same⟩ := List.mem_map.mp written
    exact same ▸ new other inside

section

variable {S : Source → Prop} {σ σ' : Store}

/-- The sources of a new state are of a kind if those that it is made of are. -/
theorem StateId.exists_addSources (named : ∀ s name, S s → S (s.nameIfBlank name))
    (entries : Assoc Scalar Source) (kinds : ∀ entry ∈ entries, S entry.2) (σ : Store) :
    ∃ r σ', runFrom (addSources entries) σ = (.ok r, σ') ∧ σ.Grown S σ' ∧ σ'.All S r := by
  induction entries generalizing σ with
  | nil => exact ⟨[], σ, rfl, .refl σ, fun _ impossible => absurd impossible List.not_mem_nil⟩
  | cons entry rest ih =>
      obtain ⟨name, source⟩ := entry
      obtain ⟨id, σ₁, added, grown, kind⟩ :=
        ContextId.exists_addSource (named source name (kinds _ List.mem_cons_self)) σ
      obtain ⟨r, σ₂, ran, grown', all⟩ :=
        ih (fun other member => kinds other (List.mem_cons_of_mem _ member)) σ₁
      refine ⟨(name, id) :: r, σ₂, ?_, grown.trans grown', fun other member => ?_⟩
      · rw [addSources, runFrom_bind_ok added, runFrom_bind_ok ran]
        rfl
      · rcases List.mem_cons.mp member with rfl | later
        · exact grown'.source id kind
        · exact all other later

theorem StateId.exists_create (named : ∀ s name, S s → S (s.nameIfBlank name))
    (entries : List (Scalar × Source)) (kinds : ∀ entry ∈ entries, S entry.2) (σ : Store) :
    ∃ r σ₁, σ.Grown S σ₁ ∧ σ₁.All S r ∧
      runFrom (create entries) σ =
        (.ok ⟨σ₁.states.size⟩, { σ₁ with states := σ₁.states.push r }) := by
  have distinct : ∀ entry ∈ Assoc.ofList entries, S entry.2 :=
    Assoc.forall_snd_insertAll (fun _ impossible => absurd impossible List.not_mem_nil) kinds
  obtain ⟨r, σ₁, ran, grown, all⟩ := exists_addSources named _ distinct σ
  refine ⟨r, σ₁, grown, all, ?_⟩
  rw [create, runFrom_bind_ok ran]
  rfl

/-- A reset copy of a state has sources of a kind if the state has. -/
theorem StateId.exists_copyReset (reset : ∀ s, S s → S s.reset)
    (named : ∀ s name, S s → S (s.nameIfBlank name)) {id : StateId} (all : σ.All S (σ.state id)) :
    ∃ r σ₁, σ.Grown S σ₁ ∧ σ₁.All S r ∧
      runFrom id.copyReset σ = (.ok ⟨σ₁.states.size⟩, { σ₁ with states := σ₁.states.push r }) := by
  have kinds : ∀ entry ∈ (σ.state id).map fun entry => (entry.1, (σ.source entry.2).reset), S entry.2 := by
    intro entry member
    obtain ⟨registered, inside, rfl⟩ := List.mem_map.mp member
    exact reset _ (all registered inside)
  have mapped : runFrom (id.mapSources Source.reset) σ =
      (.ok ((σ.state id).map fun entry => (entry.1, (σ.source entry.2).reset)), σ) := rfl
  obtain ⟨r, σ₁, grown, all', created⟩ := exists_create named _ kinds σ
  exact ⟨r, σ₁, grown, all', by rw [copyReset, runFrom_bind_ok mapped, created]⟩

/-- A registry that takes over what it lacks is of a kind if it was and what it lacked is. -/
theorem ContextId.exists_addMissing (reset : ∀ s, S s → S s.reset) (entries : List (Scalar × Source))
    (kinds : ∀ entry ∈ entries, S entry.2) {r : Registry} (all : σ.All S r) :
    ∃ r' σ', runFrom (addMissing r entries) σ = (.ok r', σ') ∧ σ.Grown S σ' ∧ σ'.All S r' := by
  induction entries generalizing r σ with
  | nil => exact ⟨r, σ, rfl, .refl σ, all⟩
  | cons entry rest ih =>
      obtain ⟨name, source⟩ := entry
      have later : ∀ entry ∈ rest, S entry.2 := fun other member => kinds other (List.mem_cons_of_mem _ member)
      cases contained : r.contains name with
      | true =>
          obtain ⟨r', σ', ran, grown, all'⟩ := ih later all
          refine ⟨r', σ', ?_, grown, all'⟩
          rw [addMissing, if_pos contained]
          exact ran
      | false =>
          obtain ⟨id, σ₁, added, grown, kind⟩ :=
            exists_addSource (reset source (kinds _ List.mem_cons_self)) σ
          obtain ⟨r', σ₂, ran, grown', all'⟩ := ih later ((all.grow grown).insert name kind)
          refine ⟨r', σ₂, ?_, grown.trans grown', all'⟩
          rw [addMissing, if_neg (Bool.eq_false_iff.mp contained), addRegistered, bind_assoc,
            runFrom_bind_ok added, pure_bind, ran]

end

/-! ## A context at rest -/

/-- A context that is computing nothing and has only sources of some kind registered. -/
structure Store.Houses (S : Source → Prop) (σ : Store) (ctx : ContextId) : Prop where
  inside : ctx.index < σ.contexts.size
  idle : (σ.context ctx).memo.computing = []
  all : σ.All S (σ.context ctx).registry

theorem Store.OwnTables.tableSources {σ : Store} {ctx : ContextId} (own : σ.OwnTables ctx) :
    ∀ s ∈ ContextId.tableSources (σ.context ctx).catalog, (σ.context ctx).tables.Owns s := by
  intro s member
  cases found : (σ.context ctx).catalog with
  | none =>
      rw [found] at member
      exact absurd member List.not_mem_nil
  | some catalog =>
      rw [found] at member
      obtain ⟨t, inside, rfl⟩ := List.mem_map.mp member
      refine own.declared t ?_
      rw [Context.tables, found]
      exact inside

/-- A context that reads its own tables can be copied, and nothing but these is registered in the reset
copy. -/
theorem ContextId.exists_copyReset {σ : Store} {ctx : ContextId} (own : σ.OwnTables ctx) :
    ∃ copy σ', runFrom ctx.copyReset σ = (.ok copy, σ') ∧
      σ'.All (σ.context ctx).tables.Owns (σ'.context copy).registry := by
  let c := σ.context ctx
  let S := c.tables.Owns
  have reset : ∀ s, S s → S s.reset := fun _ owns => owns.reset
  obtain ⟨r, σ₁, grown₁, all₁, copied⟩ :=
    StateId.exists_copyReset reset (fun _ name owns => owns.nameIfBlank name) own.stored
  let σ₂ : Store := { σ₁ with states := σ₁.states.push r }
  have stored : σ₂.All S (σ₂.state ⟨σ₁.states.size⟩) := by
    rw [Store.state_pushed]
    exact all₁
  obtain ⟨σ₃, requestId, registry, grown₃, all₃, opened⟩ :=
    exists_registry (σ := σ₂) c.catalog (fun _ impossible => by cases impossible) own.tableSources
      (reset _ (grown₁.source _ own.requested)) stored c.backend c.trace
  let σ₄ : Store :=
    { σ₃ with
      contexts := σ₃.contexts.push ⟨⟨σ₁.states.size⟩, c.catalog, c.backend, requestId, registry, .empty,
        c.trace⟩ }
  let copy : ContextId := ⟨σ₃.contexts.size⟩
  have registered : ∀ entry ∈ c.registry.map (fun entry => (entry.1, σ₄.source entry.2)), S entry.2 := by
    intro entry member
    obtain ⟨entry, inside, rfl⟩ := List.mem_map.mp member
    exact grown₃.source _ (grown₁.source _ (own.registered entry inside))
  have all₄ : σ₄.All S (σ₄.context copy).registry := by
    rw [Store.context_pushed]
    exact all₃
  obtain ⟨r', σ₅, completed, grown₅, all₅⟩ := exists_addMissing reset _ registered all₄
  have inside : copy.index < σ₅.contexts.size := by
    rw [grown₅.contexts, Array.size_push]
    exact Nat.lt_succ_self _
  refine ⟨copy, σ₅.setContext copy { σ₅.context copy with registry := r' },
    runFrom_copyReset_ok.mpr ⟨_, σ₂, σ₄, r', σ₅, copied, opened, completed, rfl⟩, ?_⟩
  rw [Store.context_setContext inside]
  exact all₅

/-- A reset copy of a context that reads its own tables reads these as well. -/
theorem ContextId.houses_copyReset {σ σ' : Store} {ctx copy : ContextId} (own : σ.OwnTables ctx)
    (ran : runFrom ctx.copyReset σ = (.ok copy, σ')) : σ'.Houses (σ.context ctx).tables.Owns copy := by
  obtain ⟨reopenable, memo⟩ := reopenable_copyReset ran
  obtain ⟨_, _, ran', all⟩ := exists_copyReset own
  cases ran.symm.trans ran'
  exact ⟨reopenable.inside, congrArg Memo.computing memo, all⟩

/-! ## Assignments and commands -/

theorem Store.All.setSource {S : Source → Prop} {σ : Store} {r : Registry} (all : σ.All S r)
    (id : SourceId) {s : Source} (kind : S s) : (σ.setSource id s).All S r := by
  intro entry member
  by_cases same : entry.2 = id
  · by_cases inside : id.index < σ.sources.size
    · rw [same, source_setSource_self inside]
      exact kind
    · have unchanged : σ.setSource id s = σ := by
        rw [Store.setSource, Array.setIfInBounds_eq_of_size_le (Nat.le_of_not_lt inside)]
      rw [unchanged]
      exact all entry member
  · rw [source_setSource_of_ne same]
    exact all entry member

namespace Store.Houses

variable {S : Source → Prop} {σ σ' : Store} {ctx : ContextId} {u : Unit}

theorem withProgress (houses : σ.Houses S ctx) {p : Progress}
    (same : Scope.SameComputing (σ.progress ctx) p) : (σ.withProgress ctx p).Houses S ctx := by
  have context := context_withProgress houses.inside p
  refine ⟨Nat.lt_of_lt_of_eq houses.inside Array.size_setIfInBounds.symm, ?_, ?_⟩
  · rw [context]
    exact Eq.trans same houses.idle
  · rw [context]
    exact houses.all

theorem evaluate {α : Type} {step : Resolver → Evaluation α} (houses : σ.Houses S ctx)
    (uniform : Uniform step) {a : α} (ran : runFrom (ctx.evaluate step) σ = (.ok a, σ')) :
    σ'.Houses S ctx := by
  obtain ⟨p, evaluated, rfl⟩ := ContextId.value_of_evaluate ran
  have onward := uniform.along Progress.along_onward
    (Scope.onward_resolve (σ.scope (σ.context ctx).registry) σ.room) (σ.progress ctx)
  change (σ.progress ctx).Onward (runFrom (step (σ.resolver ctx)) (σ.progress ctx)).2 at onward
  rw [evaluated] at onward
  exact houses.withProgress onward.computing

/-- A context that was reloaded remembers nothing, if it was at rest. -/
theorem reload (houses : σ.Houses S ctx) (ran : runFrom ctx.reload σ = (.ok u, σ')) :
    σ'.Houses S ctx ∧ (σ'.context ctx).memo = .empty := by
  cases ran
  have context := context_setContext houses.inside (σ.context ctx).reloaded
  have forgotten : (σ.context ctx).memo.forget = .empty := congrArg (Memo.mk [] []) houses.idle
  change (σ.setContext ctx (σ.context ctx).reloaded).Houses S ctx ∧
    ((σ.setContext ctx (σ.context ctx).reloaded).context ctx).memo = .empty
  refine ⟨⟨Nat.lt_of_lt_of_eq houses.inside Array.size_setIfInBounds.symm, ?_, ?_⟩, ?_⟩
  · rw [context]
    exact houses.idle
  · rw [context]
    exact houses.all
  · rw [context]
    exact forgotten

section

variable (kind : ∀ {s t : Source} {fragment : String} {value : Value}, s.write fragment value = .ok t → S t)

include kind

theorem assign (houses : σ.Houses S ctx) {a : Assignment}
    (ran : runFrom (ctx.assign a) σ = (.ok u, σ')) : σ'.Houses S ctx := by
  obtain ⟨text, σ₁, read, written⟩ := runFrom_bind_value ran
  have houses₁ := houses.evaluate (uniform_resolve a.source) read
  rcases ctx.write_cases a.target (.text text) σ₁ with ⟨f, failed⟩ | ⟨id, s, _, stored, wrote⟩
  · cases failed.symm.trans written
  · cases wrote.symm.trans written
    exact ⟨houses₁.inside, houses₁.idle, houses₁.all.setSource id (kind stored)⟩

theorem assignAll (houses : σ.Houses S ctx) {assignments : List Assignment}
    (ran : runFrom (ctx.assignAll assignments) σ = (.ok u, σ')) : σ'.Houses S ctx := by
  induction assignments generalizing σ with
  | nil =>
      cases ran
      exact houses
  | cons a rest ih =>
      obtain ⟨_, σ₁, assigned, later⟩ := runFrom_bind_value ran
      exact ih (houses.assign kind assigned) later

theorem perform (houses : σ.Houses S ctx) {command : String}
    (ran : runFrom (ctx.perform command) σ = (.ok u, σ')) : σ'.Houses S ctx := by
  obtain ⟨_, _, read, ran⟩ := runFrom_bind_value ran
  cases read
  cases backed : (σ.context ctx).backend with
  | none =>
      rw [backed] at ran
      cases ran
  | some backend =>
      rw [backed] at ran
      obtain ⟨_, σ₁, reported, ran⟩ := runFrom_bind_value ran
      have houses₁ := houses.evaluate (fun _ respected _ _ _ => respected.report _) reported
      cases backend with
      | bare => cases ran
      | tables commands =>
          obtain ⟨t, σ₂, found, ran⟩ := runFrom_bind_value ran
          rw [(eq_of_ofEngine found).2] at ran
          obtain ⟨rule, σ₃, selected, ran⟩ := runFrom_bind_value ran
          have houses₃ := houses₁.evaluate t.uniform_satisfiedRule? selected
          cases rule with
          | none => cases ran
          | some r => exact houses₃.assignAll kind ran

/-- A rule is prepared in a context without bringing in anything of another kind, and after that the context
remembers nothing. -/
theorem prepare (houses : σ.Houses S ctx) {r : Rule}
    (ran : runFrom (r.prepare ctx) σ = (.ok u, σ')) :
    σ'.Houses S ctx ∧ (σ'.context ctx).memo = .empty := by
  obtain ⟨_, σ₁, assigned, ran⟩ := runFrom_bind_value ran
  have houses₁ := houses.assignAll kind assigned
  cases named : r.outcome.find? Rule.executeOutcome with
  | none =>
      rw [named] at ran
      exact houses₁.reload ran
  | some command =>
      rw [named] at ran
      obtain ⟨_, σ₂, performed, ran⟩ := runFrom_bind_value ran
      exact (houses₁.perform kind performed).reload ran

end

end Store.Houses

end DecisionTables
