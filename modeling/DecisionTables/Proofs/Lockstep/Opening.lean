import DecisionTables.Proofs.Lockstep.Contexts

/-!
# Making states and contexts in lockstep

States and contexts that are made of the same parts on two linked stores stand for
each other.  A reset copy of a context needs less: since it drops all values, the
contexts that it is made of may differ in them.
-/

namespace DecisionTables

section

variable {P : Pairing} {σ τ : Store} {ctx ctx' : ContextId}

/-! ## Registries -/

theorem Pairing.Registries.insert {r s : Registry} (registries : P.Registries r s) (name : Scalar)
    {i j : SourceId} (pair : P.sources i.index j.index) :
    P.Registries (Assoc.insert r name i) (Assoc.insert s name j) := by
  refine Assoc.insert_rel (K := fun e f => e = f)
    (R := fun i j : SourceId => P.sources i.index j.index) registries ?_ rfl pair
  intro _ _ same
  rw [same]

theorem Pairing.Registries.insertAll {r s more more' : Registry} (registries : P.Registries r s)
    (added : P.Registries more more') :
    P.Registries (Assoc.insertAll r more) (Assoc.insertAll s more') :=
  Assoc.insertAll_rel (R := fun i j : SourceId => P.sources i.index j.index) registries added

theorem Pairing.Registries.contains_eq {r s : Registry} (registries : P.Registries r s)
    (name : Scalar) : r.contains name = s.contains name := by
  have found : Option.Rel (fun i j : SourceId => P.sources i.index j.index) (r.find? name)
      (s.find? name) := Assoc.find?_rel registries fun _ _ same => by rw [same]
  rw [Assoc.contains, Assoc.contains]
  revert found
  generalize r.find? name = left
  generalize s.find? name = right
  intro found
  cases found <;> rfl

/-! ## States -/

theorem pairsAt_addSources (mirrors : P.Mirrors σ τ) (entries : Assoc Scalar Source) :
    PairsAt P (fun Q r s => Q.Registries r s) σ τ (StateId.addSources entries)
      (StateId.addSources entries) := by
  induction entries generalizing P σ τ with
  | nil => exact pairsAt_pure mirrors .nil
  | cons entry rest ih =>
      obtain ⟨name, source⟩ := entry
      apply pairsAt_bind (pairsAt_addSource mirrors (source.nameIfBlank name))
      intro Q σ' τ' i j advance pair
      apply pairsAt_bind (ih advance.mirrors)
      intro Q' σ'' τ'' r s advance' registries
      exact pairsAt_pure advance'.mirrors (.cons ⟨rfl, advance'.le.sources pair⟩ registries)

/-- The sources of a new state are under their keys, and each has a name. -/
theorem runFrom_addSources (entries : Assoc Scalar Source) (σ : Store) :
    ∃ r σ', runFrom (StateId.addSources entries) σ = (.ok r, σ') ∧
      Kept (fun _ => False) (fun s t => s = t) σ.sources σ'.sources ∧
      List.Forall₂ (fun e f => e.1 = f.1 ∧
        σ'.sources[f.2.index]? = some (e.2.nameIfBlank e.1)) entries r := by
  induction entries generalizing σ with
  | nil => exact ⟨[], σ, rfl, .refl (fun _ => rfl) _, .nil⟩
  | cons entry rest ih =>
      obtain ⟨name, source⟩ := entry
      obtain ⟨r, σ', run, kept, entries⟩ :=
        ih { σ with sources := σ.sources.push (source.nameIfBlank name) }
      have found := kept σ.sources.size _ Array.getElem?_push_size
      obtain ⟨s, now, same, _⟩ := found
      refine ⟨(name, ⟨σ.sources.size⟩) :: r, σ', ?_, ?_, .cons ⟨rfl, ?_⟩ entries⟩
      · rw [StateId.addSources, runFrom_bind]
        change (match runFrom (StateId.addSources rest >>= fun r => pure ((name, _) :: r))
          { σ with sources := σ.sources.push (source.nameIfBlank name) } with | r => r) = _
        rw [runFrom_bind, run]
        rfl
      · exact Kept.trans (fun _ _ _ => Eq.trans) (.push (fun _ => rfl) _ _) kept fun _ _ no => no
      · rw [now, ← same]

/-- Sources that are added are new ones, each of them once. -/
theorem apart_of_addSources {entries : Assoc Scalar Source} {σ' : Store} {r : Registry}
    (run : runFrom (StateId.addSources entries) σ = (.ok r, σ')) :
    (∀ entry ∈ r, σ.sources.size ≤ entry.2.index) ∧ r.values.Nodup := by
  induction entries generalizing σ r with
  | nil =>
      cases run
      exact ⟨fun _ impossible => absurd impossible List.not_mem_nil, List.nodup_nil⟩
  | cons entry rest ih =>
      obtain ⟨name, source⟩ := entry
      have added : runFrom (Engine.addSource (source.nameIfBlank name)) σ =
        (.ok ⟨σ.sources.size⟩, { σ with sources := σ.sources.push (source.nameIfBlank name) }) := rfl
      obtain ⟨r', σ'', run', _⟩ := runFrom_addSources rest
        { σ with sources := σ.sources.push (source.nameIfBlank name) }
      rw [StateId.addSources, runFrom_bind_ok added, runFrom_bind_ok run'] at run
      cases run
      obtain ⟨later, apart⟩ := ih run'
      rw [Array.size_push] at later
      constructor
      · intro entry member
        rcases List.mem_cons.mp member with rfl | member
        · exact Nat.le_refl _
        · exact Nat.le_of_succ_le (later entry member)
      · refine List.nodup_cons.mpr ⟨fun inside => ?_, apart⟩
        obtain ⟨entry, member, same⟩ := List.mem_map.mp inside
        have outside := later entry member
        rw [same] at outside
        exact Nat.not_succ_le_self _ outside

theorem tidy_of_addSources {entries : Assoc Scalar Source} (distinct : Assoc.Distinct entries)
    {σ' : Store} {r : Registry} (run : runFrom (StateId.addSources entries) σ = (.ok r, σ')) :
    σ'.Tidy r := by
  have apart := (apart_of_addSources run).2
  obtain ⟨r', σ'', run', _, related⟩ := runFrom_addSources entries σ
  rw [run] at run'
  cases run'
  have keys : entries.keys = r.keys := by
    clear run distinct apart
    induction related with
    | nil => rfl
    | cons head _ ih => rw [Assoc.keys_cons, Assoc.keys_cons, ih, head.1]
  constructor
  · rw [Assoc.distinct_iff_keys] at distinct ⊢
    rwa [← keys]
  · exact apart
  · clear run distinct keys apart
    induction related with
    | nil => exact fun _ impossible => absurd impossible List.not_mem_nil
    | @cons e f _ _ head _ ih =>
        intro entry member
        rcases List.mem_cons.mp member with rfl | later
        · refine ⟨_, head.2, ?_⟩
          rw [← head.1]
          exact Source.settled_nameIfBlank _ _
        · exact ih entry later

theorem pairsAt_create (mirrors : P.Mirrors σ τ) (entries : List (Scalar × Source)) :
    PairsAt P (fun Q a b => Q.states a.index b.index) σ τ (StateId.create entries)
      (StateId.create entries) := by
  apply pairsAt_bind_of_run (pairsAt_addSources mirrors (Assoc.ofList entries))
  intro Q σ' τ' r s advance registries run
  exact pairsAt_addState advance.mirrors registries
    (tidy_of_addSources (Assoc.distinct_ofList entries) run)

theorem pairsAt_ofNested (mirrors : P.Mirrors σ τ) (value : Value) :
    PairsAt P (fun Q a b => Q.states a.index b.index) σ τ (StateId.ofNested value)
      (StateId.ofNested value) := by
  cases value with
  | mapping entries =>
      apply pairsAt_bind (pairsAt_ofExcept mirrors (entries.mapM StateId.storedEntry))
      rintro Q σ' τ' sources _ advance rfl
      exact pairsAt_create advance.mirrors sources
  | _ => exact pairsAt_throw mirrors _

/-! ## Contexts -/

theorem pairsAt_addRegistered (mirrors : P.Mirrors σ τ) {r s : Registry}
    (registries : P.Registries r s) (name : Scalar) (source : Source) :
    PairsAt P (fun Q r s => Q.Registries r s) σ τ (ContextId.addRegistered r name source)
      (ContextId.addRegistered s name source) := by
  apply pairsAt_bind (pairsAt_addSource mirrors source)
  intro Q σ' τ' i j advance pair
  exact pairsAt_pure advance.mirrors ((registries.mono advance.le).insert name pair)

theorem pairsAt_addAllRegistered (mirrors : P.Mirrors σ τ) {r s : Registry}
    (registries : P.Registries r s) (sources : List Source) :
    PairsAt P (fun Q r s => Q.Registries r s) σ τ (ContextId.addAllRegistered r sources)
      (ContextId.addAllRegistered s sources) := by
  induction sources generalizing P σ τ r s with
  | nil => exact pairsAt_pure mirrors registries
  | cons source rest ih =>
      apply pairsAt_bind (pairsAt_addRegistered mirrors registries source.name source)
      intro Q σ' τ' r' s' advance registries'
      exact ih advance.mirrors registries'

theorem pairsAt_openTraced (mirrors : P.Mirrors σ τ) {state state' : StateId}
    (states : P.states state.index state'.index) (catalog : Option Catalog) (request : Source)
    (backend : Option Backend) {trace trace' : TraceId}
    (traces : P.traces trace.index trace'.index) :
    PairsAt P (fun Q a b => Q.contexts a.index b.index) σ τ
      (ContextId.openTraced state catalog request backend trace)
      (ContextId.openTraced state' catalog request backend trace') := by
  apply pairsAt_bind (pairsAt_addAllRegistered mirrors .nil _)
  intro Q₁ σ₁ τ₁ constants constants' advance₁ registries₁
  apply pairsAt_bind (pairsAt_addSource advance₁.mirrors request)
  intro Q₂ σ₂ τ₂ i j advance₂ pair
  have registered := (registries₁.mono advance₂.le).insert request.name pair
  apply pairsAt_bind (pairsAt_addAllRegistered advance₂.mirrors registered _)
  intro Q₃ σ₃ τ₃ own own' advance₃ registries₃
  have le := (advance₁.le.trans advance₂.le).trans advance₃.le
  apply pairsAt_get
  exact pairsAt_addContext advance₃.mirrors
    ⟨le.states states, rfl, rfl, advance₃.le.sources pair,
      registries₃.insertAll (advance₃.mirrors.state_rel (le.states states)), ⟨rfl, .nil, rfl⟩,
      le.traces traces⟩

theorem pairsAt_open (mirrors : P.Mirrors σ τ) {state state' : StateId}
    (states : P.states state.index state'.index) (catalog : Option Catalog) (request : Source)
    (backend : Option Backend) :
    PairsAt P (fun Q a b => Q.contexts a.index b.index) σ τ
      (ContextId.open state catalog request backend)
      (ContextId.open state' catalog request backend) := by
  apply pairsAt_bind (pairsAt_addTrace mirrors)
  intro Q σ' τ' trace trace' advance traces
  exact pairsAt_openTraced advance.mirrors (advance.le.states states) catalog request backend traces

theorem pairsAt_register (mirrors : P.Mirrors σ τ) (pair : P.contexts ctx.index ctx'.index)
    (name : String) (source : Source) :
    PairsAt P Same σ τ (ctx.register name source) (ctx'.register name source) := by
  apply pairsAt_get
  apply pairsAt_bind (pairsAt_addRegistered mirrors (mirrors.context_rel pair).registry _ source)
  intro Q σ' τ' r s advance registries
  have pair' := advance.le.contexts pair
  apply pairsAt_modify
  exact advance.mirrors.setContext pair'
    ((advance.mirrors.context_rel pair').withRegistry registries)

/-! ## Reset copies -/

/-- Sources of two stores that differ at most in their values. -/
def SourcesAlike (σ τ : Store) (i j : SourceId) : Prop :=
  ∃ s t, σ.sources[i.index]? = some s ∧ τ.sources[j.index]? = some t ∧ s.Alike t

/-- Registries of the same names whose sources differ at most in their values. -/
def RegistriesAlike (σ τ : Store) : Registry → Registry → Prop :=
  List.Forall₂ fun e f => e.1 = f.1 ∧ SourcesAlike σ τ e.2 f.2

/-- States whose sources differ at most in their values. -/
def StatesAlike (σ τ : Store) (i j : StateId) : Prop :=
  ∃ r s, σ.states[i.index]? = some r ∧ τ.states[j.index]? = some s ∧ RegistriesAlike σ τ r s

/-- Contexts that differ at most in the values of their sources and in what they remember. -/
structure ContextsAlike (σ τ : Store) (c d : Context) : Prop where
  catalog : c.catalog = d.catalog
  backend : c.backend = d.backend
  state : StatesAlike σ τ c.state d.state
  request : SourcesAlike σ τ c.request d.request
  registry : RegistriesAlike σ τ c.registry d.registry

theorem SourcesAlike.reset_eq {i j : SourceId} (alike : SourcesAlike σ τ i j) :
    (σ.source i).reset = (τ.source j).reset := by
  obtain ⟨s, t, left, right, same⟩ := alike
  rw [Store.source, Store.source, Array.getD_eq_getD_getElem?, Array.getD_eq_getD_getElem?, left,
    right]
  exact same

theorem RegistriesAlike.insertAll {r s more more' : Registry} (alike : RegistriesAlike σ τ r s)
    (added : RegistriesAlike σ τ more more') :
    RegistriesAlike σ τ (Assoc.insertAll r more) (Assoc.insertAll s more') :=
  Assoc.insertAll_rel (R := SourcesAlike σ τ) alike added

theorem StatesAlike.registries {i j : StateId} (alike : StatesAlike σ τ i j) :
    RegistriesAlike σ τ (σ.state i) (τ.state j) := by
  obtain ⟨r, s, left, right, registries⟩ := alike
  rw [Store.state, Store.state, Array.getD_eq_getD_getElem?, Array.getD_eq_getD_getElem?, left,
    right]
  exact registries

section

variable {owned owned' : Owned} {σ' τ' : Store}

theorem SourcesAlike.keep {i j : SourceId} (alike : SourcesAlike σ τ i j)
    (left : Keeps owned σ σ') (right : Keeps owned' τ τ') : SourcesAlike σ' τ' i j := by
  obtain ⟨s, t, found, found', same⟩ := alike
  obtain ⟨s', now, related, _⟩ := left.sources _ s found
  obtain ⟨t', now', related', _⟩ := right.sources _ t found'
  exact ⟨s', t', now, now', Eq.trans related.symm (Eq.trans same related')⟩

theorem RegistriesAlike.keep {r s : Registry} (alike : RegistriesAlike σ τ r s)
    (left : Keeps owned σ σ') (right : Keeps owned' τ τ') : RegistriesAlike σ' τ' r s :=
  List.Forall₂.imp (fun _ _ pair => ⟨pair.1, pair.2.keep left right⟩) alike

theorem StatesAlike.keep {i j : StateId} (alike : StatesAlike σ τ i j)
    (left : Keeps owned σ σ') (right : Keeps owned' τ τ') : StatesAlike σ' τ' i j := by
  obtain ⟨r, s, found, found', registries⟩ := alike
  obtain ⟨r', now, _, same⟩ := left.states _ r found
  obtain ⟨s', now', _, same'⟩ := right.states _ s found'
  rw [same id] at now
  rw [same' id] at now'
  exact ⟨r, s, now, now', registries.keep left right⟩

theorem ContextsAlike.keep {c d : Context} (alike : ContextsAlike σ τ c d)
    (left : Keeps owned σ σ') (right : Keeps owned' τ τ') : ContextsAlike σ' τ' c d :=
  ⟨alike.catalog, alike.backend, alike.state.keep left right, alike.request.keep left right,
    alike.registry.keep left right⟩

end

namespace Pairing.Mirrors

theorem sourcesAlike (mirrors : P.Mirrors σ τ) {i j : SourceId}
    (pair : P.sources i.index j.index) : SourcesAlike σ τ i j := by
  obtain ⟨s, t, left, right, same⟩ := mirrors.sources.content pair
  exact ⟨s, t, left, right, congrArg Source.reset same⟩

theorem registriesAlike (mirrors : P.Mirrors σ τ) {r s : Registry}
    (registries : P.Registries r s) : RegistriesAlike σ τ r s :=
  List.Forall₂.imp (fun _ _ pair => ⟨pair.1, mirrors.sourcesAlike pair.2⟩) registries

theorem statesAlike (mirrors : P.Mirrors σ τ) {i j : StateId} (pair : P.states i.index j.index) :
    StatesAlike σ τ i j := by
  obtain ⟨r, s, left, right, registries⟩ := mirrors.states.content pair
  exact ⟨r, s, left, right, mirrors.registriesAlike registries⟩

theorem contextsAlike (mirrors : P.Mirrors σ τ) {c d : Context} (contexts : P.Contexts c d) :
    ContextsAlike σ τ c d :=
  ⟨contexts.catalog, contexts.backend, mirrors.statesAlike contexts.state,
    mirrors.sourcesAlike contexts.request, mirrors.registriesAlike contexts.registry⟩

end Pairing.Mirrors

/-- Changed copies of states stand for each other where the changed sources are the same. -/
theorem pairsAt_copyWith (mirrors : P.Mirrors σ τ) {state state' : StateId} (f : Source → Source)
    (same : (σ.state state).map (fun entry => (entry.1, f (σ.source entry.2))) =
      (τ.state state').map (fun entry => (entry.1, f (τ.source entry.2)))) :
    PairsAt P (fun Q a b => Q.states a.index b.index) σ τ
      (state.mapSources f >>= StateId.create) (state'.mapSources f >>= StateId.create) := by
  apply pairsAt_bind (R := Same)
  · apply pairsAt_get
    exact pairsAt_pure mirrors same
  · rintro Q σ' τ' entries _ advance rfl
    exact pairsAt_create advance.mirrors entries

/-- States that differ at most in values have the same reset copy. -/
theorem pairsAt_stateCopyReset (mirrors : P.Mirrors σ τ) {state state' : StateId}
    (alike : StatesAlike σ τ state state') :
    PairsAt P (fun Q a b => Q.states a.index b.index) σ τ state.copyReset state'.copyReset := by
  apply pairsAt_copyWith mirrors
  have registries := alike.registries
  revert registries
  generalize σ.state state = r
  generalize τ.state state' = s
  intro registries
  induction registries with
  | nil => rfl
  | cons head _ ih => rw [List.map_cons, List.map_cons, ih, head.1, head.2.reset_eq]

theorem pairsAt_addMissing (mirrors : P.Mirrors σ τ) {r s : Registry}
    (registries : P.Registries r s) {entries entries' : List (Scalar × Source)}
    (same : List.Forall₂ (fun e f => e.1 = f.1 ∧ e.2.Alike f.2) entries entries') :
    PairsAt P (fun Q r s => Q.Registries r s) σ τ (ContextId.addMissing r entries)
      (ContextId.addMissing s entries') := by
  induction same generalizing P σ τ r s with
  | nil => exact pairsAt_pure mirrors registries
  | @cons e f _ _ head _ ih =>
      obtain ⟨name, source⟩ := e
      obtain ⟨name', source'⟩ := f
      obtain ⟨rfl, alike⟩ := head
      have resets : source.reset = source'.reset := alike
      rw [ContextId.addMissing, ContextId.addMissing, registries.contains_eq, resets]
      split
      · exact ih mirrors registries
      · apply pairsAt_bind (pairsAt_addRegistered mirrors registries name source'.reset)
        intro Q σ' τ' r' s' advance registries'
        exact ih advance.mirrors registries'

/-- Contexts that differ at most in values and memory have reset copies that stand for each
other. -/
theorem pairsAt_copyReset (mirrors : P.Mirrors σ τ)
    (alike : ContextsAlike σ τ (σ.context ctx) (τ.context ctx'))
    (traces : P.traces (σ.context ctx).trace.index (τ.context ctx').trace.index) :
    PairsAt P (fun Q a b => Q.contexts a.index b.index) σ τ ctx.copyReset ctx'.copyReset := by
  apply pairsAt_get
  revert alike traces
  generalize σ.context ctx = c
  generalize τ.context ctx' = d
  intro alike traces
  apply pairsAt_bind (pairsAt_stateCopyReset mirrors alike.state)
  intro Q₁ σ₁ τ₁ state state' advance₁ states
  have alike₁ := alike.keep advance₁.left advance₁.right
  apply pairsAt_get
  rw [alike₁.request.reset_eq, alike.catalog, alike.backend]
  apply pairsAt_bind (pairsAt_openTraced advance₁.mirrors states _ _ _ (advance₁.le.traces traces))
  intro Q₂ σ₂ τ₂ copy copy' advance₂ pair
  have alike₂ := alike₁.keep advance₂.left advance₂.right
  apply pairsAt_get
  have registered : ∀ {r s : Registry}, RegistriesAlike σ₂ τ₂ r s →
      List.Forall₂ (fun e f => e.1 = f.1 ∧ e.2.Alike f.2)
        (r.map fun entry => (entry.1, σ₂.source entry.2))
        (s.map fun entry => (entry.1, τ₂.source entry.2)) := by
    intro r s registries
    rw [List.forall₂_map_left_iff, List.forall₂_map_right_iff]
    exact List.Forall₂.imp (fun _ _ pair => ⟨pair.1, pair.2.reset_eq⟩) registries
  apply pairsAt_bind (pairsAt_addMissing advance₂.mirrors
    (advance₂.mirrors.context_rel pair).registry (registered alike₂.registry))
  intro Q₃ σ₃ τ₃ r s advance₃ registries
  have pair₃ := advance₃.le.contexts pair
  apply pairsAt_bind (pairsAt_modify (advance₃.mirrors.setContext pair₃
    ((advance₃.mirrors.context_rel pair₃).withRegistry registries)))
  intro Q₄ σ₄ τ₄ _ _ advance₄ _
  exact pairsAt_pure advance₄.mirrors (advance₄.le.contexts pair₃)

end

end DecisionTables
