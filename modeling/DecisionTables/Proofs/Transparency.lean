import DecisionTables.Proofs.Recording

/-!
# Knowledge never changes an answer

An evaluation that starts with less knowledge, and that may forget what it learns, goes
along with the engine: it computes what the engine knows already, and comes to the same
values and errors, unless it runs too deep.
-/

namespace DecisionTables

/-- Progress with less knowledge beside progress of the engine. -/
structure Refreshes (scope : Scope) (catalog : Catalog) (q p : Progress) : Prop where
  known : q.known.Le p.known
  computing : q.memo.computing = p.memo.computing
  settling : Settling scope catalog p

namespace Refreshes

variable {scope : Scope} {catalog : Catalog} {q p : Progress}

theorem retained (refreshes : Refreshes scope catalog q p) (R : Retention) :
    Refreshes scope catalog (q.retained R) p where
  known := (q.known_retained_le R).trans refreshes.known
  computing := (q.computing_retained R).trans refreshes.computing
  settling := refreshes.settling

theorem within (refreshes : Refreshes scope catalog q p) :
    Within .blank p.known p.known q := by
  refine ⟨.blank _, refreshes.known, ?_⟩
  rw [refreshes.computing]
  exact refreshes.settling.apart

theorem confirmed {α : Type} {ran : Except Fault α × Progress} {result : Except Fault α}
    (refreshes : Refreshes scope catalog q p) (confirms : Confirms .blank p.known q ran result) :
    Refreshes scope catalog ran.2 p where
  known := confirms.known
  computing := confirms.computing.trans refreshes.computing
  settling := refreshes.settling

theorem entering (refreshes : Refreshes scope catalog q p) {name : String}
    (unknown : p.memo.outcomes.find? name = none) :
    Refreshes scope catalog (q.entering name) (p.entering name) where
  known := refreshes.known
  computing := congrArg (name :: ·) refreshes.computing
  settling := refreshes.settling.entering unknown

theorem leaving (refreshes : Refreshes scope catalog q p) (name : String) :
    Refreshes scope catalog (q.leaving name) (p.leaving name) where
  known := refreshes.known
  computing := congrArg (List.erase · name) refreshes.computing
  settling := refreshes.settling.leaving name

theorem outcome_none (refreshes : Refreshes scope catalog q p) {name : String}
    (unknown : p.memo.outcomes.find? name = none) : q.memo.outcomes.find? name = none :=
  refreshes.known.outcome_none unknown

theorem verdict_none (refreshes : Refreshes scope catalog q p) {key : SourceId × String}
    (unknown : p.memo.verdicts.find? key = none) : q.memo.verdicts.find? key = none :=
  refreshes.known.verdict_none unknown

end Refreshes

/-- The evaluation with less knowledge goes along with the engine until it runs too deep. -/
def refreshing (scope : Scope) (catalog : Catalog) : Tracking where
  rel := Refreshes scope catalog
  gaps _ := False
  slips f := f = .tooDeep
  rel_reported _ refreshes :=
    ⟨refreshes.known, refreshes.computing, refreshes.settling.sound, refreshes.settling.apart⟩

section

variable {scope : Scope} {catalog : Catalog} {r s : Resolver}

/-- A run that confirms what the engine knows goes along with it. -/
theorem Confirms.ends {α : Type} {q p : Progress} {ran : Except Fault α × Progress} {a : α}
    (confirms : Confirms .blank p.known q ran (.ok a)) (refreshes : Refreshes scope catalog q p) :
    (refreshing scope catalog).Ends ran (.ok a, p) := by
  have refreshes' := refreshes.confirmed confirms
  revert confirms refreshes'
  obtain ⟨result, q'⟩ := ran
  intro confirms refreshes'
  rcases confirms.result with deep | same
  · cases deep
    exact .slip rfl refreshes'
  · cases same
    exact .value a refreshes'

theorem refreshing_table (confirmed : ∀ l, scope.Confirmed catalog .blank l r)
    (recorded : scope.Recorded catalog s) (along : ∀ c, (refreshing scope catalog).Tracks (r c) (s c))
    {t : Table} (own : catalog.table t.name = .ok t) :
    (refreshing scope catalog).Tracks (t.decideOnce r) (t.decideOnce s) := by
  intro q p refreshes
  have settled := (recorded.table own refreshes.settling).1.settling
  refine Tracking.ends_decideOnce (refreshing scope catalog) rfl rfl refreshes refreshes.computing
    (fun o known => ?_) refreshes.outcome_none (fun unknown _ => ?_) (fun within => within.leaving t.name)
    fun {o p' q'} _ ran within => ?_
  · exact (refreshes.settling.sound.confirms_table (confirmed p.known) (.refl _) own known
      refreshes.within).ends refreshes
  · exact t.uniform_decide.tracks along _ _ (refreshes.entering unknown)
  · rw [ran] at settled
    exact ⟨within.known.withOutcome t.name o, (within.leaving t.name).computing, settled⟩

theorem refreshing_condition (coherent : scope.Coherent)
    (confirmed : ∀ l, scope.Confirmed catalog .blank l r) (recorded : scope.Recorded catalog s)
    (along : ∀ c, (refreshing scope catalog).Tracks (r c) (s c)) {key : Scalar} {id : SourceId}
    {source : Source} (found : Assoc.find? scope key = some (id, source))
    {named : Assoc String Condition} (content : source.content = .conditions named) {name : String}
    {c : Condition} (registered : named.find? name = some c) :
    (refreshing scope catalog).Tracks (c.decideOnce r id name) (c.decideOnce s id name) := by
  intro q p refreshes
  have settled := (recorded.condition coherent found content registered refreshes.settling).1.settling
  refine Tracking.ends_conditionOnce (fun text known => ?_) refreshes.verdict_none
    (c.uniform_evaluate.tracks along _ _ refreshes) fun {text p' q'} _ ran after => ?_
  · exact (refreshes.settling.sound.confirms_condition coherent (confirmed p.known) (.refl _) found
      content registered known refreshes.within).ends refreshes
  · rw [ran] at settled
    exact ⟨after.known.withVerdict id name text, after.computing, settled⟩

/-! ## The engine -/

namespace Scope

variable {R : Retention} {d : Nat}

theorem refreshing_below {source : Source} {room : Option Nat}
    (along : ∀ room c, (refreshing scope catalog).Tracks (scope.resolveBy R d room c)
      (scope.resolveBy .all d room c)) (c : Coordinate) :
    (refreshing scope catalog).Tracks (scope.below R d source room c)
      (scope.below .all d source room c) := by
  rw [below, below]
  cases roomBelow source room with
  | some left => exact along left c
  | none => exact Tracking.tracks_throw _

/-- Whatever of its memory an evaluation retains, it goes along with the engine. -/
theorem refreshing_resolveBy (coherent : scope.Coherent) (owned : scope.Owned catalog)
    (R : Retention) (d : Nat) (room : Option Nat) (c : Coordinate) :
    (refreshing scope catalog).Tracks (scope.resolveBy R d room c) (scope.resolveBy .all d room c) := by
  induction d generalizing room c with
  | zero => exact Tracking.tracks_throw _
  | succ d ih =>
      intro q p refreshes
      have refreshes := refreshes.retained R
      cases found : Assoc.find? scope (.text c.source) with
      | none =>
          rw [runFrom_resolveBy_missing found, runFrom_resolveBy_missing found]
          exact .fault _ refreshes
      | some entry =>
          obtain ⟨id, source⟩ := entry
          have along : ∀ c, (refreshing scope catalog).Tracks (scope.below R d source room c)
              (scope.below .all d source room c) := refreshing_below ih
          have confirmed : ∀ l, scope.Confirmed catalog .blank l (scope.below R d source room) :=
            fun l => confirmed_below (confirmed_resolveBy coherent owned l R.spares_blank d)
          have recorded : scope.Recorded catalog (scope.below .all d source room) :=
            recorded_below (recorded_resolveBy coherent owned d)
          rw [runFrom_resolveBy found, runFrom_resolveBy found, Progress.retained_all]
          rcases source.direct_or_computed c.fragment with
            ⟨result, direct⟩ | ⟨t, content⟩ | ⟨named, condition, content, registered⟩
          · rw [Source.runFrom_read_direct direct, Source.runFrom_read_direct direct]
            cases result with
            | ok text => exact .value text refreshes
            | error f => exact .fault f refreshes
          · obtain ⟨_, _, member⟩ := Assoc.exists_mem_of_find? found
            have decided := refreshing_table confirmed recorded along (owned _ member t content)
            obtain ⟨name, _⟩ := source
            cases content
            exact Tracking.tracks_read_table decided id id c.fragment _ _ refreshes
          · rw [Source.runFrom_read_condition content registered,
              Source.runFrom_read_condition content registered]
            exact refreshing_condition coherent confirmed recorded along found content registered _ _
              refreshes

end Scope

end

end DecisionTables
