import DecisionTables.Proofs.Vouching

/-!
# What the engine remembers is sound

Each time the engine remembers an outcome or a result, all that led to it is known by
then.  So what it knows stays sound, and no table is known while it is being computed.
-/

namespace DecisionTables

open Scope (SameComputing)

/-- What is known is sound, and no table that is being computed is known. -/
structure Settling (scope : Scope) (catalog : Catalog) (p : Progress) : Prop where
  sound : Sound scope catalog p.known
  apart : ∀ name ∈ p.memo.computing, p.known.outcomes.find? name = none

/-- How a run of the engine leaves the progress: nothing is lost, and what is known settles. -/
structure Records (scope : Scope) (catalog : Catalog) (p p' : Progress) : Prop where
  settling : Settling scope catalog p'
  le : p.known.Le p'.known
  computing : SameComputing p p'

section

variable {scope : Scope} {catalog : Catalog} {r : Resolver} {p p' : Progress}

theorem Settling.entering (settling : Settling scope catalog p) {name : String}
    (unknown : p.memo.outcomes.find? name = none) : Settling scope catalog (p.entering name) := by
  refine ⟨settling.sound, fun other member => ?_⟩
  rcases List.mem_cons.mp member with rfl | inside
  · exact unknown
  · exact settling.apart other inside

theorem Settling.leaving (settling : Settling scope catalog p) (name : String) :
    Settling scope catalog (p.leaving name) :=
  ⟨settling.sound, fun other member => settling.apart other (List.mem_of_mem_erase member)⟩

/-- A table that was just decided may be known as soon as it is left. -/
theorem Settling.knowing {t : Table} {o : Outcome} (settling : Settling scope catalog p')
    (computing : SameComputing (p.entering t.name) p')
    (free : p.memo.computing.contains t.name = false) (own : catalog.table t.name = .ok t)
    (entails : scope.Entails p'.known (fun resolve => t.decide resolve) o) :
    Settling scope catalog ((p'.leaving t.name).knowing t.name o) := by
  have unknown : p'.known.outcomes.find? t.name = none := by
    refine settling.apart t.name ?_
    rw [computing]
    exact List.mem_cons_self
  refine ⟨.outcome settling.sound own unknown entails, fun other member => ?_⟩
  refine (p'.known.find?_withOutcome t.name other o).trans ?_
  rw [if_neg]
  · exact settling.apart other (List.mem_of_mem_erase member)
  · rintro rfl
    rw [show ((p'.leaving t.name).knowing t.name o).memo.computing = p.memo.computing from
      computing.leaving] at member
    rw [List.contains_iff_mem.mpr member] at free
    cases free

theorem Records.refl (settling : Settling scope catalog p) : Records scope catalog p p :=
  ⟨settling, .refl _, rfl⟩

theorem Records.trans {p'' : Progress} (first : Records scope catalog p p')
    (second : Records scope catalog p' p'') : Records scope catalog p p'' :=
  ⟨second.settling, first.le.trans second.le, second.computing.trans first.computing⟩

/-- A named condition that was just evaluated may be known from then on. -/
theorem Records.judged (coherent : scope.Coherent) (settling : Settling scope catalog p)
    {key : Scalar} {id : SourceId} {source : Source} (found : Assoc.find? scope key = some (id, source))
    {named : Assoc String Condition} (content : source.content = .conditions named) {name : String}
    {c : Condition} (registered : named.find? name = some c) {result : Bool × String}
    (entails : scope.Entails p.known (fun resolve => c.evaluate resolve) result) :
    Records scope catalog p (p.judged id name (Condition.verdict result)) := by
  cases known : p.known.verdicts.find? (id, name) with
  | none =>
      exact ⟨⟨.verdict settling.sound found content registered known entails, settling.apart⟩,
        Knowledge.le_withVerdict known _, rfl⟩
  | some text =>
      -- A named condition may come to know itself meanwhile, but with no other result.
      obtain impossible | ⟨j, result', _, le, same, before⟩ :=
        settling.sound.exists_evaluated coherent found content registered known
      · cases impossible
      have agree : result' = result := (before.mono le c.uniform_evaluate).unique entails
      rw [← same, agree] at known
      have unchanged : (p.judged id name (Condition.verdict result)).known = p.known :=
        Knowledge.withVerdict_of_known known
      refine ⟨⟨?_, ?_⟩, ?_, rfl⟩
      · rw [unchanged]
        exact settling.sound
      · rw [unchanged]
        exact settling.apart
      · rw [unchanged]
        exact .refl _

/-! ## Steps -/

/-- A run records what is known, and a value that it gives is given as well by an evaluation to
which all of that may be known. -/
def RecordsFor (scope : Scope) (catalog : Catalog) (w : Knowledge) {α : Type} (x y : Evaluation α) :
    Prop :=
  ∀ p, Settling scope catalog p → Records scope catalog p (runFrom x p).2 ∧
    ((runFrom x p).2.known.Le w → ∀ a, (runFrom x p).1 = .ok a → ∀ q, (runFrom y q).1 = .ok a)

theorem respected_recordsFor (scope : Scope) (catalog : Catalog) (w : Knowledge) :
    Respected fun _ x y => RecordsFor scope catalog w x y where
  pure _ _ settling := ⟨.refl settling, fun _ _ gives _ => gives⟩
  fail _ _ settling := ⟨.refl settling, fun _ _ impossible => by cases impossible⟩
  report _ _ settling :=
    ⟨⟨⟨settling.sound, settling.apart⟩, .refl _, rfl⟩, fun _ _ gives _ => gives⟩
  bind := by
    intro α β x y f g first rest p settling
    have recorded := first p settling
    revert recorded
    rcases ran : runFrom x p with ⟨result, p'⟩
    intro recorded
    obtain ⟨records, gives⟩ := recorded
    cases result with
    | error e =>
        rw [runFrom_bind_fault ran]
        exact ⟨records, fun _ _ impossible => by cases impossible⟩
    | ok a =>
        rw [runFrom_bind_ok ran]
        obtain ⟨records', gives'⟩ := rest a p' records.settling
        refine ⟨records.trans records', fun le b second q => ?_⟩
        have given := gives (records'.le.trans le) a rfl q
        rcases ran' : runFrom y q with ⟨result', q'⟩
        rw [ran'] at given
        rw [runFrom_bind_ok (show runFrom y q = (.ok a, q') by rw [ran', ← given])]
        exact gives' le b second q'

/-- A resolver that records what is known, and after which each value can be recalled. -/
def Scope.Recorded (scope : Scope) (catalog : Catalog) (r : Resolver) : Prop :=
  ∀ c p, Settling scope catalog p → Records scope catalog p (runFrom (r c) p).2 ∧
    ∀ text, (runFrom (r c) p).1 = .ok text →
      scope.recollect (runFrom (r c) p).2.known c = some (.ok text)

/-- A step that gives a value leaves enough knowledge to entail it. -/
theorem Scope.Recorded.step {α : Type} (recorded : scope.Recorded catalog r)
    {step : Resolver → Evaluation α} (uniform : Uniform step) (settling : Settling scope catalog p) :
    Records scope catalog p (runFrom (step r) p).2 ∧
      ∀ a, (runFrom (step r) p).1 = .ok a → scope.Entails (runFrom (step r) p).2.known step a := by
  have along : ∀ w c, RecordsFor scope catalog w (r c) (scope.recalled w c) := by
    intro w c p settling
    obtain ⟨records, recalls⟩ := recorded c p settling
    refine ⟨records, fun le text gives q => ?_⟩
    rw [runFrom_recalled, recollect_mono le (recalls text gives)]
  have records := fun w => uniform _ (respected_recordsFor scope catalog w) r (scope.recalled w)
    (along w) p settling
  exact ⟨(records p.known).1, fun a gives => (records _).2 (.refl _) a gives⟩

/-- A table that is decided is known from then on. -/
theorem Scope.Recorded.table (recorded : scope.Recorded catalog r) {t : Table}
    (own : catalog.table t.name = .ok t) (settling : Settling scope catalog p) :
    Records scope catalog p (runFrom (t.decideOnce r) p).2 ∧
      ∀ o, (runFrom (t.decideOnce r) p).1 = .ok o →
        (runFrom (t.decideOnce r) p).2.known.outcomes.find? t.name = some o := by
  cases t.once r p with
  | known _ remembered ran =>
      rw [ran]
      refine ⟨.refl settling, fun _ gives => ?_⟩
      cases gives
      exact remembered
  | cyclic _ _ ran =>
      rw [ran]
      exact ⟨.refl settling, fun _ impossible => by cases impossible⟩
  | value o p' unknown free decided ran =>
      obtain ⟨records, entails⟩ := recorded.step t.uniform_decide (settling.entering unknown)
      rw [decided] at records entails
      rw [ran]
      have fresh : p'.known.outcomes.find? t.name = none := by
        refine records.settling.apart t.name ?_
        rw [records.computing]
        exact List.mem_cons_self
      refine ⟨⟨records.settling.knowing records.computing free own (entails o rfl),
        records.le.trans (Knowledge.le_withOutcome fresh o), records.computing.leaving⟩, fun _ gives => ?_⟩
      cases gives
      refine (p'.known.find?_withOutcome t.name t.name o).trans ?_
      rw [if_pos rfl]
  | fault f p' unknown _ decided ran =>
      obtain ⟨records, _⟩ := recorded.step t.uniform_decide (settling.entering unknown)
      rw [decided] at records
      rw [ran]
      exact ⟨⟨records.settling.leaving t.name, records.le, records.computing.leaving⟩,
        fun _ impossible => by cases impossible⟩

/-- A named condition that is evaluated is known from then on. -/
theorem Scope.Recorded.condition (coherent : scope.Coherent) (recorded : scope.Recorded catalog r)
    {key : Scalar} {id : SourceId} {source : Source} (found : Assoc.find? scope key = some (id, source))
    {named : Assoc String Condition} (content : source.content = .conditions named) {name : String}
    {c : Condition} (registered : named.find? name = some c) (settling : Settling scope catalog p) :
    Records scope catalog p (runFrom (c.decideOnce r id name) p).2 ∧
      ∀ text, (runFrom (c.decideOnce r id name) p).1 = .ok text →
        (runFrom (c.decideOnce r id name) p).2.known.verdicts.find? (id, name) = some text := by
  obtain ⟨records, entails⟩ := recorded.step c.uniform_evaluate settling
  cases c.once r id name p with
  | known _ remembered ran =>
      rw [ran]
      refine ⟨.refl settling, fun _ gives => ?_⟩
      cases gives
      exact remembered
  | value result p' _ evaluated ran =>
      rw [evaluated] at records entails
      rw [ran]
      refine ⟨records.trans (.judged coherent records.settling found content registered
        (entails result rfl)), fun _ gives => ?_⟩
      cases gives
      refine (p'.known.find?_withVerdict id name _ (id, name)).trans ?_
      rw [if_pos rfl]
  | fault _ _ _ evaluated ran =>
      rw [evaluated] at records
      rw [ran]
      exact ⟨records, fun _ impossible => by cases impossible⟩

/-! ## The engine -/

namespace Scope

theorem recorded_below {d : Nat} {source : Source} {room : Option Nat}
    (recorded : ∀ room, scope.Recorded catalog (scope.resolveBy .all d room)) :
    scope.Recorded catalog (scope.below .all d source room) := by
  rw [below]
  cases roomBelow source room with
  | some left => exact recorded left
  | none => exact fun c p settling => ⟨.refl settling, fun _ impossible => by cases impossible⟩

/-- The engine keeps its knowledge sound, and recalls every value that it has given. -/
theorem recorded_resolveBy (coherent : scope.Coherent) (owned : scope.Owned catalog) (d : Nat)
    (room : Option Nat) : scope.Recorded catalog (scope.resolveBy .all d room) := by
  induction d generalizing room with
  | zero => exact fun c p settling => ⟨.refl settling, fun _ impossible => by cases impossible⟩
  | succ d ih =>
      intro c p settling
      cases found : Assoc.find? scope (.text c.source) with
      | none =>
          rw [runFrom_resolveBy_missing found]
          exact ⟨.refl settling, fun _ impossible => by cases impossible⟩
      | some entry =>
          obtain ⟨id, source⟩ := entry
          have recorded : scope.Recorded catalog (scope.below .all d source room) := recorded_below ih
          rw [runFrom_resolveBy found, Progress.retained_all]
          rcases source.direct_or_computed c.fragment with
            ⟨result, direct⟩ | ⟨t, content⟩ | ⟨named, condition, content, registered⟩
          · rw [Source.runFrom_read_direct direct]
            refine ⟨.refl settling, fun text gives => ?_⟩
            rw [recollect_direct found direct]
            exact congrArg some gives
          · obtain ⟨_, _, member⟩ := Assoc.exists_mem_of_find? found
            have decided := recorded.table (owned _ member t content) settling
            rw [Source.runFrom_read_table content]
            revert decided
            rcases runFrom (t.decideOnce _) p with ⟨result, p'⟩
            intro decided
            obtain ⟨records, known⟩ := decided
            cases result with
            | error f => exact ⟨records, fun _ impossible => by cases impossible⟩
            | ok o =>
                refine ⟨records, fun text gives => ?_⟩
                rw [recollect_table found content, known o rfl]
                exact congrArg some gives
          · have evaluated := recorded.condition coherent found content registered settling
            rw [Source.runFrom_read_condition content registered]
            refine ⟨evaluated.1, fun text gives => ?_⟩
            rw [recollect_condition found content registered, evaluated.2 text gives]
            rfl

end Scope

end

end DecisionTables
