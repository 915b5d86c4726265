import Mathlib
import DecisionTables.Proofs.Atomicity
import DecisionTables.Proofs.Effects
import DecisionTables.Proofs.Fronting
import DecisionTables.Proofs.Outdating

/-!
# Rows of tildes

A row of tildes holds of every text, so it never changes which rules are satisfied.  But its
subject is resolved, and what is computed on the way is remembered.  A command goes on alike
as long as nothing of this is outdated by its own assignments and read by them.
-/

namespace DecisionTables

/-! ## Tables with one more row -/

/-- The cell of a condition row that holds of every text. -/
def Fragment.tilde (subject : String) : Fragment :=
  ⟨.row .condition, subject, "~"⟩

/-- The condition of such a cell. -/
def Condition.tilde (subject : String) : Condition :=
  .parse subject "~"

/-- A rule and the same rule with such a cell behind its other conditions. -/
structure Rule.Tolerant (subject : String) (r r' : Rule) : Prop where
  name : r'.name = r.name
  fragments : ∃ before behind, r.fragments = before ++ behind ∧
    r'.fragments = before ++ .tilde subject :: behind ∧ ∀ f ∈ behind, f.condition? = none

namespace Rule.Tolerant

variable {subject : String} {r r' : Rule}

theorem conditions (tolerant : r.Tolerant subject r') :
    r'.conditions = r.conditions ++ [.tilde subject] := by
  obtain ⟨before, behind, left, right, none⟩ := tolerant.fragments
  have nothing : behind.filterMap Fragment.condition? = [] := List.filterMap_eq_nil_iff.mpr none
  have tilde : (Fragment.tilde subject).condition? = some (.tilde subject) := rfl
  rw [Rule.conditions, Rule.conditions, left, right, List.filterMap_append, List.filterMap_append,
    List.filterMap_cons_some tilde, nothing, List.append_nil]

theorem assignments (tolerant : r.Tolerant subject r') : r'.assignments = r.assignments := by
  obtain ⟨before, behind, left, right, _⟩ := tolerant.fragments
  have tilde : (Fragment.tilde subject).assignment? = none := rfl
  rw [Rule.assignments, Rule.assignments, left, right, List.filterMap_append, List.filterMap_append,
    List.filterMap_cons_none tilde]

end Rule.Tolerant

/-- A table and the same table with a last condition row of tildes. -/
structure Table.Tolerant (subject : String) (t t' : Table) : Prop where
  name : t'.name = t.name
  rules : List.Forall₂ (Rule.Tolerant subject) t.rules t'.rules

/-- The table with a row of tildes as its last row. -/
def Table.withTildes (subject : String) (t : Table) : Table :=
  { t with rules := t.rules.map fun r => { r with fragments := r.fragments ++ [.tilde subject] } }

theorem Table.tolerant_withTildes (subject : String) (t : Table) :
    t.Tolerant subject (t.withTildes subject) := by
  refine ⟨rfl, List.forall₂_map_right_iff.mpr (List.forall₂_same.mpr fun r _ => ⟨rfl, ?_⟩)⟩
  exact ⟨r.fragments, [], (List.append_nil _).symm, rfl,
    fun _ impossible => absurd impossible List.not_mem_nil⟩

namespace Sheet

variable {s s' : Sheet} {subject : String} {before behind : List Record}

/-- A condition row of tildes, one for every rule of a sheet. -/
def tildes (s : Sheet) (subject : String) : Record :=
  ⟨.condition, subject, List.replicate s.ruleCount "~"⟩

theorem rows_of_tildes (left : s.records = before ++ behind)
    (right : s'.records = before ++ s.tildes subject :: behind) {tag : Tag} (other : tag ≠ .condition) :
    s'.rows tag = s.rows tag := by
  have apart : decide ((s.tildes subject).tag = tag) = false := decide_eq_false other.symm
  rw [rows, rows, left, right, List.filter_append, List.filter_append, List.filter_cons, apart]
  rfl

theorem conditions_of_tildes (left : s.records = before ++ behind)
    (right : s'.records = before ++ s.tildes subject :: behind)
    (last : ∀ r ∈ behind, r.tag ≠ .condition) :
    s'.rows .condition = s.rows .condition ++ [s.tildes subject] := by
  have nothing : behind.filter (fun r => r.tag = .condition) = [] :=
    List.filter_eq_nil_iff.mpr fun r member => by simpa using last r member
  have here : decide ((s.tildes subject).tag = Tag.condition) = true := rfl
  rw [rows, rows, left, right, List.filter_append, List.filter_append, List.filter_cons, here, if_pos rfl,
    nothing, List.append_nil]

theorem ruleCount_of_tildes (left : s.records = before ++ behind)
    (right : s'.records = before ++ s.tildes subject :: behind)
    (last : ∀ r ∈ behind, r.tag ≠ .condition) : s'.ruleCount = s.ruleCount := by
  have width : (s.tildes subject).width = s.ruleCount := List.length_replicate
  have conditions := conditions_of_tildes left right last
  cases rows : s.rows .condition with
  | nil =>
      have only : s'.width? .condition = some s.ruleCount := by
        rw [width?, conditions, rows, List.nil_append, List.head?_cons, Option.map_some, width]
      rw [ruleCount, only]
      rfl
  | cons first rest =>
      have given : s.width? .condition = some first.width := by
        rw [width?, rows]
        rfl
      have same : s'.width? .condition = some first.width := by
        rw [width?, conditions, rows]
        rfl
      rw [ruleCount, ruleCount, same, given]
      rfl

theorem condition?_cell {tag : Tag} (other : tag ≠ .condition) {column : Nat} {r : Record}
    (member : r ∈ s.rows tag) : (cell column r).condition? = none := by
  have kind : (cell column r).kind ≠ .row .condition := by
    intro same
    exact other ((mem_rows.mp member).2.symm.trans (FragmentKind.row.inj same))
  exact if_neg kind

/-- A sheet with one more row of tildes behind its condition rows makes a table with that row. -/
theorem tolerant_table (name : s'.name = s.name) (left : s.records = before ++ behind)
    (right : s'.records = before ++ s.tildes subject :: behind)
    (last : ∀ r ∈ behind, r.tag ≠ .condition) : s.table.Tolerant subject s'.table := by
  have count := ruleCount_of_tildes left right last
  have headers : s'.rows .header = s.rows .header := rows_of_tildes left right (by decide)
  have outcomes : s'.rows .outcome = s.rows .outcome := rows_of_tildes left right (by decide)
  have assignments : s'.rows .assignment = s.rows .assignment := rows_of_tildes left right (by decide)
  refine ⟨?_, ?_⟩
  · change s'.tableName = s.tableName
    rw [tableName, tableName, headers, name]
  · change List.Forall₂ _ ((List.range s.ruleCount).map s.rule) ((List.range s'.ruleCount).map s'.rule)
    rw [count, List.forall₂_map_left_iff, List.forall₂_map_right_iff, List.forall₂_same]
    intro column inside
    have tilde : cell column (s.tildes subject) = .tilde subject := by
      have found : (List.replicate s.ruleCount "~").getD column "" = "~" := by
        rw [List.getD_eq_getElem?_getD, List.getElem?_replicate_of_lt (List.mem_range.mp inside)]
        rfl
      exact congrArg (Fragment.mk (.row .condition) subject) found
    refine ⟨?_, (s.rows .condition).map (cell column), (s.rows .outcome).map (cell column) ++
      ((s.rows .assignment).map (cell column)).filter fun f => !f.value.isEmpty, ?_, ?_, ?_⟩
    · change s'.label column = s.label column
      rw [label, label, label.plain, label.plain, headers, name]
    · exact List.append_assoc _ _ _
    · change s'.column column = _
      rw [Sheet.column, conditions_of_tildes left right last, outcomes, assignments, List.map_append,
        List.map_singleton, tilde, List.append_assoc, List.append_assoc]
      rfl
    · intro f member
      rcases List.mem_append.mp member with outcome | assignment
      · obtain ⟨r, inside, rfl⟩ := List.mem_map.mp outcome
        exact condition?_cell (by decide) inside
      · obtain ⟨r, inside, rfl⟩ := List.mem_map.mp (List.mem_filter.mp assignment).1
        exact condition?_cell (by decide) inside

end Sheet

/-! ## Checking the rules -/

/-- The engine beside the engine that has resolved more: this knows nothing beyond but what is known
besides, and all that it knows is sound. -/
structure Minding (scope : Scope) (catalog : Catalog) (besides : Knowledge) (q p : Progress) : Prop where
  beyond : q.Beyond besides p
  sound : Sound scope catalog p.known

theorem Meets.tooDeep_or_eq {α : Type} {I : Progress → Progress → Prop}
    {first second : Except Fault α × Progress} (meets : Meets I Eq first second) :
    first.1 = .error .tooDeep ∨ first.1 = second.1 := by
  cases meets with
  | deep => exact .inl rfl
  | fault f => exact .inr rfl
  | value _ same => exact .inr (congrArg Except.ok same)

section

variable {scope : Scope} {catalog : Catalog} {besides : Knowledge} {q p : Progress}

theorem Minding.start : Minding scope catalog besides .start .start :=
  ⟨⟨.refl _, .of_le _ (.blank _), rfl, rfl⟩, .known⟩

theorem Minding.reported (minding : Minding scope catalog besides q p) (e f : Event) :
    Minding scope catalog besides (q.reported e) (p.reported f) :=
  ⟨⟨minding.beyond.known, minding.beyond.among, minding.beyond.idle, minding.beyond.idle'⟩,
    minding.sound⟩

/-- What is sound is all that matters of what is known. -/
theorem Sound.founded {k : Knowledge} (sound : Sound scope catalog k) (c : Coordinate) :
    scope.Founded catalog c .blank k k where
  before := .blank k
  grounded := sound
  le := .refl k
  outcomes _ _ _ _ known := known
  verdicts _ _ _ _ _ known := known

theorem sound_resolve (coherent : scope.Coherent) (owned : scope.Owned catalog) (room : Option Nat)
    (sound : Sound scope catalog p.known) (idle : p.memo.computing = []) (c : Coordinate) :
    Sound scope catalog (runFrom (scope.resolve room c) p).2.known := by
  have settling : Settling scope catalog p := by
    refine ⟨sound, ?_⟩
    rw [idle]
    exact fun _ impossible => absurd impossible List.not_mem_nil
  rw [Scope.resolve, ← Scope.resolveBy_all]
  exact (Scope.recorded_resolveBy coherent owned scope.depth room c p settling).1.settling.sound

/-- A coordinate is resolved alike. -/
theorem Minding.resolve (coherent : scope.Coherent) (owned : scope.Owned catalog) (room : Option Nat)
    (minding : Minding scope catalog besides q p) (c : Coordinate) :
    Meets (Minding scope catalog besides) Eq (runFrom (scope.resolve room c) q)
      (runFrom (scope.resolve room c) p) := by
  have meets := (minding.sound.founded c).meets coherent owned (.blank _) minding.beyond room
  have sound := sound_resolve coherent owned room minding.sound minding.beyond.idle' c
  revert meets sound
  generalize runFrom (scope.resolve room c) q = left
  generalize runFrom (scope.resolve room c) p = right
  intro meets sound
  cases meets with
  | deep => exact .deep
  | fault f => exact .fault f
  | value related same => exact .value ⟨related.1, sound⟩ same

/-- What goes along while nothing but that is known beyond. -/
def Minds (scope : Scope) (catalog : Catalog) (besides : Knowledge) {α : Type} (x y : Evaluation α) :
    Prop :=
  ∀ q p, Minding scope catalog besides q p →
    Meets (Minding scope catalog besides) Eq (runFrom x q) (runFrom y p)

theorem respected_minds (scope : Scope) (catalog : Catalog) (besides : Knowledge) :
    Respected fun _ x y => Minds scope catalog besides x y where
  pure _ _ _ minding := .value minding rfl
  fail _ _ _ _ := .fault _
  report e _ _ minding := .value (minding.reported e e) rfl
  bind first rest q p minding := by
    refine (first q p minding).bind ?_
    rintro a _ q' p' _ minding' rfl
    exact rest a q' p' minding'

theorem Condition.allHold_append (resolve : Resolver) (cs ds : List Condition) :
    Condition.allHold resolve (cs ++ ds) = do
      if ← Condition.allHold resolve cs then Condition.allHold resolve ds else return false := by
  induction cs with
  | nil => rw [List.nil_append, allHold, pure_bind, if_pos rfl]
  | cons c rest ih =>
      rw [List.cons_append, allHold, allHold, bind_assoc]
      refine bind_congr ?_
      rintro ⟨holds, actual⟩
      cases holds with
      | true => exact ih
      | false => rfl

variable {subject text : String} {f : Progress} {room : Option Nat}

/-- Where the subject resolves in the first place, a row of tildes holds, and nothing is known after it
but what was known or is known when the subject has been resolved in the first place. -/
theorem Minding.tilde (coherent : scope.Coherent) (owned : scope.Owned catalog)
    (resolves : runFrom (scope.resolve room (Coordinate.parse subject)) .start = (.ok text, f))
    (minding : Minding scope catalog f.known q p) :
    ∃ p', runFrom (Condition.allHold (scope.resolve room) [.tilde subject]) p = (.ok true, p') ∧
      Minding scope catalog f.known q p' := by
  have trails : Trails .blank p.known .start p := .of_idle (.refl _) (.blank _) rfl minding.beyond.idle'
  have ends := (minding.sound.founded (.parse subject)).tracks_resolve coherent owned room _ _ trails
  have sound := sound_resolve coherent owned room minding.sound minding.beyond.idle' (.parse subject)
  have onward := scope.onward_resolve room (.parse subject) p
  rw [resolves] at ends
  rcases resolved : runFrom (scope.resolve room (.parse subject)) p with ⟨result, p'⟩
  rw [resolved] at ends sound onward
  cases ends with
  | gap impossible => exact impossible.elim
  | value _ trails' =>
      refine ⟨p'.reported (.condition (Condition.tilde subject).text true), ?_, ⟨?_, ?_, ?_, ?_⟩, sound⟩
      · rw [Condition.allHold, Condition.evaluate, bind_assoc]
        exact runFrom_bind_ok resolved _
      · exact minding.beyond.known.trans onward.known
      · exact (trails'.among.trans minding.beyond.among.symm).symm
      · exact minding.beyond.idle
      · exact onward.computing.trans minding.beyond.idle'

/-- A rule with a row of tildes is satisfied where the rule is. -/
theorem Minding.check (coherent : scope.Coherent) (owned : scope.Owned catalog)
    (resolves : runFrom (scope.resolve room (.parse subject)) .start = (.ok text, f))
    (minding : Minding scope catalog f.known q p) {r r' : Rule} (tolerant : r.Tolerant subject r') :
    Meets (Minding scope catalog f.known) Eq (runFrom (r.check (scope.resolve room)) q)
      (runFrom (r'.check (scope.resolve room)) p) := by
  have holds : Meets (Minding scope catalog f.known) Eq
      (runFrom (Condition.allHold (scope.resolve room) r.conditions) q)
      (runFrom (Condition.allHold (scope.resolve room) r'.conditions) p) := by
    have ends : runFrom (Condition.allHold (scope.resolve room) r.conditions) q =
        runFrom (Condition.allHold (scope.resolve room) r.conditions >>= pure) q := by
      rw [bind_pure]
    rw [ends, tolerant.conditions, Condition.allHold_append]
    have before := Condition.uniform_allHold r.conditions _ (respected_minds scope catalog f.known) _ _
      (fun c _ _ minding => minding.resolve coherent owned room c) q p minding
    refine before.bind ?_
    rintro holds _ q' p' _ minding' rfl
    cases holds with
    | false => exact .value minding' rfl
    | true =>
        obtain ⟨p'', ran, minding''⟩ := minding'.tilde coherent owned resolves
        rw [if_pos rfl, ran]
        exact .value minding'' rfl
  refine holds.bind ?_
  rintro holds _ q' p' _ minding' rfl
  exact .value (minding'.reported _ _) rfl

/-- The satisfied rules are the same but for the row. -/
theorem Minding.satisfied (coherent : scope.Coherent) (owned : scope.Owned catalog)
    (resolves : runFrom (scope.resolve room (.parse subject)) .start = (.ok text, f))
    (minding : Minding scope catalog f.known q p) {rules rules' : List Rule}
    (tolerant : List.Forall₂ (Rule.Tolerant subject) rules rules') :
    Meets (Minding scope catalog f.known) (List.Forall₂ (Rule.Tolerant subject))
      (runFrom (Rule.satisfied (scope.resolve room) rules) q)
      (runFrom (Rule.satisfied (scope.resolve room) rules') p) := by
  induction tolerant generalizing q p with
  | nil => exact .value minding .nil
  | cons head _ ih =>
      refine (minding.check coherent owned resolves head).bind ?_
      rintro holds _ q' p' _ minding' rfl
      refine (ih minding').bind fun others others' q'' p'' _ minding'' related => ?_
      cases holds with
      | true => exact .value minding'' (.cons head related)
      | false => exact .value minding'' related

theorem names_of_tolerant {rules rules' : List Rule}
    (tolerant : List.Forall₂ (Rule.Tolerant subject) rules rules') :
    rules'.map Rule.name = rules.map Rule.name := by
  induction tolerant with
  | nil => rfl
  | cons head _ ih => rw [List.map_cons, List.map_cons, head.name, ih]

/-- Assignments are carried out alike, as long as none of them outdates what is known besides and a later
one reads. -/
theorem Minding.carry (single : scope.Single) (owned : scope.Owned catalog) (room : Option Nat)
    (minding : Minding scope catalog besides q p) {assignments : List Assignment}
    (apart : assignments.Pairwise fun a b => ¬ scope.Outdates q.known besides a.target b) :
    Meets (fun _ _ => True) Eq (runFrom (scope.carry room assignments) q)
      (runFrom (scope.carry room assignments) p) :=
  Scope.meets_carry single.coherent minding.sound minding.beyond.among single owned
    (.refl (fun _ => False) scope) room
    ⟨minding.beyond.known, .of_le _ (.refl _), minding.beyond.idle, minding.beyond.idle'⟩
    (.refl _) (.refl _) (fun _ _ _ impossible => impossible.elim) apart

/-- A command is enacted alike with a row of tildes, as long as no assignment outdates what only the row
has computed and a later assignment reads. -/
theorem Scope.enact_tolerant (single : scope.Single) (owned : scope.Owned catalog)
    (resolves : runFrom (scope.resolve room (.parse subject)) .start = (.ok text, f)) {t t' : Table}
    (tolerant : t.Tolerant subject t') {command : String}
    (spared : ∀ r checked, runFrom (Rule.satisfied (scope.resolve room) t.rules)
        (Progress.start.reported (.command command)) = (.ok [r], checked) →
      r.assignments.Pairwise fun a b => ¬ scope.Outdates checked.known f.known a.target b) :
    Meets (fun _ _ => True) Eq (runFrom (scope.enact room command t) .start)
      (runFrom (scope.enact room command t') .start) := by
  have coherent := single.coherent
  have report : Meets (Minding scope catalog f.known) Eq
      (runFrom (Evaluation.report (.command command)) .start)
      (runFrom (Evaluation.report (.command command)) .start) :=
    .value (Minding.start.reported _ _) rfl
  rw [enact, enact]
  refine report.bind ?_
  rintro _ _ q p began minding rfl
  cases began
  rw [Table.satisfiedRule?, Table.satisfiedRule?, bind_assoc, bind_assoc]
  refine (minding.satisfied coherent owned resolves tolerant.rules).bind ?_
  intro found found' checked p satisfied minding related
  cases related with
  | nil => exact .fault _
  | @cons r r' _ _ head others =>
      cases others with
      | cons second others =>
          have names := names_of_tolerant (.cons head (.cons second others))
          change Meets _ _ (runFrom (Evaluation.fail (.ambiguousRules t.name _) >>= _) _)
            (runFrom (Evaluation.fail (.ambiguousRules t'.name _) >>= _) _)
          rw [names, tolerant.name]
          exact .fault _
      | nil =>
          have apart := spared r checked satisfied
          have carried := (minding.reported (.table t.name r.name) (.table t'.name r'.name)).carry single
            owned room apart
          change Meets _ _
            (runFrom (scope.carry room r.assignments >>= fun texts =>
              pure (Assignment.writes r.assignments texts)) (checked.reported (.table t.name r.name)))
            (runFrom (scope.carry room r'.assignments >>= fun texts =>
              pure (Assignment.writes r'.assignments texts)) (p.reported (.table t'.name r'.name)))
          rw [head.assignments]
          exact carried.bind fun _ _ _ _ _ _ texts => .value trivial (congrArg _ texts)

end

/-! ## Performing the command -/

theorem Store.Over.single {σ : Store} {ctx : ContextId} {state : StateId} {own : Registry}
    (above : σ.Over ctx state own) : (σ.scope (σ.context ctx).registry).Single := by
  rw [Scope.Single, Store.scope, Assoc.mapValues, List.map_map]
  exact above.registered.1

/-- How a context is opened does not depend on its backend. -/
theorem ContextId.exists_open_eq (state : StateId) (catalog : Option Catalog) (request : Source) :
    ∃ x : Engine Context, ∀ backend, ContextId.open state catalog request backend =
      x >>= fun c => Engine.addContext { c with backend := backend } := by
  refine ⟨do
    let trace ← Engine.addTrace
    let constants ← addAllRegistered [] [.constant]
    let requestId ← Engine.addSource request
    let own ← addAllRegistered (constants.insert request.name requestId) (tableSources catalog)
    let registry := own.insertAll ((← get).state state)
    return ⟨state, catalog, none, requestId, registry, .empty, trace⟩, fun backend => ?_⟩
  simp only [ContextId.open, openTraced, bind_assoc, pure_bind]

namespace Computation

/-- The same computation with other commands. -/
def commanded (c : Computation) (commands : Catalog) : Computation :=
  { c with
    decisions := { c.decisions with backend := some (.tables commands) }
    backend := some (.tables commands) }

variable {P : Pairing} {σ σ' : Store} {c : Computation} {command : String} {request : Value}

/-- With other commands a context opens alike and finds the same sources. -/
theorem exists_open_commanded {ctx : ContextId} {opened : Store}
    (fresh : runFrom (c.open request) σ = (.ok ctx, opened)) (commands : Catalog) :
    ∃ opened', runFrom ((c.commanded commands).open request) σ = (.ok ctx, opened') ∧
      opened'.scope (opened'.context ctx).registry = opened.scope (opened.context ctx).registry := by
  obtain ⟨source, σ₁, made, fresh⟩ := runFrom_bind_value fresh
  obtain ⟨x, opens⟩ := ContextId.exists_open_eq c.state (some c.decisions.catalog) source
  rw [opens] at fresh
  obtain ⟨context, σ₂, built, added⟩ := runFrom_bind_value fresh
  cases added
  have again : runFrom ((c.commanded commands).open request) σ = (.ok ⟨σ₂.contexts.size⟩,
      { σ₂ with contexts := σ₂.contexts.push { context with backend := some (.tables commands) } }) := by
    refine (runFrom_bind_ok made _).trans ?_
    change runFrom (ContextId.open c.state (some c.decisions.catalog) source (some (.tables commands)))
      σ₁ = _
    rw [opens]
    exact runFrom_bind_ok built _
  refine ⟨_, again, ?_⟩
  rw [Store.context_pushed, Store.context_pushed]
  rfl

/-- A command that fails leaves the current state as it was. -/
theorem holdings_of_failed (mirrors : P.Mirrors σ σ) (pair : P.states c.state.index c.state.index)
    {f : Fault} (failed : runFrom (c.perform command request) σ = (.error f, σ')) :
    σ'.holdings c.state = σ.holdings c.state :=
  Store.holdings_keep (mirrors.state_tidy pair) (mirrors.states.left_lt pair)
    (keeps_of_perform_failed failed)

/-- Where a command gives the same with other commands, it leaves the same in the current state. -/
theorem perform_alike (mirrors : P.Mirrors σ σ) (pair : P.states c.state.index c.state.index)
    {commands : Catalog} {given given' : Except Fault (List (Coordinate × String))}
    (first : σ.Carried c.state (runFrom (c.perform command request) σ) given)
    (second : σ.Carried c.state (runFrom ((c.commanded commands).perform command request) σ) given')
    (agree : given = .error .tooDeep ∨ given = given') :
    (runFrom (c.perform command request) σ).1 = .error .tooDeep ∨
      (runFrom (c.perform command request) σ).1 =
          (runFrom ((c.commanded commands).perform command request) σ).1 ∧
        (runFrom (c.perform command request) σ).2.holdings c.state =
          (runFrom ((c.commanded commands).perform command request) σ).2.holdings c.state := by
  rcases left : runFrom (c.perform command request) σ with ⟨result, τ⟩
  rcases right : runFrom ((c.commanded commands).perform command request) σ with ⟨result', τ'⟩
  rw [left] at first
  rw [right] at second
  rcases agree with rfl | rfl
  · cases first
    exact .inl rfl
  · cases first with
    | failed f =>
        cases second
        have kept := holdings_of_failed mirrors pair left
        have kept' := holdings_of_failed (c := c.commanded commands) mirrors pair right
        exact .inr ⟨rfl, kept.trans kept'.symm⟩
    | written held =>
        cases second with
        | written held' => exact .inr ⟨rfl, held.trans held'.symm⟩

end Computation

namespace Session

/-- The session in which a computation has other commands. -/
def commanded (s : Session) (which : Nat) (commands : Catalog) : Session :=
  { s with computations := s.computations.modify which fun c => c.commanded commands }

/-- Adding a last row of tildes to the table of a command, the subject of which resolves in a context
opened for the request, does not change whether the command succeeds, how it fails, or what it leaves
in the current state.  This is unless without the row it runs too deep, or one of its assignments
outdates what only the row has computed and a later one reads. -/
theorem dont_care_rows_are_neutral {room : Option Nat} {s : Session} (reached : s.Reached room)
    {which : Nat} {c : Computation} (built : s.computations[which]? = some c)
    {commands commands' : Catalog} (backend : c.backend = some (.tables commands)) {command : String}
    {t t' : Table} (found : commands.table command = .ok t)
    (found' : commands'.table command = .ok t') {subject : String} (row : t.Tolerant subject t')
    {request : Value} {ctx : ContextId} {opened : Store}
    (fresh : runFrom (c.open request) s.store = (.ok ctx, opened))
    (consistent : (opened.scope (opened.context ctx).registry).Consistent) {text : String} {after : Store}
    (resolves : runFrom (ctx.read (.parse subject)) opened = (.ok text, after))
    (spared : ∀ r checked, runFrom (Rule.satisfied (opened.resolver ctx) t.rules)
        (Progress.start.reported (.command command)) = (.ok [r], checked) →
      r.assignments.Pairwise fun a b => ¬ (opened.scope (opened.context ctx).registry).Outdates
        checked.known (after.progress ctx).known a.target b) :
    let plain := s.step (.computation which (.perform command request))
    let other := (s.commanded which commands').step (.computation which (.perform command request))
    plain.1 = .error .tooDeep ∨
      plain.1 = other.1 ∧ plain.2.store.holdings c.state = other.2.store.holdings c.state := by
  intro plain other
  obtain ⟨P, twins⟩ := reached.exists_twins
  have self := List.forall₂_same.mp twins.computations c (List.mem_of_getElem? built)
  have mirrors := twins.mirrors
  obtain ⟨own, freshOver, _⟩ := Computation.exists_freshOver (mirrors.state_tidy self.state) fresh
  obtain ⟨catalog, owned⟩ := consistent.exists_owned
  obtain ⟨f, resolved, rfl⟩ := ContextId.value_of_evaluate resolves
  rw [freshOver.progress] at resolved
  rw [freshOver.above.progress_withProgress] at spared
  have meets := Scope.enact_tolerant freshOver.above.single owned resolved row spared
  obtain ⟨opened', fresh', scope⟩ := Computation.exists_open_commanded fresh commands'
  have first := Computation.carried_command mirrors self.state backend fresh found
  have second := Computation.carried_command (c := c.commanded commands') mirrors self.state rfl fresh'
    found'
  rw [freshOver.keeps.room] at meets
  rw [scope] at second
  have built' : (s.commanded which commands').computations[which]? = some (c.commanded commands') := by
    rw [commanded, List.getElem?_modify_eq, built]
    rfl
  rw [show plain = _ from step_performCommand built command request,
    show other = _ from step_performCommand built' command request]
  rcases Computation.perform_alike mirrors self.state first second meets.tooDeep_or_eq with
    deep | ⟨same, held⟩
  · rw [deep]
    exact .inl rfl
  · exact .inr ⟨congrArg (Except.map fun _ => Answer.done) same, held⟩

/-- A table whose outcome depends on a stored value. -/
def gauge : Table :=
  .make "T" [⟨"1", [⟨.row .condition, "x::n", "1"⟩, ⟨.row .outcome, "outcome", "one"⟩]⟩] none

/-- Another table of that name. -/
def namesake : Table :=
  .make "T" [⟨"1", [⟨.row .outcome, "outcome", "other"⟩]⟩] none

/-- A stored value of zero. -/
def zero : Assoc Scalar Value := [(.text "n", .scalar (.int 0))]

/-- A state of this value. -/
def atZero : StateSource := .contents (.mapping [(.text "x", .mapping zero)])

/-- A state of this value that also holds both tables. -/
def namesakes : StateSource :=
  .sources [(.text "x", .stored (.text "x") zero []), (.text "a", .ofTable gauge),
    (.text "b", .ofTable namesake)]

/-- A command without conditions. -/
def unguarded (assignments : List (String × String)) : Table :=
  .make "go" [⟨"1", assignments.map fun a => ⟨.row .assignment, a.1, a.2⟩⟩] none

/-- A session with this command and some tables. -/
def ready (room : Option Nat) (tables : List Table) (choice : StateSource)
    (assignments : List (String × String)) : Session :=
  (start room).after [.build (.ofList tables) (.ofList [unguarded assignments]) choice]

/-- Assignments of which the second reads what depends on the first. -/
def raising : List (String × String) := [("x::n", "1"), ("x::seen", "T::outcome")]

/-- With the row, the outcome is read as it was before the first assignment.  The outcome of another table
of the same name is read for that of a table.  And a long chain of tables that runs too deep does not
after the row has computed half of it. -/
theorem tildes_show :
    (ready none [gauge] atZero raising).answers
        [.computation 0 (.open .null), .context 0 (.value (.parse "T::outcome"))] =
      [.ok .done, .ok (.text "else")] ∧
    (ready none [gauge] atZero raising).answers
        [.computation 0 (.perform "go" .null), .computation 0 .storedState] =
      [.ok .done, .ok (.entries [(.text "x",
        .mapping [(.text "n", .text "1"), (.text "seen", .text "one")])])] ∧
    ((ready none [gauge] atZero raising).commanded 0
        (.ofList [(unguarded raising).withTildes "T::outcome"])).answers
        [.computation 0 (.perform "go" .null), .computation 0 .storedState] =
      [.ok .done, .ok (.entries [(.text "x",
        .mapping [(.text "n", .text "1"), (.text "seen", .text "else")])])] ∧
    (ready none [] namesakes [("x::seen", "b::outcome")]).answers
        [.computation 0 (.perform "go" .null), .computation 0 (.stateFor "x" ["seen"])] =
      [.ok .done, .ok (.outcome [("seen", "other")])] ∧
    ((ready none [] namesakes [("x::seen", "b::outcome")]).commanded 0
        (.ofList [(unguarded [("x::seen", "b::outcome")]).withTildes "a::outcome"])).answers
        [.computation 0 (.perform "go" .null), .computation 0 (.stateFor "x" ["seen"])] =
      [.ok .done, .ok (.outcome [("seen", "else")])] ∧
    (let s := ready (some Nesting.evaluationRoom) (ContextId.chained 85) atZero [("x::seen", "85::outcome")]
    let other := .ofList [(unguarded [("x::seen", "85::outcome")]).withTildes "42::outcome"]
    (ContextId.fault? (s.step (.computation 0 (.perform "go" .null))).1,
      ContextId.fault? ((s.commanded 0 other).step (.computation 0 (.perform "go" .null))).1) =
        (some .tooDeep, none)) := by
  refine ⟨by cbv, by cbv, by cbv, by cbv, by cbv, by decide +kernel⟩

/-- Assignments of which none reads what was written before. -/
def noting : List (String × String) := [("x::seen", "T::outcome"), ("x::n", "1")]

/-- The computation that carries them out. -/
def noted : Computation :=
  ⟨⟨.ofList [gauge], ⟨0⟩, some (.tables (.ofList [unguarded noting]))⟩,
    some (.tables (.ofList [unguarded noting])), ⟨0⟩⟩

/-- The store in which a context was opened for it. -/
def beforeNoting : Store :=
  (runFrom (noted.open .null) (ready none [gauge] atZero noting).store).2

theorem noting_is_neutral :
    let s := ready none [gauge] atZero noting
    let plain := s.step (.computation 0 (.perform "go" .null))
    let other := (s.commanded 0 (.ofList [(unguarded noting).withTildes "T::outcome"])).step
      (.computation 0 (.perform "go" .null))
    plain.1 = .ok .done ∧ plain.1 = other.1 ∧
      plain.2.store.holdings noted.state = other.2.store.holdings noted.state := by
  have reached : (ready none [gauge] atZero noting).Reached none := ⟨_, rfl⟩
  have built : (ready none [gauge] atZero noting).computations[0]? = some noted := by cbv
  have performed : ((ready none [gauge] atZero noting).step (.computation 0 (.perform "go" .null))).1 =
      .ok .done := by cbv
  have fresh : runFrom (noted.open .null) (ready none [gauge] atZero noting).store =
      (.ok ⟨0⟩, beforeNoting) := by
    refine Prod.ext ?_ rfl
    cbv
  have found : (Catalog.ofList [unguarded noting]).table "go" = .ok (unguarded noting) := by cbv
  have found' : (Catalog.ofList [(unguarded noting).withTildes "T::outcome"]).table "go" =
      .ok ((unguarded noting).withTildes "T::outcome") := by cbv
  have tables : (beforeNoting.scope (beforeNoting.context ⟨0⟩).registry).tables = [gauge] := by cbv
  have consistent : (beforeNoting.scope (beforeNoting.context ⟨0⟩).registry).Consistent := by
    rw [Scope.Consistent, tables]
    intro t member u member' _
    rw [List.mem_singleton.mp member, List.mem_singleton.mp member']
  have resolves : runFrom ((⟨0⟩ : ContextId).read (.parse "T::outcome")) beforeNoting =
      (.ok "else", (runFrom ((⟨0⟩ : ContextId).read (.parse "T::outcome")) beforeNoting).2) := by
    refine Prod.ext ?_ rfl
    cbv
  have constant : ∀ id source, Assoc.find? (beforeNoting.scope (beforeNoting.context ⟨0⟩).registry)
      (.text "constant") = some (id, source) → source.direct? "1" ≠ none := by
    intro id source found
    have same : Assoc.find? (beforeNoting.scope (beforeNoting.context ⟨0⟩).registry) (.text "constant") =
      some (⟨1⟩, .constant) := by cbv
    cases found.symm.trans same
    exact Option.some_ne_none _
  have spared : ∀ r checked, runFrom (Rule.satisfied (beforeNoting.resolver ⟨0⟩) (unguarded noting).rules)
      (Progress.start.reported (.command "go")) = (.ok [r], checked) → r.assignments.Pairwise fun a b =>
        ¬ (beforeNoting.scope (beforeNoting.context ⟨0⟩).registry).Outdates checked.known
          (((runFrom ((⟨0⟩ : ContextId).read (.parse "T::outcome")) beforeNoting).2).progress ⟨0⟩).known
          a.target b := by
    intro r checked single
    have declared := (Rule.sublist_of_satisfied single).subset List.mem_cons_self
    have assignments : r.assignments = [.parse "x::seen" "T::outcome", .parse "x::n" "1"] := by
      rw [List.mem_singleton.mp declared]
      cbv
    rw [assignments, List.pairwise_pair]
    exact Scope.not_outdates constant
  rcases dont_care_rows_are_neutral reached built rfl found found'
    ((unguarded noting).tolerant_withTildes "T::outcome") fresh consistent resolves spared with deep | neutral
  · cases performed.symm.trans deep
  · exact ⟨performed, neutral⟩
end Session

end DecisionTables
