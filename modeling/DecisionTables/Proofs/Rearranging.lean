import Mathlib
import DecisionTables.Proofs.Guarding
import DecisionTables.Proofs.Reordering
import DecisionTables.Sheet

/-!
# Tables with their condition rows in another order

The order of condition rows is only a guard: it decides what is evaluated before what, and so
whether something fails or runs too deep first.  A rule that is satisfied in one order is
satisfied in every order, unless this runs too deep.  And where tables have outcomes with their
rows in two orders the outcomes are the same, whatever else the tables read on the way.
-/

namespace DecisionTables

/-! ## Rules and tables -/

/-- The same rule but for the order of its conditions. -/
structure Rule.Rearranged (r r' : Rule) : Prop where
  name : r.name = r'.name
  conditions : r.conditions.Perm r'.conditions
  outcome : r.outcome = r'.outcome

/-- The same table but for the order of the conditions in its rules. -/
structure Table.Rearranged (t u : Table) : Prop where
  name : t.name = u.name
  rules : List.Forall₂ Rule.Rearranged t.rules u.rules
  otherwise : t.otherwise = u.otherwise

theorem Rule.Rearranged.refl (r : Rule) : r.Rearranged r := ⟨rfl, .refl _, rfl⟩

theorem Rule.Rearranged.symm {r r' : Rule} (rearranged : r.Rearranged r') : r'.Rearranged r :=
  ⟨rearranged.name.symm, rearranged.conditions.symm, rearranged.outcome.symm⟩

namespace Table.Rearranged

variable {text text' : Coordinate → Except Fault String} {t u : Table}

theorem refl (t : Table) : t.Rearranged t :=
  ⟨rfl, List.forall₂_same.mpr fun r _ => .refl r, rfl⟩

theorem symm (rearranged : t.Rearranged u) : u.Rearranged t :=
  ⟨rearranged.name.symm, List.Forall₂.flip (rearranged.rules.imp fun _ _ pair => pair.symm),
    rearranged.otherwise.symm⟩

/-- The same rules are satisfied, wherever all rules have verdicts on both sides. -/
theorem satisfied (agreeing : Agreeing text text') {rules rules' : List Rule}
    (rearranged : List.Forall₂ Rule.Rearranged rules rules')
    (checks : ∀ r ∈ rules, ∃ holds, r.holdsBy text = .ok holds)
    (checks' : ∀ r ∈ rules', ∃ holds, r.holdsBy text' = .ok holds) :
    List.Forall₂ Rule.Rearranged (rules.filter fun r => r.isSatisfiedBy text)
      (rules'.filter fun r => r.isSatisfiedBy text') := by
  induction rearranged with
  | nil => exact .nil
  | @cons r r' rules rules' pair _ ih =>
      obtain ⟨⟨holds, found⟩, others⟩ := List.forall_mem_cons.mp checks
      obtain ⟨⟨holds', found'⟩, others'⟩ := List.forall_mem_cons.mp checks'
      obtain rfl := Rule.holdsBy_agreeing pair.conditions agreeing found found'
      rw [List.filter_cons, List.filter_cons, Rule.isSatisfiedBy_of_holds found,
        Rule.isSatisfiedBy_of_holds found']
      cases holds with
      | true => exact .cons pair (ih others others')
      | false => exact ih others others'

/-- From rules that are the same but for the order of their conditions the same outcome is concluded. -/
theorem conclude (rearranged : t.Rearranged u) {rules rules' : List Rule}
    (alike : List.Forall₂ Rule.Rearranged rules rules') {o o' : Outcome}
    (found : t.conclude rules = .ok o) (found' : u.conclude rules' = .ok o') : o = o' := by
  cases alike with
  | nil =>
      cases found
      cases found'
      exact congrArg Rule.outcome rearranged.otherwise
  | cons pair others =>
      cases others with
      | nil =>
          cases found
          cases found'
          exact pair.outcome
      | cons => cases found

/-- A table has one outcome in two orders of its conditions, wherever it has one in both. -/
theorem outcomeBy_agreeing (rearranged : t.Rearranged u) (agreeing : Agreeing text text') {o o' : Outcome}
    (found : t.outcomeBy text = .ok o) (found' : u.outcomeBy text' = .ok o') : o = o' := by
  rw [outcomeBy_eq] at found found'
  cases selected : t.satisfiedBy text with
  | error f =>
      rw [selected] at found
      cases found
  | ok rules =>
      cases selected' : u.satisfiedBy text' with
      | error f =>
          rw [selected'] at found'
          cases found'
      | ok rules' =>
          rw [selected] at found
          rw [selected'] at found'
          obtain ⟨checks, rfl⟩ := Rule.satisfied_eq_ok_iff.mp selected
          obtain ⟨checks', rfl⟩ := Rule.satisfied_eq_ok_iff.mp selected'
          have alike := satisfied agreeing rearranged.rules checks checks'
          exact rearranged.conclude alike found found'

end Table.Rearranged

/-! ## Sheets -/

/-- The same sheet but for the order of its condition rows. -/
structure Sheet.Rearranged (s s' : Sheet) : Prop where
  name : s.name = s'.name
  conditions : (s.rows .condition).Perm (s'.rows .condition)
  others : ∀ tag, tag ≠ .condition → s.rows tag = s'.rows tag

namespace Sheet.Rearranged

variable {s s' : Sheet}

theorem width?_condition (rearranged : s.Rearranged s') (even : s.isEven .condition = true) :
    s.width? .condition = s'.width? .condition := by
  have all : ∀ r ∈ s.rows .condition, s.width? .condition = some r.width := fun r member =>
    (eq_of_beq (List.all_eq_true.mp even r member)).symm
  cases rows' : s'.rows .condition with
  | nil =>
      have rows := rearranged.conditions
      rw [rows'] at rows
      rw [width?, width?, rows', rows.eq_nil]
  | cons first rest =>
      have member := rearranged.conditions.mem_iff.mpr (rows' ▸ List.mem_cons_self (a := first) (l := rest))
      rw [all first member, width?, rows']
      rfl

theorem ruleCount (rearranged : s.Rearranged s') (even : s.isEven .condition = true) :
    s.ruleCount = s'.ruleCount := by
  have others : ∀ tag, tag ≠ .condition → s.width? tag = s'.width? tag := fun tag other => by
    rw [width?, width?, rearranged.others tag other]
  rw [Sheet.ruleCount, Sheet.ruleCount, rearranged.width?_condition even,
    others .assignment (by decide), others .outcome (by decide)]

/-- The rule in a column has the same conditions, in the order of the rows. -/
theorem rule (rearranged : s.Rearranged s') (column : Nat) :
    (s.rule column).Rearranged (s'.rule column) := by
  have headers := rearranged.others .header (by decide)
  have outcomes := rearranged.others .outcome (by decide)
  have assignments := rearranged.others .assignment (by decide)
  have cells := rearranged.conditions.map (cell column)
  refine ⟨?_, ?_, ?_⟩
  · change s.label column = s'.label column
    rw [label, label, headers, label.plain, label.plain, rearranged.name]
  · change (List.filterMap _ (s.column column)).Perm (List.filterMap _ (s'.column column))
    rw [Sheet.column, Sheet.column, outcomes, assignments]
    exact (((cells.append_right _).append_right _).filterMap _)
  · have none : ∀ (s : Sheet), ((s.rows .condition).map (cell column)).filterMap Fragment.outcome? = [] := by
      intro s
      refine List.filterMap_eq_nil_iff.mpr fun f member => ?_
      obtain ⟨r, inside, rfl⟩ := List.mem_map.mp member
      refine if_neg fun same => ?_
      cases (mem_rows.mp inside).2.symm.trans (FragmentKind.row.inj same)
    change Assoc.ofList (List.filterMap _ (s.column column)) =
      Assoc.ofList (List.filterMap _ (s'.column column))
    rw [Sheet.column, Sheet.column, List.append_assoc, List.append_assoc, List.filterMap_append, none,
      outcomes, assignments, @List.filterMap_append _ _ ((s'.rows .condition).map _), none]

/-- A sheet with its condition rows in another order makes a table with its conditions in that
order. -/
theorem table (rearranged : s.Rearranged s') (even : s.isEven .condition = true) :
    s.table.Rearranged s'.table := by
  have count := rearranged.ruleCount even
  have headers := rearranged.others .header (by decide)
  have outcomes := rearranged.others .outcome (by decide)
  have names : s.tableName = s'.tableName := by
    rw [tableName, tableName, headers, rearranged.name]
  refine ⟨names, ?_, ?_⟩
  · change List.Forall₂ _ ((List.range s.ruleCount).map s.rule) ((List.range s'.ruleCount).map s'.rule)
    rw [count, List.forall₂_map_left_iff, List.forall₂_map_right_iff]
    exact List.forall₂_same.mpr fun column _ => rearranged.rule column
  · change Rule.otherwise s.tableName s.otherwiseOutcomes = Rule.otherwise s'.tableName s'.otherwiseOutcomes
    rw [names, otherwiseOutcomes, otherwiseOutcomes, outcomes, count]

end Sheet.Rearranged

/-! ## Scopes -/

namespace Scope

variable {scope scope' : Scope}

/-- The same scope but for the order of the conditions in its tables. -/
abbrev Rearranged : Scope → Scope → Prop :=
  Altered Table.Rearranged

/-- A coordinate has one text in two orders of conditions, wherever it has one in both. -/
theorem Rearranged.answer (rearranged : scope.Rearranged scope') (d : Nat) (busy : List String) :
    Agreeing (scope.answer d busy) (scope'.answer d busy) := by
  induction d generalizing busy with
  | zero => exact fun _ _ _ given _ => by cases given
  | succ d ih =>
      intro c s s' given given'
      cases found : Assoc.find? scope (.text c.source) with
      | none =>
          rw [answer_missing found] at given
          cases given
      | some entry =>
          obtain ⟨id, source⟩ := entry
          obtain ⟨id', source', found', related⟩ := rearranged.find found
          cases related.alteredAt .refl c.fragment with
          | direct result left right =>
              rw [answer_direct found left] at given
              rw [answer_direct found' right, given] at given'
              exact Except.ok.inj given'
          | table t u left right tables =>
              obtain ⟨_, o, decided, picked⟩ := (answer_table_eq_ok_iff found left).mp given
              obtain ⟨_, o', decided', picked'⟩ := (answer_table_eq_ok_iff found' right).mp given'
              rw [← tables.name] at decided'
              obtain rfl := tables.outcomeBy_agreeing (ih (t.name :: busy)) decided decided'
              exact Except.ok.inj ((Source.pick_eq_ok picked).symm.trans picked')
          | condition named condition left right registered =>
              obtain ⟨result, judged, rfl⟩ := (answer_condition_eq_ok_iff found left registered).mp given
              obtain ⟨result', judged', rfl⟩ := (answer_condition_eq_ok_iff found' right registered).mp given'
              rw [Condition.resultBy_agreeing (ih busy) judged judged']

end Scope

/-! ## Contexts -/

namespace ContextId

/-- The order of conditions is only a guard.  Where no chain of named conditions is endless, a rule that is
satisfied in a fresh context is so with its conditions in any other order, unless this runs too deep; one
that is not satisfied is not or fails.  With ample room none runs too deep.  And where a table has an
outcome with the condition rows of all tables in one order and in another, it is the same. -/
theorem condition_order_is_only_a_guard (σ : Store) {state : StateId} {tables tables' : List Table}
    (rearranged : List.Forall₂ Table.Rearranged tables tables') {request : Source}
    (requested : ∀ t, request.content ≠ .table t)
    (stored : σ.All (fun s => ∀ t, s.content ≠ .table t) (σ.state state))
    (backend : Option Backend) :
    ∃ ctx opened ctx' opened',
      runFrom (ContextId.open state (some (.ofList tables)) request backend) σ = (.ok ctx, opened) ∧
      runFrom (ContextId.open state (some (.ofList tables')) request backend) σ =
        (.ok ctx', opened') ∧
      let scope := opened.scope (opened.context ctx).registry
      (∀ c, ¬ scope.Endless c) →
        (∀ r r' : Rule, r.conditions.Perm r'.conditions →
          let result := (runFrom (ctx.evaluate fun resolve => r.check resolve) opened).1
          let result' := (runFrom (ctx.evaluate fun resolve => r'.check resolve) opened).1
          (result = .ok true → result' = .error .tooDeep ∨ result' = .ok true) ∧
          (result = .ok false → result' = .ok false ∨ ∃ f, result' = .error f) ∧
          (Scope.Ample scope.depth σ.room → result ≠ .error .tooDeep ∧ result' ≠ .error .tooDeep)) ∧
        ∀ (table : String) (o o' : Outcome), (runFrom (ctx.outcome table) opened).1 = .ok o →
          (runFrom (ctx'.outcome table) opened').1 = .ok o' → o = o' := by
  obtain ⟨ctx, opened, ran, room, open'⟩ := exists_open_owned tables requested stored backend
  obtain ⟨ctx', opened', ran', room', open''⟩ := exists_open_owned tables' requested stored backend
  refine ⟨ctx, opened, ctx', opened', ran, ran', ?_⟩
  intro scope ends
  have alike : scope.Rearranged _ :=
    altered_open Table.Rearranged.name state rearranged request backend ran ran'
  have coherent : scope.Coherent := opened.coherent_scope _
  have coherent' := opened'.coherent_scope (opened'.context ctx').registry
  have ends' := fun c endless => ends c ((alike.symm Table.Rearranged.symm).endless endless)
  have start := refreshes_start scope (.ofList tables)
  constructor
  · intro r r' permuted result result'
    have checks : ∀ r : Rule, (runFrom (ctx.evaluate fun resolve => r.check resolve) opened).1 =
        (runFrom (r.check (scope.resolve σ.room)) .start).1 := by
      intro r
      rw [ctx.runFrom_evaluate, Store.resolver, open'.progress, room]
    have means : ∀ r : Rule, (runFrom (ctx.evaluate fun resolve => r.check resolve) opened).1 =
        .error .tooDeep ∨ (runFrom (ctx.evaluate fun resolve => r.check resolve) opened).1 =
          r.holdsBy (scope.answer scope.depth []) := by
      intro r
      rw [checks]
      exact Scope.step_eq_answer coherent open'.all.owned ends r.uniform_check σ.room start
    have given : ∀ (r : Rule) (holds : Bool),
        (runFrom (ctx.evaluate fun resolve => r.check resolve) opened).1 = .ok holds →
          r.holdsBy (scope.answer scope.depth []) = .ok holds := by
      intro r holds found
      rcases means r with deep | same
      · cases found.symm.trans deep
      · exact same.symm.trans found
    have shallow : Scope.Ample scope.depth σ.room → ∀ r : Rule,
        (runFrom (ctx.evaluate fun resolve => r.check resolve) opened).1 ≠ .error .tooDeep := by
      intro ample r
      rw [checks, Scope.resolve, ← scope.resolveBy_all]
      exact r.uniform_check.not_cutOff (Scope.not_cutOff_of_ends ample ends) .start
    refine ⟨fun satisfied => ?_, fun unsatisfied => ?_, fun ample => ⟨shallow ample r, shallow ample r'⟩⟩
    · refine (means r').imp_right fun same => same.trans ?_
      exact Rule.holdsBy_true_of_perm permuted (given r true satisfied)
    · cases found : result' with
      | error f => exact .inr ⟨f, rfl⟩
      | ok holds =>
          have same := Rule.holdsBy_agreeing permuted (.refl _) (given r false unsatisfied)
            (given r' holds found)
          exact .inl (congrArg Except.ok same.symm)
  · intro table o o' found found'
    rcases Catalog.altered_table Table.Rearranged.name rearranged table with
      ⟨t, u, known, known', tables⟩ | ⟨missing, missing'⟩
    · have first := (open'.reading room).outcome_table known
      have second := (open''.reading room').outcome_table known'
      rw [open'.progress, found] at first
      rw [open''.progress, found'] at second
      have means := Scope.decideOnce_eq_answer coherent open'.all.owned ends
        ((Catalog.named_ofList _).own known) σ.room start
      have means' := Scope.decideOnce_eq_answer coherent' open''.all.owned ends'
        ((Catalog.named_ofList _).own known') σ.room (refreshes_start _ _)
      rw [← first] at means
      rw [← second, ← tables.name, ← alike.depth_eq] at means'
      exact tables.outcomeBy_agreeing (alike.answer scope.depth [t.name])
        (means.resolve_left (by simp)).symm (means'.resolve_left (by simp)).symm
    · have first := (open'.reading room).outcome_missing missing
      cases found.symm.trans first

/-- A stored state of one item. -/
def stocked : Store :=
  { Store.empty with
    sources := #[.stored (.text "item")
      [(.text "kind", .text "number"), (.text "value", .scalar (.int 5))] []]
    states := #[[(.text "item", ⟨0⟩)]] }

/-- A sheet that compares the value of an item only where its kind is a number, with its condition rows in
some order. -/
def appraisal (order : List Record → List Record) : Sheet :=
  ⟨"appraisal", order [⟨.condition, "item::kind", ["number", "number", "word"]⟩,
      ⟨.condition, "item::value", [">3", "!>3", "~"]⟩] ++
    [⟨.outcome, "outcome", ["high", "low", "none"]⟩]⟩

/-- The store with a context over its table. -/
def overAppraisal (order : List Record → List Record) : Store :=
  (runFrom (ContextId.open ⟨0⟩ (some (.ofList [(appraisal order).table])) (.requestOf []) none) stocked).2

/-- A rule of two conditions in some order. -/
def guarded (order : List Fragment → List Fragment) : Rule :=
  ⟨"guarded", order [⟨.row .condition, "item::kind", "number"⟩, ⟨.row .condition, "item::value", ">3"⟩]⟩

theorem appraisal_backwards :
    (runFrom (ContextId.evaluate ⟨0⟩ fun resolve => (guarded id).check resolve) (overAppraisal id)).1 =
        .ok true ∧
      (runFrom (ContextId.evaluate ⟨0⟩ fun resolve => (guarded List.reverse).check resolve)
        (overAppraisal id)).1 = .ok true ∧
      ∃ o, (runFrom (ContextId.outcome ⟨0⟩ "appraisal") (overAppraisal id)).1 = .ok o ∧
        (runFrom (ContextId.outcome ⟨0⟩ "appraisal") (overAppraisal List.reverse)).1 = .ok o := by
  have sheets : (appraisal id).Rearranged (appraisal List.reverse) := by
    refine ⟨rfl, .swap _ _ _, fun tag other => ?_⟩
    cases tag with
    | condition => exact (other rfl).elim
    | _ => rfl
  have rearranged : List.Forall₂ Table.Rearranged [(appraisal id).table] [(appraisal List.reverse).table] :=
    .cons (sheets.table rfl) .nil
  have requested : ∀ t, (Source.requestOf []).content ≠ .table t :=
    fun _ impossible => by cases impossible
  have stored : stocked.All (fun s => ∀ t, s.content ≠ .table t) (stocked.state ⟨0⟩) := by
    intro entry member
    obtain rfl := List.mem_singleton.mp member
    exact fun _ impossible => by cases impossible
  have opens : ∀ order, (runFrom (ContextId.open ⟨0⟩ (some (.ofList [(appraisal order).table]))
      (.requestOf []) none) stocked).1 = .ok ⟨0⟩ := fun _ => rfl
  obtain ⟨ctx, opened, ctx', opened', ran, ran', guards⟩ :=
    condition_order_is_only_a_guard stocked rearranged requested stored none
  obtain rfl : ContextId.mk 0 = ctx := Except.ok.inj ((opens id).symm.trans (congrArg Prod.fst ran))
  obtain rfl : overAppraisal id = opened := congrArg Prod.snd ran
  obtain rfl : ContextId.mk 0 = ctx' :=
    Except.ok.inj ((opens List.reverse).symm.trans (congrArg Prod.fst ran'))
  obtain rfl : overAppraisal List.reverse = opened' := congrArg Prod.snd ran'
  have labels : ((overAppraisal id).scope ((overAppraisal id).context ⟨0⟩).registry).labels = [] := rfl
  have ends : ∀ c, ¬ ((overAppraisal id).scope ((overAppraisal id).context ⟨0⟩).registry).Endless c := by
    intro c endless
    obtain ⟨next, follows, _⟩ := endless.follow
    have known := Scope.mem_labels_of_follow (Option.ne_none_iff_exists'.mpr ⟨_, follows⟩)
    rw [labels] at known
    exact absurd known List.not_mem_nil
  obtain ⟨rules, outcomes⟩ := guards ends
  have satisfied : (runFrom (ContextId.evaluate ⟨0⟩ fun resolve => (guarded id).check resolve)
      (overAppraisal id)).1 = .ok true := by decide +kernel
  obtain ⟨gives, _, ample⟩ := rules (guarded id) (guarded List.reverse) (.swap _ _ _)
  have decided : fault? (runFrom (ContextId.outcome ⟨0⟩ "appraisal") (overAppraisal id)).1 = none ∧
      fault? (runFrom (ContextId.outcome ⟨0⟩ "appraisal") (overAppraisal List.reverse)).1 = none := by
    decide +kernel
  obtain ⟨o, found⟩ := exists_of_fault? decided.1
  obtain ⟨o', found'⟩ := exists_of_fault? decided.2
  obtain rfl := outcomes "appraisal" o o' found found'
  exact ⟨satisfied, (gives satisfied).resolve_left (ample (Scope.ample_none _)).2, o, found, found'⟩

/-- A rule that reads from the middle of a long chain of tables and from its end. -/
def midway (order : List Fragment → List Fragment) : Rule :=
  ⟨"midway", order [⟨.row .condition, "42::outcome", "~"⟩, ⟨.row .condition, "85::outcome", "~"⟩]⟩

/-- With the condition on the middle of the chain first the rule is satisfied; with the other one first it
runs too deep. -/
theorem guard_makes_room :
    (midway id).conditions.Perm (midway List.reverse).conditions ∧
      (runFrom (ContextId.evaluate ⟨0⟩ fun resolve => (midway id).check resolve) overChained).1 =
        .ok true ∧
      (runFrom (ContextId.evaluate ⟨0⟩ fun resolve => (midway List.reverse).check resolve)
        overChained).1 = .error .tooDeep := by
  refine ⟨.swap _ _ _, ?_⟩
  decide +kernel

end ContextId

end DecisionTables
