import Mathlib
import DecisionTables.Proofs.Permuting

/-!
# Contexts over tables in another order of rules

A context that is opened over tables whose rules were declared in another order registers
the same sources but for these tables.  Outcomes, and whether there is one, are the same in
both contexts, unless one of them runs too deep: what was computed for an earlier rule makes
room for a later one.
-/

namespace DecisionTables

namespace ContextId

variable {σ : Store}

/-- A context over its own tables and over sources that are none. -/
theorem exists_open_owned {state : StateId} (tables : List Table) {request : Source}
    (requested : ∀ t, request.content ≠ .table t)
    (stored : σ.All (fun s => ∀ t, s.content ≠ .table t) (σ.state state)) (backend : Option Backend) :
    ∃ ctx opened, runFrom (ContextId.open state (some (.ofList tables)) request backend) σ =
        (.ok ctx, opened) ∧
      opened.room = σ.room ∧ opened.Opened (Catalog.ofList tables).Owns ctx (.ofList tables) := by
  have constant : (Catalog.ofList tables).Owns .constant := fun _ impossible => by cases impossible
  have sources : ∀ t ∈ (Catalog.ofList tables).tables, (Catalog.ofList tables).Owns (.ofTable t) := by
    intro t member u same
    cases same
    exact Catalog.table_of_mem member
  exact exists_open constant sources (fun t same => (requested t same).elim)
    (fun entry member t same => (stored entry member t same).elim) backend

/-- Rules have no priority.  Where no chain of named conditions is endless, what a fresh context
gives as the outcome of a table it gives with the rules of its tables declared in any other order;
where it gives none it gives none then; and where several rules of the table itself are satisfied it
names the same ones.  Nothing of this is said where one of the two runs too deep, and with ample room
none does. -/
theorem rules_have_no_priority (σ : Store) {state : StateId} {tables tables' : List Table}
    (permuted : List.Forall₂ Table.Reordered tables tables') {request : Source}
    (requested : ∀ t, request.content ≠ .table t)
    (stored : σ.All (fun s => ∀ t, s.content ≠ .table t) (σ.state state))
    (backend : Option Backend) :
    ∃ ctx opened ctx' opened',
      runFrom (ContextId.open state (some (.ofList tables)) request backend) σ = (.ok ctx, opened) ∧
      runFrom (ContextId.open state (some (.ofList tables')) request backend) σ =
        (.ok ctx', opened') ∧
      ∀ table : String,
        let scope := opened.scope (opened.context ctx).registry
        let result := (runFrom (ctx.outcome table) opened).1
        let result' := (runFrom (ctx'.outcome table) opened').1
        (∀ c, ¬ scope.Endless c) →
          (∀ o, result = .ok o → result' = .error .tooDeep ∨ result' = .ok o) ∧
          (∀ f, result = .error f → f = .tooDeep ∨ ∃ f', result' = .error f') ∧
          (∀ names, result = .error (.engine (.ambiguousRules table names)) →
            result' = .error .tooDeep ∨ ∃ names',
              result' = .error (.engine (.ambiguousRules table names')) ∧ names.Perm names') ∧
          (Scope.Ample scope.depth σ.room → result ≠ .error .tooDeep ∧ result' ≠ .error .tooDeep) := by
  obtain ⟨ctx, opened, ran, room, open'⟩ := exists_open_owned tables requested stored backend
  obtain ⟨ctx', opened', ran', room', open''⟩ := exists_open_owned tables' requested stored backend
  refine ⟨ctx, opened, ctx', opened', ran, ran', fun table => ?_⟩
  intro scope result result' ends
  have reordered : scope.Reordered _ :=
    altered_open Table.Reordered.name state permuted request backend ran ran'
  have reordered' := reordered.symm Table.Reordered.symm
  have reading := open'.reading room
  have reading' := open''.reading room'
  have coherent : scope.Coherent := opened.coherent_scope _
  have coherent' := opened'.coherent_scope (opened'.context ctx').registry
  rcases Catalog.altered_table Table.Reordered.name permuted table with
    ⟨t, u, found, found', tables⟩ | ⟨missing, missing'⟩
  · have named := Catalog.named_ofList _ table t found
    have first : result = (runFrom (t.decideOnce (scope.resolve σ.room)) .start).1 := by
      rw [← open'.progress]
      exact reading.outcome_table found
    have second := reading'.outcome_table found'
    rw [open''.progress] at second
    have own := (Catalog.named_ofList _).own found
    have own' := (Catalog.named_ofList _).own found'
    have ends' := fun c endless => ends c (reordered'.endless endless)
    obtain ⟨gives, ambiguous⟩ := reordered.decideOnce tables coherent coherent' open'.all.owned
      open''.all.owned own own' ends σ.room
    obtain ⟨gives', _⟩ := Scope.Reordered.decideOnce reordered' tables.symm coherent' coherent
      open''.all.owned open'.all.owned own' own ends' σ.room
    rw [← first, ← second] at gives ambiguous gives'
    refine ⟨gives, fun f failed => ?_, ?_, fun ample => ⟨?_, ?_⟩⟩
    · cases other : result' with
      | error f' => exact .inr ⟨f', rfl⟩
      | ok o =>
          rcases gives' o other with deep | same
          · exact .inl (Except.error.inj (failed.symm.trans deep))
          · cases failed.symm.trans same
    · rw [named] at ambiguous
      exact ambiguous
    · rw [first, Scope.resolve, ← scope.resolveBy_all]
      exact Scope.not_cutOff_table ample ends t .start
    · rw [reordered.depth_eq] at ample
      refine fun deep => Scope.not_cutOff_table (R := .all) ample ends' u .start ?_
      rw [Scope.resolveBy_all, CutOff, ← Scope.resolve, ← second]
      exact deep
  · have first : result = .error (.engine (.unknownTable table)) := reading.outcome_missing missing
    have second : result' = .error (.engine (.unknownTable table)) := reading'.outcome_missing missing'
    rw [first, second]
    refine ⟨?_, fun f _ => .inr ⟨_, rfl⟩, ?_, fun _ => ⟨?_, ?_⟩⟩
    · exact fun _ impossible => by cases impossible
    · exact fun _ impossible => by cases impossible
    · exact fun impossible => by cases impossible
    · exact fun impossible => by cases impossible

/-- Tables that read a named condition and each other, with their rules in some order. -/
def greeting (order : List Rule → List Rule) : List Table :=
  [.make "greeting" (order
      [⟨"hello", [⟨.row .condition, "conditions::started", "true"⟩,
        ⟨.row .condition, "size::outcome", "some"⟩, ⟨.row .outcome, "text", "hello"⟩]⟩,
      ⟨"bye", [⟨.row .condition, "conditions::started", "false"⟩, ⟨.row .outcome, "text", "bye"⟩]⟩]) none,
    .make "size" (order
      [⟨"some", [⟨.row .condition, "counter::n", ">0"⟩, ⟨.row .outcome, "outcome", "some"⟩]⟩,
      ⟨"none", [⟨.row .condition, "counter::n", "<1"⟩, ⟨.row .outcome, "outcome", "none"⟩]⟩]) none]

/-- The store with a context over these tables and a named condition. -/
def overGreeting (order : List Rule → List Rule) : Store :=
  (runFrom (ContextId.open ⟨0⟩ (some (.ofList (greeting order))) (.requestOf []) none) counted).2

theorem greeting_backwards :
    ∃ o, (runFrom (ContextId.outcome ⟨0⟩ "greeting") (overGreeting id)).1 = .ok o ∧
      (runFrom (ContextId.outcome ⟨0⟩ "greeting") (overGreeting List.reverse)).1 = .ok o := by
  have permuted : List.Forall₂ Table.Reordered (greeting id) (greeting List.reverse) :=
    .cons ⟨rfl, (List.reverse_perm _).symm, rfl⟩ (.cons ⟨rfl, (List.reverse_perm _).symm, rfl⟩ .nil)
  have requested : ∀ t, (Source.requestOf []).content ≠ .table t :=
    fun _ impossible => by cases impossible
  have stored : counted.All (fun s => ∀ t, s.content ≠ .table t) (counted.state ⟨0⟩) := by
    intro entry member
    rcases List.mem_cons.mp member with rfl | later
    · exact fun _ impossible => by cases impossible
    · obtain rfl := List.mem_singleton.mp later
      exact fun _ impossible => by cases impossible
  have opens : ∀ order, (runFrom (ContextId.open ⟨0⟩ (some (.ofList (greeting order)))
      (.requestOf []) none) counted).1 = .ok ⟨0⟩ := fun _ => rfl
  obtain ⟨ctx, opened, ctx', opened', ran, ran', alike⟩ :=
    rules_have_no_priority counted permuted requested stored none
  obtain rfl : ContextId.mk 0 = ctx := Except.ok.inj ((opens id).symm.trans (congrArg Prod.fst ran))
  obtain rfl : overGreeting id = opened := congrArg Prod.snd ran
  obtain rfl : ContextId.mk 0 = ctx' :=
    Except.ok.inj ((opens List.reverse).symm.trans (congrArg Prod.fst ran'))
  obtain rfl : overGreeting List.reverse = opened' := congrArg Prod.snd ran'
  have labels : ((overGreeting id).scope ((overGreeting id).context ⟨0⟩).registry).labels =
    [(.text "conditions", "started")] := rfl
  have follows : ((overGreeting id).scope ((overGreeting id).context ⟨0⟩).registry).follow
    ⟨"conditions", "started"⟩ = some ⟨"counter", "n"⟩ := by cbv
  have ends : ∀ c, ¬ ((overGreeting id).scope ((overGreeting id).context ⟨0⟩).registry).Endless c := by
    intro c endless
    obtain ⟨next, first, endless⟩ := endless.follow
    obtain ⟨_, second, _⟩ := endless.follow
    have known := Scope.mem_labels_of_follow (Option.ne_none_iff_exists'.mpr ⟨_, first⟩)
    have known' := Scope.mem_labels_of_follow (Option.ne_none_iff_exists'.mpr ⟨_, second⟩)
    rw [labels, List.mem_singleton, Prod.mk.injEq, Scalar.text.injEq] at known known'
    obtain rfl : c = ⟨"conditions", "started"⟩ := Coordinate.ext known.1 known.2
    cases first.symm.trans follows
    exact absurd known'.1 (by decide)
  have found : fault? (runFrom (ContextId.outcome ⟨0⟩ "greeting") (overGreeting id)).1 = none := by
    decide +kernel
  obtain ⟨gives, _, _, ample⟩ := alike "greeting" ends
  revert gives ample found
  generalize (runFrom (ContextId.outcome ⟨0⟩ "greeting") (overGreeting id)).1 = result
  intro found gives ample
  cases result with
  | error f => cases found
  | ok o => exact ⟨o, rfl, (gives o rfl).resolve_left (ample (Scope.ample_none _)).2⟩

/-- A rule that reads from the middle of a long chain of tables. -/
def middleRule : Rule :=
  ⟨"middle", [⟨.row .condition, "42::outcome", "yes"⟩, ⟨.row .outcome, "outcome", "yes"⟩]⟩

/-- A rule that reads from its end, and is not satisfied. -/
def endRule : Rule := ⟨"end", [⟨.row .condition, "85::outcome", "no"⟩]⟩

/-- The store with a context over a long chain of tables and a table with certain rules, in the room
that there is for nesting. -/
def overRules (rules : List Rule) : Store :=
  (runFrom (ContextId.open ⟨0⟩ (some (.ofList (.make "reader" rules none :: chained 85)))
    (.requestOf []) none) { Store.bounded with states := #[[]] }).2

/-- With the rule that reads from the end declared first the table runs too deep; with the other one
first it has an outcome. -/
theorem order_shows_in_little_room :
    Table.Reordered (.make "reader" [middleRule, endRule] none) (.make "reader" [endRule, middleRule] none) ∧
      ∃ o, (runFrom (ContextId.outcome ⟨0⟩ "reader") (overRules [middleRule, endRule])).1 = .ok o ∧
        (runFrom (ContextId.outcome ⟨0⟩ "reader") (overRules [endRule, middleRule])).1 =
          .error .tooDeep := by
  have results :
      (fault? (runFrom (ContextId.outcome ⟨0⟩ "reader") (overRules [middleRule, endRule])).1,
        fault? (runFrom (ContextId.outcome ⟨0⟩ "reader") (overRules [endRule, middleRule])).1) =
          (none, some .tooDeep) := by decide +kernel
  refine ⟨⟨rfl, .swap _ _ _, rfl⟩, ?_⟩
  revert results
  generalize (runFrom (ContextId.outcome ⟨0⟩ "reader") (overRules [middleRule, endRule])).1 = first
  generalize (runFrom (ContextId.outcome ⟨0⟩ "reader") (overRules [endRule, middleRule])).1 = second
  intro results
  cases first with
  | error f => cases results
  | ok o =>
      cases second with
      | ok _ => cases results
      | error f =>
          cases results
          exact ⟨o, rfl, rfl⟩

end ContextId

end DecisionTables
