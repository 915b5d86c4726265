import Mathlib
import DecisionTables.Proofs.Inheriting
import DecisionTables.Proofs.Reads
import DecisionTables.Proofs.Repeating
import DecisionTables.Proofs.Testing

/-!
# Tests and checks

A decision stops at the first condition that does not hold, and a test goes on to the last.
Yet they tell the same of a rule: the test finds nothing exactly where the check is satisfied,
and fails as the check does.  What a test finds is one failure for each condition that does
not hold, with the text that its subject has, whichever condition is asked first.
-/

namespace DecisionTables

/-! ## Conditions -/

namespace Condition

/-- The failure that a condition is found with, if it was found not to hold. -/
def failure? (c : Condition) : Except Fault (Bool × String) → Option Failure
  | .ok (false, actual) => some ⟨c.text, actual⟩
  | _ => none

/-- What a condition is found to be in a context: whether it holds, and the text of its subject. -/
def judgedIn (ctx : ContextId) (σ : Store) (c : Condition) : Except Fault (Bool × String) :=
  (runFrom (ctx.evaluate fun resolve => c.evaluate resolve) σ).1

theorem judgedIn_eq (ctx : ContextId) (σ : Store) (c : Condition) :
    c.judgedIn ctx σ = (runFrom (c.evaluate (σ.resolver ctx)) (σ.progress ctx)).1 := by
  rw [judgedIn, ctx.runFrom_evaluate]

variable {resolve : Resolver} {c : Condition} {rest cs : List Condition} {p q : Progress}

theorem runFrom_failures_fault {f : Fault} (failed : runFrom (c.evaluate resolve) p = (.error f, q)) :
    runFrom (failures resolve (c :: rest)) p = (.error f, q) :=
  runFrom_bind_fault failed _

theorem runFrom_failures_holds {actual : String}
    (held : runFrom (c.evaluate resolve) p = (.ok (true, actual), q)) :
    runFrom (failures resolve (c :: rest)) p = runFrom (failures resolve rest) q := by
  rw [failures, runFrom_bind_ok held, runFrom_return]
  rcases runFrom (failures resolve rest) q with ⟨result, q'⟩
  cases result <;> rfl

theorem runFrom_failures_broken {actual : String}
    (broken : runFrom (c.evaluate resolve) p = (.ok (false, actual), q)) :
    runFrom (failures resolve (c :: rest)) p =
      ((runFrom (failures resolve rest) q).1.map (⟨c.text, actual⟩ :: ·),
        (runFrom (failures resolve rest) q).2) := by
  rw [failures, runFrom_bind_ok broken, runFrom_return]
  rfl

/-- A test asks what the decision asks, and then the rest: it finds nothing exactly where all conditions
hold, and a fault that ends the decision ends the test. -/
theorem failures_eq_allHold (resolve : Resolver) (cs : List Condition) (p : Progress) :
    (∀ q, runFrom (allHold resolve cs) p = (.ok true, q) →
      runFrom (failures resolve cs) p = (.ok [], q)) ∧
    (∀ q, runFrom (allHold resolve cs) p = (.ok false, q) →
      (runFrom (failures resolve cs) p).1 ≠ .ok []) ∧
    ∀ f q, runFrom (allHold resolve cs) p = (.error f, q) →
      runFrom (failures resolve cs) p = (.error f, q) := by
  induction cs generalizing p with
  | nil =>
      refine ⟨fun q ran => ?_, fun q ran => ?_, fun f q ran => ?_⟩ <;> cases ran
      rfl
  | cons c rest ih =>
      rcases evaluated : runFrom (c.evaluate resolve) p with ⟨result, p'⟩
      cases result with
      | error f =>
          rw [runFrom_failures_fault evaluated, allHold, runFrom_bind_fault evaluated]
          exact ⟨fun q ran => (by cases ran), fun q ran => (by cases ran), fun f q ran => (by cases ran; rfl)⟩
      | ok judged =>
          obtain ⟨holds, actual⟩ := judged
          rw [allHold, runFrom_bind_ok evaluated]
          cases holds with
          | true =>
              rw [runFrom_failures_holds evaluated]
              exact ih p'
          | false =>
              refine ⟨fun q ran => (by cases ran), fun q _ none => ?_, fun f q ran => (by cases ran)⟩
              rw [runFrom_failures_broken evaluated] at none
              cases later : (runFrom (failures resolve rest) p').1 with
              | error f =>
                  simp only [later] at none
                  cases none
              | ok others =>
                  simp only [later] at none
                  cases none

/-- What is settled about the subject decides what a condition is found to be. -/
theorem evaluate_of_settles {k : Knowledge} {text : String} {holds : Bool}
    (settled : k.Settles resolve c.subject text) (accepted : c.cell.accepts text = .ok holds)
    (le : k.Le p.known) : (runFrom (c.evaluate resolve) p).1 = .ok (holds, text) := by
  rw [evaluate, runFrom_bind_ok (settled p le), accepted]
  rfl

/-- What a test has found is what is found of each condition once more. -/
theorem failures_are_found (steady : resolve.Steady) {found : List Failure}
    (ran : runFrom (failures resolve cs) p = (.ok found, q)) {q' : Progress} (le : q.known.Le q'.known) :
    found = cs.filterMap (fun c => c.failure? (runFrom (c.evaluate resolve) q').1) ∧
      ∀ c ∈ cs, ∃ judged, (runFrom (c.evaluate resolve) q').1 = .ok judged := by
  induction cs generalizing p found with
  | nil =>
      cases ran
      exact ⟨rfl, fun _ impossible => absurd impossible List.not_mem_nil⟩
  | cons c rest ih =>
      obtain ⟨⟨holds, actual⟩, p', evaluated, ran⟩ := runFrom_bind_value ran
      obtain ⟨others, p'', later, ran⟩ := runFrom_bind_value ran
      cases ran
      have onward := (uniform_failures rest).along Progress.along_onward steady.onward p'
      rw [later] at onward
      obtain ⟨settled, accepted⟩ := settles_of_evaluate steady evaluated
      have again := evaluate_of_settles settled accepted (onward.known.trans le)
      obtain ⟨same, judged⟩ := ih later
      refine ⟨?_, List.forall_mem_cons.mpr ⟨⟨_, again⟩, judged⟩⟩
      rw [List.filterMap_cons, again, ← same]
      cases holds <;> rfl

end Condition

/-! ## What is asked first -/

namespace Scope

variable {scope : Scope} {catalog : Catalog} {p : Progress}

theorem settling_of_blank (blank : p.memo = .empty) : Settling scope catalog p := by
  have known : p.known = Progress.start.known := by
    rw [Progress.known, blank]
    rfl
  refine ⟨?_, ?_⟩
  · rw [known]
    exact (refreshes_start scope catalog).settling.sound
  · rw [blank]
    exact fun _ impossible => absurd impossible List.not_mem_nil

/-- What is evaluated first, before anything was computed, is what is evaluated after something else,
unless it runs too deep. -/
theorem first_or_later {α β : Type} (coherent : scope.Coherent) (owned : scope.Owned catalog)
    (blank : p.memo = .empty) {before : Resolver → Evaluation α} {step : Resolver → Evaluation β}
    (uniform : Uniform before) (uniform' : Uniform step) (room : Option Nat) {q : Progress}
    (after : q.memo = (runFrom (before (scope.resolve room)) p).2.memo) :
    (runFrom (step (scope.resolve room)) p).1 = .error .tooDeep ∨
      (runFrom (step (scope.resolve room)) p).1 = (runFrom (step (scope.resolve room)) q).1 := by
  have recorded : scope.Recorded catalog (scope.resolve room) := by
    rw [resolve, ← scope.resolveBy_all]
    exact recorded_resolveBy coherent owned scope.depth room
  have records := (recorded.step uniform (settling_of_blank blank)).1
  have known : q.known = (runFrom (before (scope.resolve room)) p).2.known := by
    rw [Progress.known, after]
    rfl
  have refreshes : Refreshes scope catalog p q := by
    refine ⟨?_, ?_, ?_, ?_⟩
    · rw [known]
      exact records.le
    · rw [after]
      exact Eq.symm records.computing
    · rw [known]
      exact records.settling.sound
    · rw [known, after]
      exact records.settling.apart
  rw [resolve, ← scope.resolveBy_all]
  exact ((uniform'.tracks (refreshing_resolveBy coherent owned .all scope.depth room) p q
    refreshes).tooDeep_or_eq (fun _ => id) fun _ => id).imp_right Eq.symm

end Scope

/-! ## Rules -/

namespace Rule

variable {σ σ' : Store} {ctx copy : ContextId} {r : Rule}

/-- A reset copy of a context in which a rule was prepared: its assignments and its command were carried
out there, and what was computed for them was forgotten. -/
def ready (r : Rule) (ctx : ContextId) : Engine ContextId := do
  let copy ← ctx.copyReset
  r.prepare copy
  return copy

theorem test_eq_ready (r : Rule) (ctx : ContextId) :
    r.test ctx = r.ready ctx >>= fun copy =>
      copy.evaluate fun resolve => Condition.failures resolve r.conditions := by
  simp only [test, ready, bind_assoc, pure_bind]

theorem exists_of_ready (ran : runFrom (r.ready ctx) σ = (.ok copy, σ')) :
    ∃ σ₁ u, runFrom ctx.copyReset σ = (.ok copy, σ₁) ∧ runFrom (r.prepare copy) σ₁ = (.ok u, σ') := by
  obtain ⟨copy', σ₁, copied, ran⟩ := runFrom_bind_value ran
  obtain ⟨u, σ₂, prepared, ran⟩ := runFrom_bind_value ran
  cases ran
  exact ⟨σ₁, u, copied, prepared⟩

/-- A context that is ready for the check of a rule remembers nothing. -/
theorem memo_of_ready (ran : runFrom (r.ready ctx) σ = (.ok copy, σ')) :
    copy.index < σ'.contexts.size ∧ (σ'.context copy).memo = .empty := by
  obtain ⟨σ₁, u, copied, prepared⟩ := exists_of_ready ran
  obtain ⟨reopenable, memo⟩ := ContextId.reopenable_copyReset copied
  have houses : σ₁.Houses (fun _ => True) copy :=
    ⟨reopenable.inside, congrArg Memo.computing memo, fun _ _ => trivial⟩
  obtain ⟨houses', forgotten⟩ := houses.prepare (fun _ => trivial) prepared
  exact ⟨houses'.inside, forgotten⟩

/-- A context that is ready for the check of a rule reads the same tables as the one it was made of. -/
theorem owned_of_ready (own : σ.OwnTables ctx) (ran : runFrom (r.ready ctx) σ = (.ok copy, σ')) :
    (σ'.scope (σ'.context copy).registry).Owned (σ.context ctx).tables := by
  obtain ⟨σ₁, u, copied, prepared⟩ := exists_of_ready ran
  have houses := ContextId.houses_copyReset own copied
  exact (houses.prepare Catalog.owns_of_write prepared).1.all.owned

theorem runFrom_test_of_ready (ran : runFrom (r.ready ctx) σ = (.ok copy, σ')) :
    runFrom (r.test ctx) σ =
      ((runFrom (Condition.failures (σ'.resolver copy) r.conditions) (σ'.progress copy)).1,
        σ'.withProgress copy
          (runFrom (Condition.failures (σ'.resolver copy) r.conditions) (σ'.progress copy)).2) := by
  rw [test_eq_ready, runFrom_bind_ok ran, copy.runFrom_evaluate]

theorem runFrom_check (r : Rule) (copy : ContextId) (σ : Store) :
    (runFrom (copy.evaluate fun resolve => r.check resolve) σ).1 =
      (runFrom (Condition.allHold (σ.resolver copy) r.conditions) (σ.progress copy)).1 := by
  rw [copy.runFrom_evaluate, check, runFrom_bind]
  rcases runFrom (Condition.allHold (σ.resolver copy) r.conditions) (σ.progress copy) with ⟨result, p⟩
  cases result <;> rfl

/-- A test tells of a rule what its check tells in the copy that is ready for it. -/
theorem test_of_check (ran : runFrom (r.ready ctx) σ = (.ok copy, σ')) :
    let checked := (runFrom (copy.evaluate fun resolve => r.check resolve) σ').1
    (checked = .ok true → (runFrom (r.test ctx) σ).1 = .ok []) ∧
    (checked = .ok false → (runFrom (r.test ctx) σ).1 ≠ .ok []) ∧
    ∀ f, checked = .error f → (runFrom (r.test ctx) σ).1 = .error f := by
  intro checked
  have same : checked = (runFrom (Condition.allHold (σ'.resolver copy) r.conditions)
    (σ'.progress copy)).1 := runFrom_check r copy σ'
  rw [same, runFrom_test_of_ready ran]
  obtain ⟨holds, broken, fails⟩ :=
    Condition.failures_eq_allHold (σ'.resolver copy) r.conditions (σ'.progress copy)
  exact ⟨fun all => congrArg Prod.fst (holds _ (Prod.ext all rfl)),
    fun some => broken _ (Prod.ext some rfl),
    fun f failed => congrArg Prod.fst (fails f _ (Prod.ext failed rfl))⟩

/-- A test that finds something leaves the copy with what it has computed, and the copy resolves as
before. -/
theorem left_by_test (ran : runFrom (r.ready ctx) σ = (.ok copy, σ')) :
    (runFrom (r.test ctx) σ).2.resolver copy = σ'.resolver copy ∧
      ((runFrom (r.test ctx) σ).2.progress copy).memo =
        (runFrom (Condition.failures (σ'.resolver copy) r.conditions) (σ'.progress copy)).2.memo := by
  have inside := (memo_of_ready ran).1
  rw [runFrom_test_of_ready ran]
  exact ⟨Store.resolver_withProgress inside _, Store.memo_withProgress inside _⟩

/-- What a test finds is what each condition is found to be in the copy that the test leaves. -/
theorem found_by_test (ran : runFrom (r.ready ctx) σ = (.ok copy, σ')) {found : List Failure}
    (told : (runFrom (r.test ctx) σ).1 = .ok found) :
    found = r.conditions.filterMap (fun c => c.failure? (c.judgedIn copy (runFrom (r.test ctx) σ).2)) ∧
      ∀ c ∈ r.conditions, ∃ verdict, c.judgedIn copy (runFrom (r.test ctx) σ).2 = .ok verdict := by
  obtain ⟨resolver, memo⟩ := left_by_test ran
  simp only [Condition.judgedIn_eq, resolver]
  rw [runFrom_test_of_ready ran] at told
  refine Condition.failures_are_found (σ'.steady_resolver copy) (Prod.ext told rfl) ?_
  rw [Progress.known, Progress.known, memo]
  exact .refl _

/-- A condition that is asked before all others is found to be what a test finds, unless this runs too
deep. -/
theorem judged_first (own : σ.OwnTables ctx) (ran : runFrom (r.ready ctx) σ = (.ok copy, σ'))
    (c : Condition) :
    c.judgedIn copy σ' = .error .tooDeep ∨
      c.judgedIn copy σ' = c.judgedIn copy (runFrom (r.test ctx) σ).2 := by
  obtain ⟨resolver, memo⟩ := left_by_test ran
  rw [Condition.judgedIn_eq, Condition.judgedIn_eq, resolver]
  exact Scope.first_or_later (σ'.coherent_scope _) (owned_of_ready own ran) (memo_of_ready ran).2
    (Condition.uniform_failures r.conditions) c.uniform_evaluate σ'.room memo

end Rule

/-- With ample room no condition runs too deep where every chain of named conditions ends. -/
theorem Condition.judgedIn_ne_tooDeep {σ : Store} {ctx : ContextId}
    (ends : ∀ c, ¬ (σ.scope (σ.context ctx).registry).Endless c)
    (ample : Scope.Ample (σ.scope (σ.context ctx).registry).depth σ.room) (c : Condition) :
    c.judgedIn ctx σ ≠ .error .tooDeep := by
  rw [judgedIn_eq, Store.resolver, Scope.resolve, ← Scope.resolveBy_all]
  exact c.uniform_evaluate.not_cutOff (Scope.not_cutOff_of_ends ample ends) _

/-- A test judges a rule as its check does.  It fails where the rule cannot be prepared on a reset copy;
in the copy that is ready for the check, which remembers nothing, the test finds nothing exactly where the
check is satisfied, finds something or fails where the check is not satisfied, and fails as the check does.
What it finds is, in the order of the conditions, one failure for each that does not hold, with the text
that its subject has there.  Where the context reads no tables but its own, each condition is found to be
what it is found to be if it is asked before all others, unless this runs too deep; with ample room it does
not where every chain of named conditions ends. -/
theorem ContextId.tests_agree_with_checks (σ : Store) (ctx : ContextId) (r : Rule) :
    let tested := runFrom (r.test ctx) σ
    (∀ f τ, runFrom (r.ready ctx) σ = (.error f, τ) → tested.1 = .error f) ∧
    (tested.1 = .ok [] ↔ ∃ copy τ, runFrom (r.ready ctx) σ = (.ok copy, τ) ∧
      (runFrom (copy.evaluate fun resolve => r.check resolve) τ).1 = .ok true) ∧
    ∀ copy τ, runFrom (r.ready ctx) σ = (.ok copy, τ) →
      let checked := (runFrom (copy.evaluate fun resolve => r.check resolve) τ).1
      let scope := τ.scope (τ.context copy).registry
      (τ.context copy).memo = .empty ∧
      (checked = .ok false →
        (∃ f, tested.1 = .error f) ∨ ∃ failure more, tested.1 = .ok (failure :: more)) ∧
      (∀ f, checked = .error f → tested.1 = .error f) ∧
      ∀ found, tested.1 = .ok found →
        found = r.conditions.filterMap (fun c => c.failure? (c.judgedIn copy tested.2)) ∧
        ∀ c ∈ r.conditions,
          (∃ verdict, c.judgedIn copy tested.2 = .ok verdict) ∧
          (σ.OwnTables ctx →
            c.judgedIn copy τ = .error .tooDeep ∨ c.judgedIn copy τ = c.judgedIn copy tested.2) ∧
          ((∀ c, ¬ scope.Endless c) → Scope.Ample scope.depth τ.room →
            c.judgedIn copy τ ≠ .error .tooDeep) := by
  intro tested
  have unready : ∀ f τ, runFrom (r.ready ctx) σ = (.error f, τ) → tested.1 = .error f := by
    intro f τ failed
    change (runFrom (r.test ctx) σ).1 = _
    rw [Rule.test_eq_ready, runFrom_bind_fault failed]
  refine ⟨unready, ⟨fun passed => ?_, ?_⟩, fun copy τ ran => ?_⟩
  · rcases ran : runFrom (r.ready ctx) σ with ⟨result, τ⟩
    cases result with
    | error f => cases (unready f τ ran).symm.trans passed
    | ok copy =>
        refine ⟨copy, τ, rfl, ?_⟩
        obtain ⟨_, broken, fails⟩ := Rule.test_of_check ran
        cases checked : (runFrom (copy.evaluate fun resolve => r.check resolve) τ).1 with
        | error f => cases (fails f checked).symm.trans passed
        | ok holds =>
            cases holds with
            | true => rfl
            | false => exact (broken checked passed).elim
  · rintro ⟨copy, τ, ran, checked⟩
    exact (Rule.test_of_check ran).1 checked
  · intro checked scope
    obtain ⟨_, broken, fails⟩ := Rule.test_of_check ran
    refine ⟨(Rule.memo_of_ready ran).2, fun unsatisfied => ?_, fails, fun found told => ?_⟩
    · cases told : tested.1 with
      | error f => exact .inl ⟨f, rfl⟩
      | ok found =>
          cases found with
          | nil => exact (broken unsatisfied told).elim
          | cons failure more => exact .inr ⟨failure, more, rfl⟩
    · obtain ⟨same, judged⟩ := Rule.found_by_test ran told
      exact ⟨same, fun c member => ⟨judged c member, fun own => Rule.judged_first own ran c,
        fun ends ample => c.judgedIn_ne_tooDeep ends ample⟩⟩

namespace Session

/-- A rule that asks a table, and then for what the table has asked itself. -/
def observing : Rule :=
  ⟨"o", [⟨.row .condition, "T::outcome", "one"⟩, ⟨.row .condition, "x::n", "0"⟩,
    ⟨.row .condition, "x::n", "1"⟩]⟩

theorem watching_is_observed : ∃ copy τ, runFrom (observing.ready ⟨0⟩) watching.store = (.ok copy, τ) ∧
    (runFrom (observing.test ⟨0⟩) watching.store).1 =
      .ok [⟨"T::outcome one", "else"⟩, ⟨"x::n 1", "0"⟩] ∧
    (runFrom (copy.evaluate fun resolve => observing.check resolve) τ).1 = .ok false ∧
    ∀ c ∈ observing.conditions, c.judgedIn copy τ = .error .tooDeep ∨
      c.judgedIn copy τ = c.judgedIn copy (runFrom (observing.test ⟨0⟩) watching.store).2 := by
  have own : watching.store.OwnTables ⟨0⟩ := by decide +kernel
  have told : (runFrom (observing.test ⟨0⟩) watching.store).1 =
      .ok [⟨"T::outcome one", "else"⟩, ⟨"x::n 1", "0"⟩] := by cbv
  have ready : (runFrom (observing.ready ⟨0⟩) watching.store).1 = .ok ⟨1⟩ := by cbv
  obtain ⟨_, _, agree⟩ := ContextId.tests_agree_with_checks watching.store ⟨0⟩ observing
  obtain ⟨_, _, _, found⟩ := agree _ _ (Prod.ext ready rfl)
  refine ⟨_, _, Prod.ext ready rfl, told, by cbv, fun c member => ?_⟩
  exact ((found _ told).2 c member).2.1 own

end Session

end DecisionTables
