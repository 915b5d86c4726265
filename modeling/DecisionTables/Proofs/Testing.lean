import Mathlib
import DecisionTables.Proofs.Reopening
import DecisionTables.Proofs.Replay

/-!
# The context of a tested command

A rule that is tested runs its command in the reset copy of the context, which remembers
what the assignments of the rule have computed.  So the command runs as in a context that
is opened when the assignments are done and remembers just this.  A context that remembers
nothing is another matter: it does what the copy would do if it was told to forget.
-/

namespace DecisionTables

namespace Rule

/-- A reset copy of a context on which the assignments of a rule were carried out. -/
def assigned (r : Rule) (ctx : ContextId) : Engine ContextId := do
  let copy ← ctx.copyReset
  copy.performRule r
  return copy

/-- Run the command that a rule names, if it names one, in a context that is chosen for a copy. -/
def runIn (choose : ContextId → Engine ContextId) (r : Rule) (copy : ContextId) : Engine Unit :=
  match r.outcome.find? executeOutcome with
  | some command => do (← choose copy).perform command
  | none => return

/-- The failures of a rule whose command runs in a context that is chosen when its assignments were
carried out. -/
def testIn (choose : ContextId → Engine ContextId) (r : Rule) (ctx : ContextId) :
    Engine (List Failure) := do
  let copy ← r.assigned ctx
  r.runIn choose copy
  copy.reload
  copy.evaluate fun resolve => Condition.failures resolve r.conditions

/-- A self-test runs the command in the reset copy itself. -/
theorem test_eq (r : Rule) (ctx : ContextId) : r.test ctx = r.testIn pure ctx := by
  have prepared : ∀ copy, r.prepare copy =
      (do copy.performRule r; r.runIn pure copy; copy.reload) := by
    intro copy
    rw [prepare, runIn]
    cases r.outcome.find? executeOutcome <;> rfl
  simp only [test, testIn, assigned, prepared, bind_assoc, pure_bind]

/-- The assignments of a rule leave a reset copy that can be opened once more. -/
theorem reopenable_assigned {r : Rule} {σ σ' : Store} {ctx copy : ContextId}
    (ran : runFrom (r.assigned ctx) σ = (.ok copy, σ')) : σ'.Reopenable copy := by
  obtain ⟨copy', σ₁, copied, ran⟩ := runFrom_bind_value ran
  obtain ⟨_, σ₂, performed, ran⟩ := runFrom_bind_value ran
  cases ran
  exact (ContextId.reopenable_copyReset copied).1.assignAll performed

end Rule

/-! ## The end of a test -/

namespace Store.Beside

variable {σ τ : Store} {ctx worker : ContextId}

/-- What a context computes after it was told to forget does not tell whether it had worked itself. -/
theorem evaluate_eq {α : Type} (beside : σ.Beside τ ctx worker) (step : Resolver → Evaluation α) :
    (runFrom (ctx.reload >>= fun _ => ctx.evaluate step) σ).1 =
      (runFrom (ctx.reload >>= fun _ => ctx.evaluate step) τ).1 := by
  obtain ⟨c, found, rested⟩ := beside.resting
  have inside := (Array.getElem?_eq_some_iff.mp found).1
  have context : τ.context ctx = c := by
    rw [Store.context, Array.getD_eq_getD_getElem?, found]
    rfl
  have reloaded : ∀ ρ : Store, runFrom ctx.reload ρ = (.ok ⟨⟩, ρ.setContext ctx (ρ.context ctx).reloaded) :=
    fun _ => rfl
  rw [runFrom_bind_ok (reloaded σ), runFrom_bind_ok (reloaded τ), context, rested,
    ctx.runFrom_evaluate, ctx.runFrom_evaluate]
  have left := Store.context_setContext beside.inside (σ.context ctx).reloaded
  have right := Store.context_setContext inside (σ.context ctx).reloaded
  have resolvers : (τ.setContext ctx (σ.context ctx).reloaded).resolver ctx =
      (σ.setContext ctx (σ.context ctx).reloaded).resolver ctx := by
    rw [resolver, resolver, left, right]
    change (τ.scope (σ.context ctx).registry).resolve τ.room =
      (σ.scope (σ.context ctx).registry).resolve σ.room
    rw [beside.scope_eq, beside.room]
  have progresses : (τ.setContext ctx (σ.context ctx).reloaded).progress ctx =
      (σ.setContext ctx (σ.context ctx).reloaded).progress ctx := by
    rw [progress, progress, left, right]
    exact congrArg (Progress.mk _) (beside.trace_eq _)
  rw [resolvers, progresses]

end Store.Beside

namespace Rule

variable {σ : Store} {ctx : ContextId} {choose choose' : ContextId → Engine ContextId}

/-- Two tests agree that agree from where the assignments were carried out. -/
theorem testIn_eq {r : Rule}
    (agree : ∀ copy ρ, runFrom (r.assigned ctx) σ = (.ok copy, ρ) → ∀ command,
      let rest := fun choose : ContextId → Engine ContextId => choose copy >>= fun worker =>
        worker.perform command >>= fun _ => copy.reload >>= fun _ =>
          copy.evaluate fun resolve => Condition.failures resolve r.conditions
      (runFrom (rest choose) ρ).1 = (runFrom (rest choose') ρ).1) :
    (runFrom (r.testIn choose ctx) σ).1 = (runFrom (r.testIn choose' ctx) σ).1 := by
  rw [testIn, testIn, runFrom_bind, runFrom_bind]
  cases assigned : runFrom (r.assigned ctx) σ with
  | mk result ρ =>
    cases result with
    | error f => rfl
    | ok copy =>
        simp only [runIn]
        cases r.outcome.find? executeOutcome with
        | none => rfl
        | some command =>
            simp only [bind_assoc]
            exact agree copy ρ assigned command

/-- It does not matter whether the command of a rule runs in the copy or in a context that is in the
position of the copy. -/
theorem testIn_beside (r : Rule) (σ : Store) (ctx : ContextId)
    (beside : ∀ copy ρ, ρ.Reopenable copy → ∃ σ₁ worker τ₁,
      runFrom (choose copy) ρ = (.ok copy, σ₁) ∧ runFrom (choose' copy) ρ = (.ok worker, τ₁) ∧
      σ₁.Beside τ₁ copy worker) :
    (runFrom (r.testIn choose ctx) σ).1 = (runFrom (r.testIn choose' ctx) σ).1 := by
  refine testIn_eq fun copy ρ assigned command => ?_
  intro rest
  obtain ⟨σ₁, worker, τ₁, chosen, chosen', abreast⟩ := beside copy ρ (reopenable_assigned assigned)
  have performed := abreast_perform command σ₁ τ₁ abreast
  simp only [rest]
  rw [runFrom_bind_ok chosen, runFrom_bind_ok chosen', runFrom_bind, runFrom_bind]
  revert performed
  rcases runFrom (copy.perform command) σ₁ with ⟨left, σ₂⟩
  rcases runFrom (worker.perform command) τ₁ with ⟨right, τ₂⟩
  rintro ⟨rfl, after⟩
  cases left with
  | error f => rfl
  | ok u => exact after.evaluate_eq _

/-- A test runs its command as in a context that remembers what the copy remembers. -/
theorem test_eq_reopen (r : Rule) (ctx : ContextId) (σ : Store) :
    (runFrom (r.test ctx) σ).1 = (runFrom (r.testIn (ContextId.reopen id) ctx) σ).1 := by
  rw [test_eq]
  refine r.testIn_beside σ ctx fun copy ρ reopenable => ?_
  obtain ⟨worker, τ, ran, beside⟩ := ContextId.exists_reopen reopenable id rfl
  have unchanged : ρ.setContext copy { ρ.context copy with memo := id (ρ.context copy).memo } = ρ :=
    Store.setContext_context ρ copy
  rw [unchanged] at beside
  exact ⟨ρ, worker, τ, rfl, ran, beside⟩

/-- A context that remembers nothing runs the command as the copy does that was told to forget. -/
theorem testIn_reload (r : Rule) (ctx : ContextId) (σ : Store) :
    (runFrom (r.testIn (fun copy => do copy.reload; return copy) ctx) σ).1 =
      (runFrom (r.testIn (ContextId.reopen fun _ => .empty) ctx) σ).1 := by
  refine r.testIn_beside σ ctx fun copy ρ reopenable => ?_
  obtain ⟨worker, τ, ran, beside⟩ :=
    ContextId.exists_reopen reopenable (fun _ => .empty) reopenable.idle.symm
  have forgotten : (ρ.context copy).memo.forget = .empty := congrArg (Memo.mk [] []) reopenable.idle
  refine ⟨ρ.setContext copy (ρ.context copy).reloaded, worker, τ, rfl, ran, ?_⟩
  rw [Context.reloaded, forgotten]
  exact beside

end Rule

namespace Session

theorem step_test {s : Session} {k : Nat} {ctx : ContextId} (opened : s.contexts[k]? = some ctx)
    (r : Rule) :
    (s.step (.context k (.test r))).1 = (runFrom (r.test ctx) s.store).1.map .failures :=
  congrArg Prod.fst (step_of_answer (perform_context opened (.test r)))

/-- A test runs the command of its rule as in a context that is opened when the assignments of the rule
are done, and that remembers what they have computed and nothing else.  Where they have computed nothing
this context is a fresh one, and a fresh one always does what the copy does that was told to forget. -/
theorem tested_commands_remember {s : Session} {k : Nat} {ctx : ContextId}
    (opened : s.contexts[k]? = some ctx) (r : Rule) :
    let told := (s.step (.context k (.test r))).1
    let toldIn := fun choose => (runFrom (r.testIn choose ctx) s.store).1.map Answer.failures
    told = toldIn (ContextId.reopen id) ∧
    (∀ copy σ, runFrom ctx.copyReset s.store = (.ok copy, σ) → (σ.context copy).memo = .empty) ∧
    ((∀ copy σ, runFrom (r.assigned ctx) s.store = (.ok copy, σ) → (σ.context copy).memo = .empty) →
      told = toldIn (ContextId.reopen fun _ => .empty)) ∧
    toldIn (ContextId.reopen fun _ => .empty) = toldIn fun copy => do copy.reload; return copy := by
  intro told toldIn
  have told_eq : told = toldIn (ContextId.reopen id) :=
    (step_test opened r).trans (congrArg (Except.map Answer.failures) (r.test_eq_reopen ctx s.store))
  refine ⟨told_eq, fun copy σ copied => (ContextId.reopenable_copyReset copied).2, fun blank => ?_, ?_⟩
  · refine told_eq.trans (congrArg (Except.map Answer.failures) ?_)
    refine Rule.testIn_eq fun copy ρ assigned command => ?_
    have same : runFrom (copy.reopen id) ρ = runFrom (copy.reopen fun _ => .empty) ρ := by
      rw [ContextId.reopen, ContextId.reopen, runFrom_bind, runFrom_get, runFrom_bind, runFrom_get]
      simp only [id, blank copy ρ assigned]
    intro rest
    simp only [rest]
    rw [runFrom_bind, runFrom_bind, same]
  · exact congrArg (Except.map Answer.failures) (r.testIn_reload ctx s.store).symm

/-- A table that tells whether a fragment is one. -/
def watch : Table :=
  .make "T" [⟨"1", [⟨.row .condition, "x::n", "1"⟩, ⟨.row .outcome, "outcome", "one"⟩]⟩] none

/-- A command that runs where the table tells so. -/
def go : Table :=
  .make "go" [⟨"1", [⟨.row .condition, "T::outcome", "one"⟩, ⟨.row .assignment, "x::done", "yes"⟩]⟩] none

/-- A context on a state whose fragment is zero after a reset. -/
def watching : Session :=
  (start none).after
    [.build (.ofList [watch]) (.ofList [go])
      (.sources [(.text "x", .stored (.text "x") [] [(.text "n", .text "0")])]),
    .computation 0 (.open .null)]

/-- A rule that runs the command when its assignment has made the fragment one. -/
def going : Rule :=
  ⟨"r", [⟨.row .assignment, "x::n", "1"⟩, ⟨.row .outcome, "execute", "go"⟩,
    ⟨.row .condition, "x::done", "yes"⟩]⟩

theorem going_runs_afresh :
    (watching.step (.context 0 (.test going))).1 =
      (runFrom (going.testIn (ContextId.reopen fun _ => .empty) ⟨0⟩) watching.store).1.map .failures := by
  have opened : watching.contexts[0]? = some ⟨0⟩ := by cbv
  have assigned : (runFrom (going.assigned ⟨0⟩) watching.store).1 = .ok ⟨1⟩ := by cbv
  have blank : ((runFrom (going.assigned ⟨0⟩) watching.store).2.context ⟨1⟩).memo = .empty := by cbv
  refine (tested_commands_remember opened going).2.2.1 fun copy σ ran => ?_
  rw [ran] at assigned blank
  cases assigned
  exact blank

/-- A rule that has asked the table before its assignment makes the fragment one. -/
def asking : Rule :=
  { going with fragments := ⟨.row .assignment, "x::seen", "T::outcome"⟩ :: going.fragments }

/-- The command of such a rule still finds what the table told before, and a fresh context does not. -/
theorem stale_outcome_is_found :
    (watching.step (.context 0 (.test asking))).1 = .error (.engine (.noRuleSatisfied "go")) ∧
    (runFrom (asking.testIn (ContextId.reopen fun _ => .empty) ⟨0⟩) watching.store).1 = .ok [] ∧
    (runFrom (asking.testIn (fun copy => do copy.reload; return copy) ⟨0⟩) watching.store).1 = .ok [] := by
  refine ⟨by cbv, by cbv, by cbv⟩

end Session

end DecisionTables
