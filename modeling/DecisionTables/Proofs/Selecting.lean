import DecisionTables.Proofs.Tracking

/-!
# Which rule is selected

The rules of a table are checked in the order in which they are declared, and the conditions
of each from left to right up to the first that does not hold.  Every evaluation starts from
what the ones before it have left, and the first that fails ends everything, however many
rules are satisfied by then.  Where none fails the satisfied rules decide: a single one is
selected, without one it is the fallback, and several are an error that names them all.

The relations of this module say so without a computation, and the engine computes them.
-/

namespace DecisionTables

/-! ## One after the other -/

/-- A relation between something that is evaluated, the progress before it, its result, and the
progress after it. -/
abbrev Judgement (α β : Type) := α → Progress → Except Fault β → Progress → Prop

/-- The members of a list are evaluated one after the other, each from the progress that the one
before it has left, and all have values. -/
inductive InTurn {α β : Type} (R : Judgement α β) : List α → Progress → List β → Progress → Prop
  | nil (p : Progress) : InTurn R [] p [] p
  | cons {a : α} {rest : List α} {b : β} {others : List β} {p q q' : Progress}
      (first : R a p (.ok b) q) (later : InTurn R rest q others q') :
      InTurn R (a :: rest) p (b :: others) q'

/-- Where every member has a result, all have values of a kind in turn, or there is a first that has
another result. -/
theorem InTurn.all_or_first {α β : Type} {R : Judgement α β} (total : ∀ a p, ∃ result q, R a p result q)
    (P : β → Prop) (as : List α) (p : Progress) :
    (∃ bs q, InTurn R as p bs q ∧ ∀ b ∈ bs, P b) ∨
      ∃ before a after bs q result q', as = before ++ a :: after ∧ InTurn R before p bs q ∧
        (∀ b ∈ bs, P b) ∧ R a q result q' ∧ ∀ b, result = .ok b → ¬ P b := by
  induction as generalizing p with
  | nil => exact .inl ⟨[], p, .nil p, fun _ impossible => absurd impossible List.not_mem_nil⟩
  | cons a rest ih =>
      obtain ⟨result, p', first⟩ := total a p
      by_cases kind : ∃ b, result = .ok b ∧ P b
      · obtain ⟨b, rfl, kind⟩ := kind
        have kinds : ∀ bs : List β, (∀ b ∈ bs, P b) → ∀ c ∈ b :: bs, P c :=
          fun bs kinds => List.forall_mem_cons.mpr ⟨kind, kinds⟩
        rcases ih p' with
          ⟨bs, q, later, others⟩ | ⟨before, a', after, bs, q, result, q', rfl, later, others, judged, other⟩
        · exact .inl ⟨b :: bs, q, .cons first later, kinds bs others⟩
        · exact .inr ⟨a :: before, a', after, b :: bs, q, result, q', rfl, .cons first later,
            kinds bs others, judged, other⟩
      · exact .inr ⟨[], a, rest, [], p, result, p', rfl, .nil p,
          fun _ impossible => absurd impossible List.not_mem_nil, first, fun b same holds =>
            kind ⟨b, same, holds⟩⟩

/-! ## Conditions -/

namespace Condition

/-- Whether a condition holds by a resolver. -/
def Judged (resolve : Resolver) : Judgement Condition Bool :=
  fun c p result q => runFrom (do return (← c.evaluate resolve).1) p = (result, q)

/-- Conditions hold, one after the other. -/
def Hold (resolve : Resolver) (cs : List Condition) (p q : Progress) : Prop :=
  ∃ verdicts, InTurn (Judged resolve) cs p verdicts q ∧ ∀ holds ∈ verdicts, holds = true

variable {resolve : Resolver} {p q : Progress}

theorem exists_judged (resolve : Resolver) (c : Condition) (p : Progress) :
    ∃ result q, c.Judged resolve p result q :=
  ⟨_, _, rfl⟩

theorem allHold_cons (resolve : Resolver) (c : Condition) (rest : List Condition) :
    allHold resolve (c :: rest) = do
      let holds ← (do return (← c.evaluate resolve).1 : Evaluation Bool)
      if holds then allHold resolve rest else return false := by
  rw [allHold, bind_assoc]
  rfl

/-- What comes after conditions that hold does not depend on them but for the progress that they
leave. -/
theorem Hold.runFrom_allHold {cs : List Condition} (held : Hold resolve cs p q) (rest : List Condition) :
    runFrom (allHold resolve (cs ++ rest)) p = runFrom (allHold resolve rest) q := by
  obtain ⟨verdicts, inTurn, holds⟩ := held
  induction inTurn with
  | nil p => rfl
  | cons first later ih =>
      obtain ⟨rfl, others⟩ := List.forall_mem_cons.mp holds
      rw [List.cons_append, allHold_cons, runFrom_bind_ok first, if_pos rfl]
      exact ih others

end Condition

/-! ## Rules -/

/-- How the check of a rule ends. -/
inductive Rule.Checked (resolve : Resolver) (r : Rule) (p : Progress) :
    Except Fault Bool → Progress → Prop
  /-- Every condition holds. -/
  | holds {q : Progress} (held : Condition.Hold resolve r.conditions p q) :
      Checked resolve r p (.ok true) (q.reported (.rule r.name true))
  /-- All conditions before one hold, and this one does not; none after it is evaluated. -/
  | stops {before after : List Condition} {c : Condition} {q q' : Progress}
      (declared : r.conditions = before ++ c :: after) (held : Condition.Hold resolve before p q)
      (broken : c.Judged resolve q (.ok false) q') :
      Checked resolve r p (.ok false) (q'.reported (.rule r.name false))
  /-- All conditions before one hold, and this one fails; none after it is evaluated. -/
  | fails {before after : List Condition} {c : Condition} {f : Fault} {q q' : Progress}
      (declared : r.conditions = before ++ c :: after) (held : Condition.Hold resolve before p q)
      (failed : c.Judged resolve q (.error f) q') :
      Checked resolve r p (.error f) q'

namespace Rule

variable {resolve : Resolver} {r : Rule} {p q : Progress}

theorem Checked.runFrom_check {result : Except Fault Bool} (checked : r.Checked resolve p result q) :
    runFrom (r.check resolve) p = (result, q) := by
  cases checked with
  | holds held =>
      have all := held.runFrom_allHold []
      rw [List.append_nil] at all
      rw [check, runFrom_bind, all]
      rfl
  | stops declared held broken =>
      rw [check, declared, runFrom_bind, held.runFrom_allHold, Condition.allHold_cons,
        runFrom_bind_ok broken]
      rfl
  | fails declared held failed =>
      rw [check, declared, runFrom_bind, held.runFrom_allHold, Condition.allHold_cons,
        runFrom_bind_fault failed]

theorem exists_checked (resolve : Resolver) (r : Rule) (p : Progress) :
    ∃ result q, r.Checked resolve p result q := by
  rcases InTurn.all_or_first (Condition.exists_judged resolve) (· = true) r.conditions p with
    ⟨verdicts, q, held, holds⟩ |
      ⟨before, c, after, verdicts, q, result, q', declared, held, holds, judged, other⟩
  · exact ⟨_, _, .holds ⟨verdicts, held, holds⟩⟩
  · match result with
    | .error f => exact ⟨_, _, .fails declared ⟨verdicts, held, holds⟩ judged⟩
    | .ok false => exact ⟨_, _, .stops declared ⟨verdicts, held, holds⟩ judged⟩
    | .ok true => exact (other true rfl rfl).elim

/-- The engine checks a rule as its conditions say. -/
theorem runFrom_check_iff {result : Except Fault Bool} :
    runFrom (r.check resolve) p = (result, q) ↔ r.Checked resolve p result q := by
  constructor
  · intro ran
    obtain ⟨result', q', checked⟩ := exists_checked resolve r p
    cases ran.symm.trans checked.runFrom_check
    exact checked
  · exact Checked.runFrom_check

/-- The rules that are satisfied, in order, where each has its verdict. -/
def withVerdict (rules : List Rule) (verdicts : List Bool) : List Rule :=
  ((rules.zip verdicts).filter Prod.snd).map Prod.fst

theorem withVerdict_cons (r : Rule) (rules : List Rule) (holds : Bool) (verdicts : List Bool) :
    withVerdict (r :: rules) (holds :: verdicts) =
      if holds then r :: withVerdict rules verdicts else withVerdict rules verdicts := by
  cases holds <;> rfl

/-- What comes of rules after others that were checked without a fault. -/
theorem runFrom_satisfied {rules : List Rule} {verdicts : List Bool}
    (checked : InTurn (fun r => r.Checked resolve) rules p verdicts q) (rest : List Rule) :
    runFrom (satisfied resolve (rules ++ rest)) p =
      runFrom (do return withVerdict rules verdicts ++ (← satisfied resolve rest)) q := by
  induction checked with
  | nil p =>
      rw [runFrom_return, List.nil_append]
      rcases runFrom (satisfied resolve rest) p with ⟨result, q⟩
      cases result <;> rfl
  | @cons r rules holds verdicts p p' q first later ih =>
      rw [List.cons_append, satisfied, runFrom_bind_ok first.runFrom_check, runFrom_return, ih,
        runFrom_return, runFrom_return, withVerdict_cons]
      rcases runFrom (satisfied resolve rest) q with ⟨result, q'⟩
      cases result <;> cases holds <;> rfl

end Rule

/-! ## Tables -/

/-- How the selection of a rule ends. -/
inductive Table.Selected (resolve : Resolver) (t : Table) (p : Progress) :
    Except Fault Rule → Progress → Prop
  /-- A rule fails after others were checked, whatever their verdicts are; none after it is checked. -/
  | fails {before after : List Rule} {r : Rule} {verdicts : List Bool} {f : Fault} {q q' : Progress}
      (declared : t.rules = before ++ r :: after)
      (checked : InTurn (fun r => r.Checked resolve) before p verdicts q)
      (failed : r.Checked resolve q (.error f) q') : Selected resolve t p (.error f) q'
  /-- No rule is satisfied. -/
  | fallback {verdicts : List Bool} {q : Progress}
      (checked : InTurn (fun r => r.Checked resolve) t.rules p verdicts q)
      (none : Rule.withVerdict t.rules verdicts = []) :
      Selected resolve t p (.ok t.otherwise) (q.reported (.table t.name t.otherwise.name))
  /-- One rule is satisfied. -/
  | single {verdicts : List Bool} {r : Rule} {q : Progress}
      (checked : InTurn (fun r => r.Checked resolve) t.rules p verdicts q)
      (one : Rule.withVerdict t.rules verdicts = [r]) :
      Selected resolve t p (.ok r) (q.reported (.table t.name r.name))
  /-- Several rules are satisfied. -/
  | ambiguous {verdicts : List Bool} {q : Progress}
      (checked : InTurn (fun r => r.Checked resolve) t.rules p verdicts q)
      (several : 2 ≤ (Rule.withVerdict t.rules verdicts).length) :
      Selected resolve t p (.error (.engine (.ambiguousRules t.name
        ((Rule.withVerdict t.rules verdicts).map Rule.name)))) q

namespace Table

variable {resolve : Resolver} {t : Table} {p q : Progress}

theorem Selected.runFrom_select {result : Except Fault Rule} (selected : t.Selected resolve p result q) :
    runFrom (t.select resolve) p = (result, q) := by
  have all : ∀ {verdicts q}, InTurn (fun r => r.Checked resolve) t.rules p verdicts q →
      runFrom (Rule.satisfied resolve t.rules) p = (.ok (Rule.withVerdict t.rules verdicts), q) := by
    intro verdicts q checked
    have ran := Rule.runFrom_satisfied checked []
    rw [List.append_nil, runFrom_return] at ran
    rw [ran]
    exact congrArg (fun rules => (Except.ok rules, q)) (List.append_nil _)
  rw [select, runFrom_return, satisfiedRule?]
  cases selected with
  | fails declared checked failed =>
      rw [declared, runFrom_bind, Rule.runFrom_satisfied checked, runFrom_return, Rule.satisfied,
        runFrom_bind_fault failed.runFrom_check]
      rfl
  | fallback checked none =>
      rw [runFrom_bind_ok (all checked), none]
      rfl
  | single checked one =>
      rw [runFrom_bind_ok (all checked), one]
      rfl
  | ambiguous checked several =>
      rw [runFrom_bind_ok (all checked)]
      match found : Rule.withVerdict t.rules _, several with
      | _ :: _ :: _, _ => rfl

theorem exists_selected (resolve : Resolver) (t : Table) (p : Progress) :
    ∃ result q, t.Selected resolve p result q := by
  rcases InTurn.all_or_first (Rule.exists_checked resolve) (fun _ => True) t.rules p with
    ⟨verdicts, q, checked, _⟩ | ⟨before, r, after, verdicts, q, result, q', declared, checked, _, judged, other⟩
  · match found : Rule.withVerdict t.rules verdicts with
    | [] => exact ⟨_, _, .fallback checked found⟩
    | [r] => exact ⟨_, _, .single checked found⟩
    | _ :: _ :: _ => exact ⟨_, _, .ambiguous checked (by rw [found]; exact Nat.le_add_left 2 _)⟩
  · match result with
    | .error f => exact ⟨_, _, .fails declared checked judged⟩
    | .ok holds => exact (other holds rfl trivial).elim

/-- The engine selects the rule of a table as the checks of its rules say. -/
theorem runFrom_select_iff {result : Except Fault Rule} :
    runFrom (t.select resolve) p = (result, q) ↔ t.Selected resolve p result q := by
  constructor
  · intro ran
    obtain ⟨result', q', selected⟩ := exists_selected resolve t p
    cases ran.symm.trans selected.runFrom_select
    exact selected
  · exact Selected.runFrom_select

end Table

/-- In every context the selection from a table is exact: its rules are checked in order, each as a
conjunction from left to right, and there is one way in which this ends.  The first failure is the
result, whatever was satisfied before it; without a failure it is the single satisfied rule, else the
fallback, else an error with the names of all satisfied rules.  The outcome is that of the rule. -/
theorem ContextId.selection_is_exact (σ : Store) (ctx : ContextId) (t : Table) :
    ∃ result q,
      (∀ result' q', t.Selected (σ.resolver ctx) (σ.progress ctx) result' q' ↔
        result' = result ∧ q' = q) ∧
      runFrom (ctx.evaluate fun resolve => t.select resolve) σ = (result, σ.withProgress ctx q) ∧
      runFrom (ctx.evaluate fun resolve => t.decide resolve) σ =
        (result.map Rule.outcome, σ.withProgress ctx q) := by
  rcases ran : runFrom (t.select (σ.resolver ctx)) (σ.progress ctx) with ⟨result, q⟩
  refine ⟨result, q, fun result' q' => ?_, ?_, ?_⟩
  · rw [← Table.runFrom_select_iff, ran, Prod.mk.injEq, eq_comm, @eq_comm _ q]
  · rw [ctx.runFrom_evaluate, ran]
  · rw [ctx.runFrom_evaluate, Table.decide, runFrom_return, ran]

end DecisionTables
