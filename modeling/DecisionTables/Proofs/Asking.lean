import DecisionTables.Proofs.Retaining

/-!
# Which coordinates an evaluation asks for

Conditions stop at the first that does not hold, and everything stops at a fault.  What
is asked for depends on the answers, so it is listed together with the progress at
which it is asked.  A step runs too deep exactly where a coordinate that it asks for
does.
-/

namespace DecisionTables

/-! ## What is asked for -/

/-- The coordinates that are resolved until a condition does not hold. -/
def Condition.asked (resolve : Resolver) : List Condition → Progress → List (Coordinate × Progress)
  | [], _ => []
  | c :: rest, p =>
    (c.subject, p) ::
      match runFrom (c.evaluate resolve) p with
      | (.ok (true, _), p') => asked resolve rest p'
      | _ => []

/-- The coordinates that are resolved to check rules one after the other. -/
def Rule.asked (resolve : Resolver) : List Rule → Progress → List (Coordinate × Progress)
  | [], _ => []
  | rule :: rest, p =>
    Condition.asked resolve rule.conditions p ++
      match runFrom (rule.check resolve) p with
      | (.ok _, p') => asked resolve rest p'
      | (.error _, _) => []

/-- The coordinates that are resolved to decide a table. -/
def Table.asked (resolve : Resolver) (t : Table) (p : Progress) : List (Coordinate × Progress) :=
  Rule.asked resolve t.rules p

/-- A step ends with a fault. -/
def FailsWith {α : Type} (f : Fault) (x : Evaluation α) (p : Progress) : Prop :=
  (runFrom x p).1 = .error f

/-- A step is cut off for lack of depth. -/
def CutOff {α : Type} (x : Evaluation α) (p : Progress) : Prop :=
  (runFrom x p).1 = .error .tooDeep

/-- A fault that comes from resolving a coordinate: conditions, rules and tables raise other ones
of their own. -/
structure Fault.Passed (f : Fault) : Prop where
  not_accepts : ∀ (cell : Cell) (text : String) (error : EngineError),
    cell.accepts text = .error error → f ≠ .engine error
  not_ambiguous : ∀ (table : String) (rules : List String), f ≠ .engine (.ambiguousRules table rules)

/-- A fault that no cell raises. -/
def Fault.Unjudged (f : Fault) : Prop :=
  ∀ (cell : Cell) (text : String) (error : EngineError), cell.accepts text = .error error →
    f ≠ .engine error

theorem Fault.Passed.unjudged {f : Fault} (passed : f.Passed) : f.Unjudged :=
  passed.not_accepts

theorem Fault.passed_tooDeep : Fault.Passed .tooDeep :=
  ⟨fun _ _ _ _ impossible => (by cases impossible), fun _ _ impossible => (by cases impossible)⟩

section

variable {α β : Type} {resolve : Resolver} {p : Progress} {f : Fault}

theorem failsWith_bind {x : Evaluation α} {g : α → Evaluation β} :
    FailsWith f (x >>= g) p ↔
      FailsWith f x p ∨ ∃ a p', runFrom x p = (.ok a, p') ∧ FailsWith f (g a) p' := by
  unfold FailsWith
  rcases ran : runFrom x p with ⟨result, p'⟩
  cases result with
  | ok a =>
      rw [runFrom_bind_ok ran]
      constructor
      · exact fun failed => .inr ⟨a, p', rfl, failed⟩
      · rintro (impossible | ⟨_, _, same, failed⟩)
        · cases impossible
        · cases same
          exact failed
  | error e =>
      rw [runFrom_bind_fault ran]
      constructor
      · intro failed
        cases failed
        exact .inl rfl
      · rintro (failed | ⟨_, _, impossible, _⟩)
        · cases failed
          rfl
        · cases impossible

theorem not_failsWith_pure (a : α) : ¬ FailsWith f (pure a : Evaluation α) p :=
  fun impossible => by cases impossible

theorem not_failsWith_report (e : Event) : ¬ FailsWith f (Evaluation.report e) p :=
  fun impossible => by cases impossible

/-- Where only the first part can fail like this, the whole fails like this there. -/
theorem failsWith_bind_left {x : Evaluation α} {g : α → Evaluation β}
    (later : ∀ a p', ¬ FailsWith f (g a) p') : FailsWith f (x >>= g) p ↔ FailsWith f x p := by
  rw [failsWith_bind]
  constructor
  · rintro (failed | ⟨a, p', _, failed⟩)
    · exact failed
    · exact (later a p' failed).elim
  · exact .inl

/-- Reporting an event and giving a value never fails. -/
theorem not_failsWith_told (e : Event) (a : α) :
    ¬ FailsWith f (do Evaluation.report e; return a) p := by
  rw [failsWith_bind_left fun _ _ => not_failsWith_pure a]
  exact not_failsWith_report e

namespace Fault.Unjudged

variable (unjudged : f.Unjudged)

include unjudged

theorem failsWith_evaluate (c : Condition) :
    FailsWith f (c.evaluate resolve) p ↔ FailsWith f (resolve c.subject) p := by
  refine failsWith_bind_left fun actual p' failed => ?_
  rcases failsWith_bind.mp failed with failed | ⟨holds, p'', _, failed⟩
  · cases accepts : c.cell.accepts actual with
    | ok holds =>
        rw [accepts] at failed
        exact not_failsWith_pure _ failed
    | error error =>
        rw [accepts] at failed
        exact unjudged _ _ _ accepts (Except.error.inj failed).symm
  · exact not_failsWith_told _ _ failed

theorem failsWith_allHold (cs : List Condition) :
    FailsWith f (Condition.allHold resolve cs) p ↔
      ∃ a ∈ Condition.asked resolve cs p, FailsWith f (resolve a.1) a.2 := by
  induction cs generalizing p with
  | nil =>
      constructor
      · exact fun failed => (not_failsWith_pure true failed).elim
      · rintro ⟨_, impossible, _⟩
        exact absurd impossible List.not_mem_nil
  | cons c rest ih =>
      rw [Condition.allHold, failsWith_bind, unjudged.failsWith_evaluate c, Condition.asked]
      constructor
      · rintro (failed | ⟨⟨holds, actual⟩, p', ran, failed⟩)
        · exact ⟨_, List.mem_cons_self, failed⟩
        · cases holds with
          | true =>
              rw [ran]
              obtain ⟨a, member, failed⟩ := ih.mp failed
              exact ⟨a, List.mem_cons_of_mem _ member, failed⟩
          | false => exact (not_failsWith_pure false failed).elim
      · rintro ⟨a, member, failed⟩
        rcases List.mem_cons.mp member with rfl | later
        · exact .inl failed
        · right
          split at later
          · rename_i actual p' ran
            exact ⟨(true, actual), p', ran, ih.mpr ⟨a, later, failed⟩⟩
          · exact absurd later List.not_mem_nil

theorem failsWith_check (rule : Rule) :
    FailsWith f (rule.check resolve) p ↔
      ∃ a ∈ Condition.asked resolve rule.conditions p, FailsWith f (resolve a.1) a.2 := by
  rw [← unjudged.failsWith_allHold]
  exact failsWith_bind_left fun holds p' => not_failsWith_told _ _

theorem failsWith_satisfied (rules : List Rule) :
    FailsWith f (Rule.satisfied resolve rules) p ↔
      ∃ a ∈ Rule.asked resolve rules p, FailsWith f (resolve a.1) a.2 := by
  induction rules generalizing p with
  | nil =>
      constructor
      · exact fun failed => (not_failsWith_pure [] failed).elim
      · rintro ⟨_, impossible, _⟩
        exact absurd impossible List.not_mem_nil
  | cons rule rest ih =>
      rw [Rule.satisfied, failsWith_bind, unjudged.failsWith_check rule, Rule.asked]
      have others : ∀ holds p', FailsWith f (do
          let others ← Rule.satisfied resolve rest
          return if holds = true then rule :: others else others) p' ↔
            FailsWith f (Rule.satisfied resolve rest) p' := fun holds p' =>
        failsWith_bind_left fun _ _ => not_failsWith_pure _
      constructor
      · rintro (⟨a, member, failed⟩ | ⟨holds, p', ran, failed⟩)
        · exact ⟨a, List.mem_append_left _ member, failed⟩
        · obtain ⟨a, member, failed⟩ := ih.mp ((others holds p').mp failed)
          rw [ran]
          exact ⟨a, List.mem_append_right _ member, failed⟩
      · rintro ⟨a, member, failed⟩
        rcases List.mem_append.mp member with now | later
        · exact .inl ⟨a, now, failed⟩
        · right
          split at later
          · rename_i holds p' ran
            exact ⟨holds, p', ran, (others holds p').mpr (ih.mpr ⟨a, later, failed⟩)⟩
          · exact absurd later List.not_mem_nil

end Fault.Unjudged

/-- A table fails with a fault that it passes on exactly where a coordinate does that it asks for. -/
theorem Fault.Passed.failsWith_decide (passed : f.Passed) (t : Table) :
    FailsWith f (t.decide resolve) p ↔ ∃ a ∈ t.asked resolve p, FailsWith f (resolve a.1) a.2 := by
  rw [Table.asked, ← passed.unjudged.failsWith_satisfied]
  have selected : FailsWith f (t.satisfiedRule? resolve) p ↔
      FailsWith f (Rule.satisfied resolve t.rules) p := by
    refine failsWith_bind_left fun rules p' failed => ?_
    cases rules with
    | nil => exact not_failsWith_told _ _ failed
    | cons rule rest =>
        cases rest with
        | nil => exact not_failsWith_told _ _ failed
        | cons _ _ => exact passed.not_ambiguous _ _ (Except.error.inj failed).symm
  rw [← selected, Table.decide, failsWith_bind_left fun _ _ => not_failsWith_pure _, Table.select,
    failsWith_bind_left fun _ _ => not_failsWith_pure _]

/-! ## What is cut off -/

theorem cutOff_bind {x : Evaluation α} {g : α → Evaluation β} :
    CutOff (x >>= g) p ↔
      CutOff x p ∨ ∃ a p', runFrom x p = (.ok a, p') ∧ CutOff (g a) p' :=
  failsWith_bind

theorem not_cutOff_pure (a : α) : ¬ CutOff (pure a : Evaluation α) p :=
  not_failsWith_pure a

theorem not_cutOff_fail (error : EngineError) :
    ¬ CutOff (Evaluation.fail error : Evaluation α) p :=
  fun impossible => by cases impossible

theorem cutOff_bind_left {x : Evaluation α} {g : α → Evaluation β}
    (later : ∀ a p', ¬ CutOff (g a) p') : CutOff (x >>= g) p ↔ CutOff x p :=
  failsWith_bind_left later

theorem Condition.cutOff_evaluate (c : Condition) :
    CutOff (c.evaluate resolve) p ↔ CutOff (resolve c.subject) p :=
  Fault.passed_tooDeep.unjudged.failsWith_evaluate c

/-- A table is cut off exactly where a coordinate is that it asks for. -/
theorem Table.cutOff_decide (t : Table) :
    CutOff (t.decide resolve) p ↔ ∃ a ∈ t.asked resolve p, CutOff (resolve a.1) a.2 :=
  Fault.passed_tooDeep.failsWith_decide t

/-- Where no coordinate is cut off, nothing is. -/
theorem Uniform.not_cutOff {step : Resolver → Evaluation α} (uniform : Uniform step)
    (resolves : ∀ c p, ¬ CutOff (resolve c) p) (p : Progress) : ¬ CutOff (step resolve) p := by
  have respected : Respected fun _ x _ => ∀ p, ¬ CutOff x p :=
    { pure := fun a _ => not_cutOff_pure a
      fail := fun error _ => not_cutOff_fail error
      report := fun e _ => not_failsWith_report e
      bind := by
        intro α β x y f g first rest p cut
        rcases cutOff_bind.mp cut with cut | ⟨a, p', _, cut⟩
        · exact first p cut
        · exact rest a p' cut }
  exact uniform _ respected resolve resolve resolves p

/-! ## What every progress on the way keeps -/

/-- A relation of the progress before and after that every evaluation respects. -/
structure Along (I : Progress → Progress → Prop) : Prop where
  refl : ∀ p, I p p
  trans : ∀ p q r, I p q → I q r → I p r
  reported : ∀ p e, I p (p.reported e)

variable {I : Progress → Progress → Prop}

theorem Along.respected (along : Along I) :
    Respected fun _ x _ => ∀ p, I p (runFrom x p).2 where
  pure _ p := along.refl p
  fail _ p := along.refl p
  report e p := along.reported p e
  bind := by
    intro α β x y f g first rest p
    rw [runFrom_bind]
    have before := first p
    revert before
    rcases runFrom x p with ⟨result, p'⟩
    intro before
    cases result with
    | ok a => exact along.trans _ _ _ before (rest a p')
    | error f => exact before

theorem Uniform.along {step : Resolver → Evaluation α} (uniform : Uniform step) (along : Along I)
    (resolves : ∀ c p, I p (runFrom (resolve c) p).2) (p : Progress) :
    I p (runFrom (step resolve) p).2 :=
  uniform _ along.respected resolve resolve resolves p

/-- Deciding a table keeps what entering and leaving it keep, and what remembering it keeps if it was
not known. -/
theorem Table.along_decideOnce (along : Along I) (resolves : ∀ c p, I p (runFrom (resolve c) p).2)
    (t : Table) (leaves : ∀ p q, I (p.entering t.name) q → I p (q.leaving t.name))
    (knows : ∀ p q outcome, p.memo.outcomes.find? t.name = none → I p q →
      I p (q.knowing t.name outcome)) (p : Progress) :
    I p (runFrom (t.decideOnce resolve) p).2 := by
  have kept := t.uniform_decide.along along resolves (p.entering t.name)
  cases t.once resolve p with
  | known _ _ ran =>
      rw [ran]
      exact along.refl p
  | cyclic _ _ ran =>
      rw [ran]
      exact along.refl p
  | value outcome p' unknown _ decided ran =>
      rw [decided] at kept
      rw [ran]
      exact knows p _ outcome unknown (leaves p p' kept)
  | fault f p' _ _ decided ran =>
      rw [decided] at kept
      rw [ran]
      exact leaves p p' kept

/-- Evaluating a named condition keeps what remembering it keeps if it was not known. -/
theorem Condition.along_decideOnce (along : Along I)
    (resolves : ∀ c p, I p (runFrom (resolve c) p).2) (c : Condition) (id : SourceId)
    (name : String)
    (judges : ∀ p q text, p.memo.verdicts.find? (id, name) = none → I p q →
      I p (q.judged id name text)) (p : Progress) :
    I p (runFrom (c.decideOnce resolve id name) p).2 := by
  have kept := c.uniform_evaluate.along along resolves p
  cases c.once resolve id name p with
  | known _ _ ran =>
      rw [ran]
      exact along.refl p
  | value result p' unknown evaluated ran =>
      rw [evaluated] at kept
      rw [ran]
      exact judges p p' _ unknown kept
  | fault f p' _ evaluated ran =>
      rw [evaluated] at kept
      rw [ran]
      exact kept

theorem Condition.along_asked (along : Along I) (resolves : ∀ c p, I p (runFrom (resolve c) p).2)
    (cs : List Condition) (p : Progress) : ∀ a ∈ Condition.asked resolve cs p, I p a.2 := by
  induction cs generalizing p with
  | nil => exact fun _ impossible => absurd impossible List.not_mem_nil
  | cons c rest ih =>
      intro a member
      rw [Condition.asked] at member
      have evaluated := c.uniform_evaluate.along along resolves p
      rcases List.mem_cons.mp member with rfl | later
      · exact along.refl p
      · split at later
        · rename_i p' ran
          rw [ran] at evaluated
          exact along.trans _ _ _ evaluated (ih p' a later)
        · exact absurd later List.not_mem_nil

theorem Rule.along_asked (along : Along I) (resolves : ∀ c p, I p (runFrom (resolve c) p).2)
    (rules : List Rule) (p : Progress) : ∀ a ∈ Rule.asked resolve rules p, I p a.2 := by
  induction rules generalizing p with
  | nil => exact fun _ impossible => absurd impossible List.not_mem_nil
  | cons rule rest ih =>
      intro a member
      rw [Rule.asked] at member
      have checked := rule.uniform_check.along along resolves p
      rcases List.mem_append.mp member with now | later
      · exact Condition.along_asked along resolves rule.conditions p a now
      · split at later
        · rename_i p' ran
          rw [ran] at checked
          exact along.trans _ _ _ checked (ih p' a later)
        · exact absurd later List.not_mem_nil

/-- Whatever is asked for on the way to a decision is asked for at progress of this kind. -/
theorem Table.along_asked (along : Along I) (resolves : ∀ c p, I p (runFrom (resolve c) p).2)
    (t : Table) (p : Progress) : ∀ a ∈ t.asked resolve p, I p a.2 :=
  Rule.along_asked along resolves t.rules p

end

end DecisionTables
