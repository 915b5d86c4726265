import DecisionTables.Proofs.Running
import DecisionTables.SelfTest

/-!
# Tracking one evaluation by another

Conditions, rules and tables learn of the sources only by resolving coordinates.
So when two resolvers go along with each other, the evaluations that use them do so
as well, whatever is meant by going along.  A `Tracking` fixes a relation of the
progress on both sides and the faults at which the two may part.
-/

namespace DecisionTables

/-- The progress after one more event. -/
def Progress.reported (p : Progress) (e : Event) : Progress :=
  { p with trace := p.trace.push e }

/-- A condition that finds the text of its subject is judged by its cell and then reported. -/
theorem Condition.runFrom_evaluate_ok {resolve : Resolver} {c : Condition} {p q : Progress} {text : String}
    {holds : Bool} (read : runFrom (resolve c.subject) p = (.ok text, q))
    (accepted : c.cell.accepts text = .ok holds) :
    runFrom (c.evaluate resolve) p = (.ok (holds, text), q.reported (.condition c.text holds)) := by
  rw [evaluate, runFrom_bind_ok read, accepted]
  rfl

/-- What it means that one evaluation goes along with another. -/
structure Tracking where
  /-- How the progress of both sides is related. -/
  rel : Progress → Progress → Prop
  /-- Faults of the second side behind which nothing is claimed of the first. -/
  gaps : Fault → Prop
  /-- Faults that may end the first side before the second. -/
  slips : Fault → Prop
  rel_reported : ∀ {p q : Progress} (e : Event), rel p q → rel (p.reported e) (q.reported e)

namespace Tracking

variable {α β : Type}

/-- How two evaluations may end when the first goes along with the second. -/
inductive Ends (T : Tracking) :
    Except Fault α × Progress → Except Fault α × Progress → Prop where
  | gap {first q} {f : Fault} (gap : T.gaps f) : Ends T first (.error f, q)
  | slip {p q second} {f : Fault} (slip : T.slips f) (related : T.rel p q) :
      Ends T (.error f, p) second
  | value {p q} (a : α) (related : T.rel p q) : Ends T (.ok a, p) (.ok a, q)
  | fault {p q} (f : Fault) (related : T.rel p q) : Ends T (.error f, p) (.error f, q)

/-- The first evaluation goes along with the second from all related progress. -/
def Tracks (T : Tracking) (x y : Evaluation α) : Prop :=
  ∀ p q, T.rel p q → T.Ends (runFrom x p) (runFrom y q)

variable {T : Tracking}

/-- Where the sides may part only when the first runs too deep, it does so or gives the same. -/
theorem Ends.tooDeep_or_eq {first second : Except Fault α × Progress}
    (gaps : ∀ f, ¬ T.gaps f) (slips : ∀ f, T.slips f → f = .tooDeep)
    (ends : T.Ends first second) : first.1 = .error .tooDeep ∨ second.1 = first.1 := by
  cases ends with
  | gap gap => exact (gaps _ gap).elim
  | slip slip _ => exact .inl (congrArg Except.error (slips _ slip))
  | value a _ => exact .inr rfl
  | fault f _ => exact .inr rfl

/-- Where the sides may not part, both end with the same result. -/
theorem Ends.fst_eq {first second : Except Fault α × Progress} (gaps : ∀ f, ¬ T.gaps f)
    (slips : ∀ f, ¬ T.slips f) (ends : T.Ends first second) : first.1 = second.1 := by
  cases ends with
  | gap gap => exact (gaps _ gap).elim
  | slip slip _ => exact (slips _ slip).elim
  | value a _ => rfl
  | fault f _ => rfl

theorem tracks_pure (a : α) : T.Tracks (pure a) (pure a) :=
  fun _ _ related => .value a related

theorem tracks_throw (f : Fault) : T.Tracks (throw f : Evaluation α) (throw f) :=
  fun _ _ related => .fault f related

theorem tracks_fail (error : EngineError) :
    T.Tracks (Evaluation.fail error : Evaluation α) (Evaluation.fail error) :=
  tracks_throw (.engine error)

theorem tracks_report (e : Event) : T.Tracks (Evaluation.report e) (Evaluation.report e) :=
  fun _ _ related => .value _ (T.rel_reported e related)

theorem tracks_bind {x y : Evaluation α} {f g : α → Evaluation β}
    (first : T.Tracks x y) (rest : ∀ a, T.Tracks (f a) (g a)) :
    T.Tracks (x >>= f) (y >>= g) := by
  intro p q related
  rw [runFrom_bind, runFrom_bind]
  have ends := first p q related
  revert ends
  generalize runFrom x p = left
  generalize runFrom y q = right
  intro ends
  cases ends with
  | gap gap => exact .gap gap
  | slip slip related => exact .slip slip related
  | value a related => exact rest a _ _ related
  | fault f related => exact .fault f related

end Tracking

/-! ## Uniform steps -/

/-- A relation of evaluations that all ways to build them respect. -/
structure Respected (E : (α : Type) → Evaluation α → Evaluation α → Prop) : Prop where
  pure : ∀ {α : Type} (a : α), E α (pure a) (pure a)
  fail : ∀ {α : Type} (error : EngineError), E α (Evaluation.fail error) (Evaluation.fail error)
  report : ∀ e : Event, E Unit (Evaluation.report e) (Evaluation.report e)
  bind : ∀ {α β : Type} {x y : Evaluation α} {f g : α → Evaluation β},
    E α x y → (∀ a, E β (f a) (g a)) → E β (x >>= f) (y >>= g)

theorem Respected.ofExcept {E : (α : Type) → Evaluation α → Evaluation α → Prop}
    (respected : Respected E) {α : Type} (r : Except EngineError α) :
    E α (Evaluation.ofExcept r) (Evaluation.ofExcept r) := by
  cases r with
  | ok a => exact respected.pure a
  | error error => exact respected.fail error

theorem Tracking.respected (T : Tracking) : Respected fun _ x y => T.Tracks x y :=
  ⟨tracks_pure, tracks_fail, tracks_report, tracks_bind⟩

/-- A step that learns of the sources only by resolving coordinates. -/
def Uniform {α : Type} (step : Resolver → Evaluation α) : Prop :=
  ∀ (E : (β : Type) → Evaluation β → Evaluation β → Prop), Respected E →
    ∀ r s : Resolver, (∀ c, E String (r c) (s c)) → E α (step r) (step s)

theorem Uniform.tracks {α : Type} {step : Resolver → Evaluation α} (uniform : Uniform step)
    {T : Tracking} {r s : Resolver} (along : ∀ c, T.Tracks (r c) (s c)) :
    T.Tracks (step r) (step s) :=
  uniform _ T.respected r s along

section

theorem uniform_resolve (c : Coordinate) : Uniform fun resolve => resolve c :=
  fun _ _ _ _ along => along c

theorem Condition.uniform_evaluate (c : Condition) :
    Uniform fun resolve => c.evaluate resolve := by
  intro E respected r s along
  apply respected.bind (along c.subject)
  intro actual
  apply respected.bind (respected.ofExcept (c.cell.accepts actual))
  intro holds
  exact respected.bind (respected.report _) fun _ => respected.pure _

/-- Evaluating a condition relates two resolvers as they are related at its subject. -/
theorem Condition.respected_evaluate {E : (α : Type) → Evaluation α → Evaluation α → Prop}
    (respected : Respected E) {r s : Resolver} {c : Condition}
    (along : E String (r c.subject) (s c.subject)) :
    E (Bool × String) (c.evaluate r) (c.evaluate s) :=
  c.uniform_evaluate E respected (fun _ => r c.subject) (fun _ => s c.subject) fun _ => along

theorem Condition.uniform_allHold (cs : List Condition) :
    Uniform fun resolve => Condition.allHold resolve cs := by
  intro E respected r s along
  induction cs with
  | nil => exact respected.pure true
  | cons c rest ih =>
      apply respected.bind (c.uniform_evaluate E respected r s along)
      rintro ⟨holds, actual⟩
      cases holds with
      | true => exact ih
      | false => exact respected.pure false

theorem Condition.uniform_failures (cs : List Condition) :
    Uniform fun resolve => Condition.failures resolve cs := by
  intro E respected r s along
  induction cs with
  | nil => exact respected.pure []
  | cons c rest ih =>
      apply respected.bind (c.uniform_evaluate E respected r s along)
      rintro ⟨holds, actual⟩
      exact respected.bind ih fun _ => respected.pure _

theorem Rule.uniform_check (rule : Rule) : Uniform fun resolve => rule.check resolve := by
  intro E respected r s along
  apply respected.bind (Condition.uniform_allHold rule.conditions E respected r s along)
  intro holds
  exact respected.bind (respected.report _) fun _ => respected.pure _

theorem Rule.uniform_satisfied (rules : List Rule) :
    Uniform fun resolve => Rule.satisfied resolve rules := by
  intro E respected r s along
  induction rules with
  | nil => exact respected.pure []
  | cons rule rest ih =>
      apply respected.bind (rule.uniform_check E respected r s along)
      intro holds
      exact respected.bind ih fun _ => respected.pure _

theorem Table.uniform_satisfiedRule? (t : Table) :
    Uniform fun resolve => t.satisfiedRule? resolve := by
  intro E respected r s along
  apply respected.bind (Rule.uniform_satisfied t.rules E respected r s along)
  intro rules
  cases rules with
  | nil => exact respected.bind (respected.report _) fun _ => respected.pure _
  | cons rule rest =>
      cases rest with
      | nil => exact respected.bind (respected.report _) fun _ => respected.pure _
      | cons _ _ => exact respected.fail _

theorem Table.uniform_select (t : Table) : Uniform fun resolve => t.select resolve :=
  fun E respected r s along => respected.bind (t.uniform_satisfiedRule? E respected r s along) fun _ => respected.pure _

theorem Table.uniform_decide (t : Table) : Uniform fun resolve => t.decide resolve :=
  fun E respected r s along => respected.bind (t.uniform_select E respected r s along) fun _ => respected.pure _

end

end DecisionTables
