import Mathlib
import DecisionTables.Proofs.Permuting
import DecisionTables.Proofs.Selecting

/-!
# Conditions only guard each other

The conditions of a rule are evaluated up to the first that does not hold, so their order
decides which coordinates are resolved at all.  It does not decide whether the rule is
satisfied.  In another order of its conditions a satisfied rule is satisfied, and one that is
not is not, wherever there is a verdict in both orders; this is so even where the texts of
coordinates are only known to be the same wherever they are given on both sides.
-/

namespace DecisionTables

/-- Two functions give a coordinate the same text wherever both give it one. -/
def Agreeing (text text' : Coordinate → Except Fault String) : Prop :=
  ∀ c s s', text c = .ok s → text' c = .ok s' → s = s'

theorem Agreeing.refl (text : Coordinate → Except Fault String) : Agreeing text text :=
  fun _ _ _ given given' => Except.ok.inj (given.symm.trans given')

variable {text text' : Coordinate → Except Fault String}

/-! ## Conditions -/

namespace Condition

/-- Whether a condition holds where coordinates have certain texts. -/
def holdsBy (text : Coordinate → Except Fault String) (c : Condition) : Except Fault Bool :=
  (c.resultBy text).map Prod.fst

/-- The result of a condition is what its cell makes of the text of its subject. -/
theorem runFrom_evaluate (text : Coordinate → Except Fault String) (c : Condition) (p : Progress) :
    (runFrom (c.evaluate (.ofTexts text)) p).1 =
      match text c.subject with
      | .error f => .error f
      | .ok actual =>
        match c.cell.accepts actual with
        | .error error => .error (.engine error)
        | .ok holds => .ok (holds, actual) := by
  have resolved : runFrom (Resolver.ofTexts text c.subject) p = (text c.subject, p) := rfl
  rw [evaluate, runFrom_bind, resolved]
  cases text c.subject with
  | error f => rfl
  | ok actual =>
      dsimp only
      cases c.cell.accepts actual <;> rfl

theorem resultBy_eq (text : Coordinate → Except Fault String) (c : Condition) (p : Progress) :
    (runFrom (c.evaluate (.ofTexts text)) p).1 = c.resultBy text := by
  rw [resultBy, runFrom_evaluate, runFrom_evaluate]

theorem accepts_of_resultBy {c : Condition} {result : Bool × String} (found : c.resultBy text = .ok result) :
    text c.subject = .ok result.2 ∧ c.cell.accepts result.2 = .ok result.1 := by
  rw [resultBy, runFrom_evaluate] at found
  split at found
  · cases found
  · rename_i actual given
    split at found
    · cases found
    · rename_i holds accepted
      cases found
      exact ⟨given, accepted⟩

theorem Judged.holdsBy_eq {c : Condition} {p q : Progress} {result : Except Fault Bool}
    (judged : c.Judged (.ofTexts text) p result q) : c.holdsBy text = result := by
  rw [Judged, runFrom_return, resultBy_eq, Prod.mk.injEq] at judged
  exact judged.1

/-- A condition gives one result where the text of its subject is one. -/
theorem resultBy_agreeing (agreeing : Agreeing text text') {c : Condition} {result result' : Bool × String}
    (found : c.resultBy text = .ok result) (found' : c.resultBy text' = .ok result') :
    result = result' := by
  obtain ⟨actual, accepted⟩ := accepts_of_resultBy found
  obtain ⟨actual', accepted'⟩ := accepts_of_resultBy found'
  have same := agreeing c.subject _ _ actual actual'
  rw [same, accepted'] at accepted
  exact Prod.ext (Except.ok.inj accepted).symm same

theorem holdsBy_agreeing (agreeing : Agreeing text text') {c : Condition} {holds holds' : Bool}
    (found : c.holdsBy text = .ok holds) (found' : c.holdsBy text' = .ok holds') : holds = holds' := by
  unfold holdsBy at found found'
  cases judged : c.resultBy text with
  | error f =>
      rw [judged] at found
      cases found
  | ok result =>
      cases judged' : c.resultBy text' with
      | error f =>
          rw [judged'] at found'
          cases found'
      | ok result' =>
          rw [judged] at found
          rw [judged'] at found'
          cases found
          cases found'
          exact congrArg Prod.fst (resultBy_agreeing agreeing judged judged')

/-- Conditions that hold in turn hold each for itself. -/
theorem Hold.holdsBy {cs : List Condition} {p q : Progress} (held : Hold (.ofTexts text) cs p q) :
    ∀ c ∈ cs, c.holdsBy text = .ok true := by
  obtain ⟨verdicts, inTurn, holds⟩ := held
  induction inTurn with
  | nil => exact fun _ impossible => absurd impossible List.not_mem_nil
  | cons first later ih =>
      obtain ⟨rfl, others⟩ := List.forall_mem_cons.mp holds
      exact List.forall_mem_cons.mpr ⟨Judged.holdsBy_eq first, ih others⟩

end Condition

/-! ## Rules -/

namespace Rule

variable {r r' : Rule}

theorem checked_of_holdsBy {result : Except Fault Bool} (found : r.holdsBy text = result) :
    ∃ q, r.Checked (.ofTexts text) .start result q :=
  ⟨_, runFrom_check_iff.mp (Prod.ext found rfl)⟩

/-- A rule is satisfied exactly where each of its conditions holds. -/
theorem holdsBy_eq_true_iff :
    r.holdsBy text = .ok true ↔ ∀ c ∈ r.conditions, c.holdsBy text = .ok true := by
  constructor
  · intro satisfied
    obtain ⟨q, checked⟩ := checked_of_holdsBy satisfied
    cases checked with
    | holds held => exact held.holdsBy
  · intro holds
    have inside : ∀ {before after : List Condition} {c : Condition}, r.conditions = before ++ c :: after →
        c.holdsBy text = .ok true := fun declared =>
      holds _ (declared ▸ List.mem_append_right _ List.mem_cons_self)
    obtain ⟨q, checked⟩ := checked_of_holdsBy (r := r) rfl
    cases result : r.holdsBy text with
    | error f =>
        rw [result] at checked
        cases checked with
        | fails declared _ failed => cases (inside declared).symm.trans failed.holdsBy_eq
    | ok verdict =>
        rw [result] at checked
        cases checked with
        | holds => rfl
        | stops declared _ broken => cases (inside declared).symm.trans broken.holdsBy_eq

/-- A rule that is not satisfied has a condition that does not hold. -/
theorem exists_of_holdsBy_false (unsatisfied : r.holdsBy text = .ok false) :
    ∃ c ∈ r.conditions, c.holdsBy text = .ok false := by
  obtain ⟨q, checked⟩ := checked_of_holdsBy unsatisfied
  cases checked with
  | stops declared _ broken =>
      exact ⟨_, declared ▸ List.mem_append_right _ List.mem_cons_self, broken.holdsBy_eq⟩

/-- What is satisfied in one order of its conditions is satisfied in every order. -/
theorem holdsBy_true_of_perm (permuted : r.conditions.Perm r'.conditions)
    (satisfied : r.holdsBy text = .ok true) : r'.holdsBy text = .ok true :=
  holdsBy_eq_true_iff.mpr fun c member =>
    holdsBy_eq_true_iff.mp satisfied c (permuted.mem_iff.mpr member)

/-- In two orders of its conditions a rule has one verdict, wherever it has one in both. -/
theorem holdsBy_agreeing (permuted : r.conditions.Perm r'.conditions) (agreeing : Agreeing text text')
    {holds holds' : Bool} (found : r.holdsBy text = .ok holds) (found' : r'.holdsBy text' = .ok holds') :
    holds = holds' := by
  cases holds with
  | true =>
      cases holds' with
      | true => rfl
      | false =>
          obtain ⟨c, member, broken⟩ := exists_of_holdsBy_false found'
          have held := holdsBy_eq_true_iff.mp found c (permuted.mem_iff.mpr member)
          exact Condition.holdsBy_agreeing agreeing held broken
  | false =>
      cases holds' with
      | false => rfl
      | true =>
          obtain ⟨c, member, broken⟩ := exists_of_holdsBy_false found
          have held := holdsBy_eq_true_iff.mp found' c (permuted.mem_iff.mp member)
          exact Condition.holdsBy_agreeing agreeing broken held

end Rule

end DecisionTables
