import DecisionTables.Proofs.Ending

/-!
# What decisions come to

A decision gives texts or an error of the engine, unless it is cut off.  With all the
room it needs it is cut off exactly where it comes to named conditions that refer to
each other without an end; a table that needs its own outcome is reported instead.
-/

namespace DecisionTables

/-- A result, or an error of the engine. -/
def Answered {α : Type} (result : Except Fault α) : Prop :=
  (∃ a, result = .ok a) ∨ ∃ error, result = .error (.engine error)

theorem Answered.not_cutOff {α : Type} {result : Except Fault α} (answered : Answered result) :
    result ≠ .error .tooDeep := by
  rintro rfl
  rcases answered with ⟨_, impossible⟩ | ⟨_, impossible⟩
  · cases impossible
  · cases impossible

/-- A fault is an answer or comes from being cut off, whatever value there would have been. -/
theorem answered_or_tooDeep {α β : Type} {f : Fault}
    (ended : Answered (.error f : Except Fault α) ∨ (.error f : Except Fault α) = .error .tooDeep) :
    Answered (.error f : Except Fault β) ∨ (.error f : Except Fault β) = .error .tooDeep := by
  rcases ended with (⟨_, impossible⟩ | ⟨error, same⟩) | cut
  · cases impossible
  · cases same
    exact .inl (.inr ⟨error, rfl⟩)
  · cases cut
    exact .inr rfl

/-! ## Results -/

/-- An evaluation comes to an answer or is cut off, from wherever it starts. -/
def Concludes {α : Type} (x : Evaluation α) : Prop :=
  ∀ p, Answered (runFrom x p).1 ∨ CutOff x p

theorem respected_concludes : Respected fun _ x _ => Concludes x where
  pure a _ := .inl (.inl ⟨a, rfl⟩)
  fail error _ := .inl (.inr ⟨error, rfl⟩)
  report _ _ := .inl (.inl ⟨(), rfl⟩)
  bind := by
    intro α β x y f g first rest p
    have before := first p
    unfold CutOff at before ⊢
    rcases ran : runFrom x p with ⟨result, p'⟩
    rw [ran] at before
    cases result with
    | ok a =>
        rw [runFrom_bind_ok ran]
        exact rest a p'
    | error f =>
        rw [runFrom_bind_fault ran]
        exact answered_or_tooDeep before

section

variable {resolve : Resolver}

theorem Table.concludes_decideOnce (resolves : ∀ c, Concludes (resolve c)) (t : Table) :
    Concludes (t.decideOnce resolve) := by
  intro p
  have concludes := t.uniform_decide _ respected_concludes resolve resolve resolves (p.entering t.name)
  unfold CutOff at concludes ⊢
  cases t.once resolve p with
  | known outcome _ ran =>
      rw [ran]
      exact .inl (.inl ⟨outcome, rfl⟩)
  | cyclic _ _ ran =>
      rw [ran]
      exact .inl (.inr ⟨_, rfl⟩)
  | value _ _ _ _ decided ran =>
      rw [decided] at concludes
      rw [ran]
      exact concludes
  | fault _ _ _ _ decided ran =>
      rw [decided] at concludes
      rw [ran]
      exact concludes

theorem Condition.concludes_decideOnce (resolves : ∀ c, Concludes (resolve c)) (c : Condition)
    (id : SourceId) (name : String) : Concludes (c.decideOnce resolve id name) := by
  intro p
  have concludes := c.uniform_evaluate _ respected_concludes resolve resolve resolves p
  unfold CutOff at concludes ⊢
  cases c.once resolve id name p with
  | known text _ ran =>
      rw [ran]
      exact .inl (.inl ⟨text, rfl⟩)
  | value _ _ _ _ ran =>
      rw [ran]
      exact .inl (.inl ⟨_, rfl⟩)
  | fault _ _ _ evaluated ran =>
      rw [evaluated] at concludes
      rw [ran]
      exact answered_or_tooDeep concludes

theorem Source.answered_pick (t : Table) (fragment : String) (outcome : Outcome) :
    Answered (Source.pick t fragment outcome) := by
  unfold Source.pick
  cases outcome.find? fragment with
  | none => exact .inr ⟨_, rfl⟩
  | some text => exact .inl ⟨text, rfl⟩

/-- Reading comes to an answer or is cut off, but for a source from which nothing can be read. -/
theorem Source.concludes_read (resolves : ∀ c, Concludes (resolve c)) {source : Source}
    (provided : source.content ≠ .bare) (id : SourceId) (fragment : String) :
    Concludes (source.read resolve id fragment) := by
  obtain ⟨name, content⟩ := source
  cases content with
  | memory kind values defaults =>
      cases found : values.find? (.text fragment) with
      | none => simpa only [read, found] using respected_concludes.fail _
      | some value => simpa only [read, found] using respected_concludes.pure _
  | constant => exact respected_concludes.pure fragment
  | table t =>
      intro p
      have decided := t.concludes_decideOnce resolves p
      unfold CutOff at decided ⊢
      rw [runFrom_read_table rfl]
      revert decided
      rcases runFrom (t.decideOnce resolve) p with ⟨result, p'⟩
      intro decided
      cases result with
      | ok outcome => exact .inl (answered_pick t fragment outcome)
      | error f => exact answered_or_tooDeep decided
  | conditions named =>
      cases found : named.find? fragment with
      | none => simpa only [read, found] using respected_concludes.fail _
      | some c => simpa only [read, found] using c.concludes_decideOnce resolves id fragment
  | bare => exact (provided rfl).elim

end

namespace Scope

variable {scope : Scope}

/-- Something can be read from every source in scope. -/
def Provided (scope : Scope) : Prop :=
  ∀ entry ∈ scope, entry.2.2.content ≠ .bare

theorem Provided.concludes (provided : scope.Provided) (depth : Nat) (room : Option Nat)
    (c : Coordinate) : Concludes (scope.resolveWithin depth room c) := by
  induction depth generalizing room c with
  | zero => exact fun p => .inr rfl
  | succ depth ih =>
      rw [resolveWithin]
      cases found : Assoc.find? scope (.text c.source) with
      | none => exact respected_concludes.fail _
      | some entry =>
          obtain ⟨id, source⟩ := entry
          obtain ⟨key, _, member⟩ := Assoc.exists_mem_of_find? found
          have readable := provided _ member
          have cut : ∀ c, Concludes ((fun _ => throw .tooDeep : Resolver) c) := fun _ _ => .inr rfl
          cases left : roomBelow source room with
          | none =>
              simp only [left]
              exact Source.concludes_read cut readable id c.fragment
          | some room' =>
              simp only [left]
              exact Source.concludes_read (ih room') readable id c.fragment

/-! ## Named conditions without an end are never remembered -/

/-- No result is remembered of named conditions without an end. -/
def Clear (scope : Scope) (p : Progress) : Prop :=
  ∀ (c : Coordinate) (id : SourceId) (source : Source),
    Assoc.find? scope (.text c.source) = some (id, source) → scope.Endless c →
      p.memo.verdicts.find? (id, c.fragment) = none

theorem Clear.retained {R : Retention} {p : Progress} (clear : scope.Clear p) :
    scope.Clear (p.retained R) := by
  intro c id source found endless
  cases known : (p.retained R).memo.verdicts.find? (id, c.fragment) with
  | none => rfl
  | some text =>
      have before := R.verdicts known
      rw [clear c id source found endless] at before
      cases before

theorem endless_iff_of_follow {c next : Coordinate} (follows : scope.follow c = some next) :
    scope.Endless c ↔ scope.Endless next := by
  constructor
  · intro endless
    obtain ⟨_, follows', endless'⟩ := endless.follow
    rw [follows] at follows'
    cases follows'
    exact endless'
  · intro endless n
    cases n with
    | zero => exact Option.some_ne_none c
    | succ n =>
        rw [chain, follows]
        exact endless n

theorem follow_direct {c : Coordinate} {id : SourceId} {source : Source}
    (found : Assoc.find? scope (.text c.source) = some (id, source))
    {result : Except Fault String} (direct : source.direct? c.fragment = some result) :
    scope.follow c = none := by
  cases follows : scope.follow c with
  | none => rfl
  | some next =>
      obtain ⟨id', source', named, condition, found', content, registered, _⟩ :=
        condition_of_follow follows
      rw [found] at found'
      cases found'
      unfold Source.direct? at direct
      simp only [content, registered] at direct
      cases direct

/-- The result of named conditions that come to an end may be remembered. -/
theorem Clear.judged (coherent : scope.Coherent) {p : Progress} (clear : scope.Clear p)
    {c : Coordinate} {id : SourceId} {source : Source}
    (found : Assoc.find? scope (.text c.source) = some (id, source)) {named : Assoc String Condition}
    (content : source.content = .conditions named) {condition : Condition}
    (registered : named.find? c.fragment = some condition) (ends : ¬ scope.Endless c)
    (text : String) : scope.Clear (p.judged id c.fragment text) := by
  intro e id' source' found' endless
  by_cases same : (id, c.fragment) = (id', e.fragment)
  · have fragment : c.fragment = e.fragment := congrArg Prod.snd same
    obtain rfl : id = id' := congrArg Prod.fst same
    obtain rfl := coherent _ _ _ _ _ found found'
    have endless' := (endless_iff_of_follow
      (follow_of_condition found' content (fragment ▸ registered))).mp endless
    exact (ends ((endless_iff_of_follow
      (follow_of_condition found content registered)).mpr endless')).elim
  · have apart : ((id, c.fragment) == (id', e.fragment)) = false :=
      beq_eq_false_iff_ne.mpr same
    refine Eq.trans (Assoc.find?_insert_of_ne _ _ apart) ?_
    exact clear e id' source' found' endless

end Scope

end DecisionTables
