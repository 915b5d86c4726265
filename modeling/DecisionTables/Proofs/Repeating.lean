import DecisionTables.Proofs.Enduring

/-!
# Reading once more

A coordinate that has been read is read once more with the same text, however much was
computed in between: what a source holds does not change by reading, and what was computed
for it is remembered.  So what a condition, a rule or a table found true stays true as long
as nothing is written and nothing is forgotten.
-/

namespace DecisionTables

/-! ## Texts that are settled -/

/-- From all progress that knows at least so much a coordinate has a text, and reading it leaves
everything as it is. -/
def Knowledge.Settles (k : Knowledge) (resolve : Resolver) (c : Coordinate) (text : String) : Prop :=
  ∀ p : Progress, k.Le p.known → runFrom (resolve c) p = (.ok text, p)

namespace Knowledge.Settles

variable {k l : Knowledge} {resolve : Resolver} {c : Coordinate} {text text' : String}

theorem mono (settled : k.Settles resolve c text) (le : k.Le l) : l.Settles resolve c text :=
  fun p more => settled p (le.trans more)

theorem unique (settled : k.Settles resolve c text) (settled' : k.Settles resolve c text') :
    text = text' := by
  let p : Progress := ⟨{ outcomes := k.outcomes, verdicts := k.verdicts, computing := [] }, #[]⟩
  have ran := (settled p (.refl k)).symm.trans (settled' p (.refl k))
  cases ran
  rfl

end Knowledge.Settles

/-- Resolving goes onward, and a text that it has found is settled. -/
structure Resolver.Steady (resolve : Resolver) : Prop where
  onward : ∀ (c : Coordinate) (p : Progress), p.Onward (runFrom (resolve c) p).2
  settles : ∀ {c : Coordinate} {p q : Progress} {text : String},
    runFrom (resolve c) p = (.ok text, q) → q.known.Settles resolve c text

/-- A source settles what is read from it. -/
theorem Source.settles_of_read {below resolve : Resolver} {s : Source} {id : SourceId}
    {c : Coordinate} (reads : resolve c = s.read below id c.fragment) {p q : Progress} {text : String}
    (ran : runFrom (s.read below id c.fragment) p = (.ok text, q)) :
    q.known.Settles resolve c text := by
  intro p' more
  rw [reads]
  cases direct : s.direct? c.fragment with
  | some result =>
      rw [Source.runFrom_read_direct direct] at ran ⊢
      cases ran
      rfl
  | none => exact ((Source.Recalls.of_read direct ran).mono more).runFrom_read

/-- Whatever sources it sees and however deep it may go, the engine reads the same once more. -/
theorem Scope.steady_resolveWithin (scope : Scope) (depth : Nat) (room : Option Nat) :
    Resolver.Steady (scope.resolveWithin depth room) := by
  refine ⟨scope.onward_resolveWithin depth room, fun {c p q text} ran => ?_⟩
  cases depth with
  | zero => cases ran
  | succ depth =>
      cases found : Assoc.find? scope (.text c.source) with
      | none =>
          rw [resolveWithin, found] at ran
          cases ran
      | some entry =>
          obtain ⟨id, s⟩ := entry
          obtain ⟨below, reads⟩ : ∃ below,
              scope.resolveWithin (depth + 1) room c = s.read below id c.fragment := by
            rw [resolveWithin, found]
            cases left : roomBelow s room <;> simp only [left] <;> exact ⟨_, rfl⟩
          rw [reads] at ran
          exact Source.settles_of_read reads ran

theorem Scope.steady_resolve (scope : Scope) (room : Option Nat) :
    Resolver.Steady (scope.resolve room) :=
  scope.steady_resolveWithin _ room

theorem Store.steady_resolver (σ : Store) (ctx : ContextId) : Resolver.Steady (σ.resolver ctx) :=
  Scope.steady_resolve _ σ.room

/-! ## Conditions that stand -/

/-- The subject of a condition is settled, and the cell says so of its text. -/
def Condition.Stands (k : Knowledge) (resolve : Resolver) (c : Condition) (holds : Bool) : Prop :=
  ∃ text, k.Settles resolve c.subject text ∧ c.cell.accepts text = .ok holds

namespace Condition

variable {k l : Knowledge} {resolve : Resolver} {c : Condition} {holds holds' : Bool}
  {p q : Progress}

theorem Stands.mono (stands : c.Stands k resolve holds) (le : k.Le l) : c.Stands l resolve holds := by
  obtain ⟨text, settled, accepted⟩ := stands
  exact ⟨text, settled.mono le, accepted⟩

/-- What was evaluated is settled, with the text that was found. -/
theorem settles_of_evaluate (steady : resolve.Steady) {text : String}
    (ran : runFrom (c.evaluate resolve) p = (.ok (holds, text), q)) :
    q.known.Settles resolve c.subject text ∧ c.cell.accepts text = .ok holds := by
  obtain ⟨text', p', read, ran⟩ := runFrom_bind_value ran
  have settled := steady.settles read
  cases accepted : c.cell.accepts text' with
  | error error =>
      rw [accepted] at ran
      cases ran
  | ok holds' =>
      rw [accepted] at ran
      cases ran
      exact ⟨settled, accepted⟩

theorem stands_of_evaluate (steady : resolve.Steady) {text : String}
    (ran : runFrom (c.evaluate resolve) p = (.ok (holds, text), q)) :
    c.Stands q.known resolve holds :=
  ⟨text, settles_of_evaluate steady ran⟩

theorem onward_allHold (steady : resolve.Steady) (cs : List Condition) (p : Progress) :
    p.Onward (runFrom (allHold resolve cs) p).2 :=
  (uniform_allHold cs).along Progress.along_onward steady.onward p

/-- Conditions that all hold stand afterwards. -/
theorem stand_of_allHold (steady : resolve.Steady) {cs : List Condition}
    (ran : runFrom (allHold resolve cs) p = (.ok true, q)) :
    ∀ c ∈ cs, c.Stands q.known resolve true := by
  induction cs generalizing p with
  | nil => exact fun _ impossible => absurd impossible List.not_mem_nil
  | cons c rest ih =>
      obtain ⟨⟨holds, text⟩, p', evaluated, ran⟩ := runFrom_bind_value ran
      cases holds with
      | false => cases ran
      | true =>
          have onward := onward_allHold steady rest p'
          change runFrom (allHold resolve rest) p' = (.ok true, q) at ran
          rw [ran] at onward
          rw [List.forall_mem_cons]
          exact ⟨(stands_of_evaluate steady evaluated).mono onward.known, ih ran⟩

end Condition

/-! ## Rules that are satisfied -/

namespace Rule

variable {resolve : Resolver} {p q : Progress}

/-- The conditions of a rule that was found satisfied stand afterwards. -/
theorem stand_of_check (steady : resolve.Steady) {r : Rule}
    (ran : runFrom (r.check resolve) p = (.ok true, q)) :
    ∀ c ∈ r.conditions, c.Stands q.known resolve true := by
  obtain ⟨holds, p', held, ran⟩ := runFrom_bind_value ran
  have known : q.known = p'.known ∧ holds = true := by
    cases ran
    exact ⟨rfl, rfl⟩
  rw [known.2] at held
  rw [known.1]
  exact Condition.stand_of_allHold steady held

theorem onward_satisfied (steady : resolve.Steady) (rules : List Rule) (p : Progress) :
    p.Onward (runFrom (satisfied resolve rules) p).2 :=
  (uniform_satisfied rules).along Progress.along_onward steady.onward p

/-- The conditions of all rules that were found satisfied stand afterwards. -/
theorem stand_of_satisfied (steady : resolve.Steady) {rules found : List Rule}
    (ran : runFrom (satisfied resolve rules) p = (.ok found, q)) :
    ∀ r ∈ found, ∀ c ∈ r.conditions, c.Stands q.known resolve true := by
  induction rules generalizing p found with
  | nil =>
      cases ran
      exact fun _ impossible => absurd impossible List.not_mem_nil
  | cons r rest ih =>
      obtain ⟨holds, p', checked, ran⟩ := runFrom_bind_value ran
      obtain ⟨others, p'', later, ran⟩ := runFrom_bind_value ran
      have onward := onward_satisfied steady rest p'
      rw [later] at onward
      cases holds with
      | false =>
          cases ran
          exact ih later
      | true =>
          cases ran
          rw [if_pos rfl, List.forall_mem_cons]
          exact ⟨fun c member => (stand_of_check steady checked c member).mono onward.known, ih later⟩

end Rule

end DecisionTables
