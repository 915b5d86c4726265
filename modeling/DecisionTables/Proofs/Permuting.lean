import Mathlib
import DecisionTables.Proofs.Altering
import DecisionTables.Proofs.Circling

/-!
# Rules have no priority

The rules of a table are all checked, and at most one of them may be satisfied.  So it does
not matter in which order they are declared: whatever texts the coordinates have, the same
rules are satisfied.  And the texts are the same whatever the order in the tables that are
read on the way, wherever there are texts at all.
-/

namespace DecisionTables

/-! ## Texts that give values -/

/-- The first side gives every value that the second gives. -/
def giving : Tracking where
  rel _ _ := True
  gaps _ := True
  slips _ := False
  rel_reported _ _ := trivial

theorem giving_ends {α : Type} {first : Except Fault α × Progress} {a : α} {q : Progress}
    (ends : giving.Ends first (.ok a, q)) : first.1 = .ok a := by
  cases ends with
  | slip impossible _ => exact impossible.elim
  | value _ _ => rfl

/-- A step finds what it finds by other texts, if all of these are given. -/
theorem Uniform.value_of_texts {α : Type} {step : Resolver → Evaluation α} (uniform : Uniform step)
    {text text' : Coordinate → Except Fault String} (gives : ∀ c s, text c = .ok s → text' c = .ok s)
    {a : α} {p : Progress} (found : (runFrom (step (.ofTexts text)) p).1 = .ok a) (q : Progress) :
    (runFrom (step (.ofTexts text')) q).1 = .ok a := by
  have along : ∀ c, giving.Tracks (Resolver.ofTexts text' c) (Resolver.ofTexts text c) := by
    intro c p q _
    change giving.Ends (text' c, p) (text c, q)
    cases given : text c with
    | error f => exact .gap trivial
    | ok s =>
        rw [gives c s given]
        exact .value s trivial
  have ends := uniform.tracks along q p trivial
  revert ends found
  generalize runFrom (step (.ofTexts text)) p = second
  obtain ⟨result, p'⟩ := second
  rintro rfl ends
  exact giving_ends ends

/-! ## Satisfied rules -/

namespace Rule

/-- Whether a rule is satisfied where coordinates have certain texts. -/
def holdsBy (text : Coordinate → Except Fault String) (r : Rule) : Except Fault Bool :=
  (runFrom (r.check (.ofTexts text)) .start).1

/-- A rule is found to be satisfied. -/
def isSatisfiedBy (text : Coordinate → Except Fault String) (r : Rule) : Bool :=
  match r.holdsBy text with
  | .ok holds => holds
  | .error _ => false

variable {text : Coordinate → Except Fault String} {p : Progress}

theorem isSatisfiedBy_of_holds {r : Rule} {holds : Bool} (found : r.holdsBy text = .ok holds) :
    r.isSatisfiedBy text = holds := by
  rw [isSatisfiedBy, found]

theorem check_eq_ok_iff {r : Rule} {holds : Bool} :
    (runFrom (r.check (.ofTexts text)) p).1 = .ok holds ↔ r.holdsBy text = .ok holds :=
  ⟨fun found => r.uniform_check.value_of_texts (fun _ _ => id) found .start,
    fun found => r.uniform_check.value_of_texts (fun _ _ => id) found p⟩

/-- The satisfied rules of a list are found exactly where every rule can be checked. -/
theorem satisfied_eq_ok_iff {rules found : List Rule} :
    (runFrom (Rule.satisfied (.ofTexts text) rules) p).1 = .ok found ↔
      (∀ r ∈ rules, ∃ holds, r.holdsBy text = .ok holds) ∧
        found = rules.filter fun r => r.isSatisfiedBy text := by
  induction rules generalizing found p with
  | nil =>
      constructor
      · intro ran
        cases ran
        exact ⟨fun _ impossible => absurd impossible List.not_mem_nil, rfl⟩
      · rintro ⟨_, rfl⟩
        rfl
  | cons r rest ih =>
      constructor
      · intro ran
        obtain ⟨holds, p', checked, ran⟩ := runFrom_bind_value (Prod.ext ran rfl)
        obtain ⟨others, p'', later, ran⟩ := runFrom_bind_value ran
        have held : r.holdsBy text = .ok holds := check_eq_ok_iff.mp (congrArg Prod.fst checked)
        obtain ⟨checks, rfl⟩ := ih.mp (congrArg Prod.fst later)
        refine ⟨List.forall_mem_cons.mpr ⟨⟨holds, held⟩, checks⟩, ?_⟩
        rw [List.filter_cons, isSatisfiedBy_of_holds held]
        cases ran
        rfl
      · rintro ⟨checks, rfl⟩
        obtain ⟨⟨holds, held⟩, checks⟩ := List.forall_mem_cons.mp checks
        obtain ⟨p', checked⟩ : ∃ p', runFrom (r.check (.ofTexts text)) p = (.ok holds, p') :=
          ⟨_, Prod.ext (check_eq_ok_iff.mpr held) rfl⟩
        obtain ⟨p'', later⟩ : ∃ p'', runFrom (Rule.satisfied (.ofTexts text) rest) p' =
            (.ok (rest.filter fun r => r.isSatisfiedBy text), p'') :=
          ⟨_, Prod.ext (ih.mpr ⟨checks, rfl⟩) rfl⟩
        rw [Rule.satisfied, runFrom_bind_ok checked, runFrom_bind_ok later, List.filter_cons,
          isSatisfiedBy_of_holds held]
        rfl

end Rule

namespace Table

/-- The satisfied rules of a table where coordinates have certain texts. -/
def satisfiedBy (text : Coordinate → Except Fault String) (t : Table) : Except Fault (List Rule) :=
  (runFrom (Rule.satisfied (.ofTexts text) t.rules) .start).1

/-- What a table makes of its satisfied rules. -/
def conclude (t : Table) : List Rule → Except Fault Outcome
  | [] => .ok t.otherwise.outcome
  | [r] => .ok r.outcome
  | several => .error (.engine (.ambiguousRules t.name (several.map Rule.name)))

/-- The same table but for the order of its rules. -/
structure Reordered (t u : Table) : Prop where
  name : t.name = u.name
  rules : t.rules.Perm u.rules
  otherwise : t.otherwise = u.otherwise

theorem Reordered.refl (t : Table) : t.Reordered t := ⟨rfl, .refl _, rfl⟩

theorem Reordered.symm {t u : Table} (reordered : t.Reordered u) : u.Reordered t :=
  ⟨reordered.name.symm, reordered.rules.symm, reordered.otherwise.symm⟩

variable {text text' : Coordinate → Except Fault String} {t u : Table}

theorem outcomeBy_eq (text : Coordinate → Except Fault String) (t : Table) :
    t.outcomeBy text = (t.satisfiedBy text).bind t.conclude := by
  rw [outcomeBy, satisfiedBy, Table.decide, Table.select, Table.satisfiedRule?]
  simp only [runFrom_bind]
  rcases runFrom (Rule.satisfied (.ofTexts text) t.rules) .start with ⟨result, p⟩
  cases result with
  | error f => rfl
  | ok rules =>
      rcases rules with _ | ⟨_, _ | ⟨_, _⟩⟩
      · rfl
      · rfl
      · rfl

/-- A table that is reordered has the same satisfied rules, in another order. -/
theorem Reordered.satisfied (reordered : t.Reordered u)
    (gives : ∀ c s, text c = .ok s → text' c = .ok s) {rules : List Rule}
    (found : t.satisfiedBy text = .ok rules) :
    ∃ rules', u.satisfiedBy text' = .ok rules' ∧ rules.Perm rules' := by
  have given := (Rule.uniform_satisfied t.rules).value_of_texts gives found .start
  obtain ⟨checks, rfl⟩ := Rule.satisfied_eq_ok_iff.mp given
  refine ⟨u.rules.filter fun r => r.isSatisfiedBy text', ?_, reordered.rules.filter _⟩
  exact Rule.satisfied_eq_ok_iff.mpr
    ⟨fun r member => checks r (reordered.rules.mem_iff.mpr member), rfl⟩

/-- What is made of satisfied rules does not depend on their order. -/
theorem Reordered.conclude (reordered : t.Reordered u) {rules rules' : List Rule}
    (permuted : rules.Perm rules') {o : Outcome} (concluded : t.conclude rules = .ok o) :
    u.conclude rules' = .ok o := by
  match rules with
  | [] =>
      rw [permuted.nil_eq.symm, Table.conclude, ← reordered.otherwise]
      exact concluded
  | [r] =>
      obtain rfl := List.singleton_perm.mp permuted
      exact concluded
  | _ :: _ :: _ => cases concluded

/-- Several rules are satisfied in every order, and they are the same. -/
theorem Reordered.ambiguous (reordered : t.Reordered u) {rules rules' : List Rule}
    (permuted : rules.Perm rules') {table : String} {names : List String}
    (concluded : t.conclude rules = .error (.engine (.ambiguousRules table names))) :
    ∃ names', u.conclude rules' = .error (.engine (.ambiguousRules table names')) ∧
      names.Perm names' := by
  match rules with
  | [] => cases concluded
  | [_] => cases concluded
  | first :: second :: rest =>
      cases concluded
      match rules' with
      | [] => exact (List.cons_ne_nil _ _ permuted.eq_nil).elim
      | [_] => cases permuted.length_eq
      | first' :: second' :: rest' =>
          refine ⟨_, ?_, permuted.map Rule.name⟩
          rw [reordered.name]
          rfl

/-- Where all texts are given that a table has its outcome by, it has it in every order of its
rules. -/
theorem Reordered.outcomeBy (reordered : t.Reordered u)
    (gives : ∀ c s, text c = .ok s → text' c = .ok s) {o : Outcome}
    (found : t.outcomeBy text = .ok o) : u.outcomeBy text' = .ok o := by
  rw [outcomeBy_eq] at found ⊢
  cases satisfied : t.satisfiedBy text with
  | error f =>
      rw [satisfied] at found
      cases found
  | ok rules =>
      rw [satisfied] at found
      obtain ⟨rules', satisfied', permuted⟩ := reordered.satisfied gives satisfied
      rw [satisfied']
      exact reordered.conclude permuted found

/-- A fault that rules do not raise comes from a coordinate. -/
theorem exists_of_satisfiedBy {f : Fault} (unjudged : f.Unjudged) (failed : t.satisfiedBy text = .error f) :
    ∃ c, text c = .error f := by
  obtain ⟨a, _, failed⟩ := (unjudged.failsWith_satisfied t.rules).mp failed
  exact ⟨a.1, failed⟩

end Table

theorem Fault.unjudged_ambiguous (table : String) (names : List String) :
    Fault.Unjudged (.engine (.ambiguousRules table names)) := by
  intro cell text error failed same
  obtain ⟨_, _, rfl⟩ := Cell.notNumeric_of_accepts failed
  cases same

/-- Where no coordinate is ambiguous because of the table itself, it is so in every order of its rules,
and because of the same rules. -/
theorem Table.Reordered.ambiguousBy {text text' : Coordinate → Except Fault String} {t u : Table}
    (reordered : t.Reordered u) (gives : ∀ c s, text c = .ok s → text' c = .ok s)
    (own : ∀ c names, text c ≠ .error (.engine (.ambiguousRules t.name names))) {names : List String}
    (failed : t.outcomeBy text = .error (.engine (.ambiguousRules t.name names))) :
    ∃ names', u.outcomeBy text' = .error (.engine (.ambiguousRules t.name names')) ∧
      names.Perm names' := by
  rw [Table.outcomeBy_eq] at failed
  cases satisfied : t.satisfiedBy text with
  | error f =>
      rw [satisfied] at failed
      cases failed
      obtain ⟨c, elsewhere⟩ := Table.exists_of_satisfiedBy (Fault.unjudged_ambiguous _ _) satisfied
      exact (own c names elsewhere).elim
  | ok rules =>
      rw [satisfied] at failed
      obtain ⟨rules', satisfied', permuted⟩ := reordered.satisfied gives satisfied
      rw [Table.outcomeBy_eq, satisfied']
      exact reordered.ambiguous permuted failed

/-! ## Scopes -/

theorem Source.pick_eq_ok {t u : Table} {fragment text : String} {o : Outcome}
    (picked : Source.pick t fragment o = .ok text) : Source.pick u fragment o = .ok text := by
  unfold pick at picked ⊢
  split at picked
  · exact picked
  · cases picked

theorem Source.direct_not_ambiguous {source : Source} {fragment table : String} {names : List String} :
    source.direct? fragment ≠ some (.error (.engine (.ambiguousRules table names))) := by
  intro ambiguous
  unfold direct? at ambiguous
  split at ambiguous
  · split at ambiguous <;> cases ambiguous
  · cases ambiguous
  · cases ambiguous
  · split at ambiguous <;> cases ambiguous
  · cases ambiguous

/-- A table is ambiguous because of its own rules, or because a coordinate is. -/
theorem Table.ambiguous_of_outcomeBy {text : Coordinate → Except Fault String} {t : Table} {name : String}
    {names : List String} (failed : t.outcomeBy text = .error (.engine (.ambiguousRules name names))) :
    name = t.name ∨ ∃ c, text c = .error (.engine (.ambiguousRules name names)) := by
  rw [outcomeBy_eq] at failed
  cases satisfied : t.satisfiedBy text with
  | error f =>
      rw [satisfied] at failed
      cases failed
      exact .inr (exists_of_satisfiedBy (Fault.unjudged_ambiguous _ _) satisfied)
  | ok rules =>
      rw [satisfied] at failed
      match rules with
      | [] => cases failed
      | [_] => cases failed
      | _ :: _ :: _ =>
          cases failed
          exact .inl rfl

namespace Scope

/-- The same scope but for the order of the rules in its tables. -/
abbrev Reordered : Scope → Scope → Prop :=
  Altered Table.Reordered

variable {scope scope' : Scope} {busy : List String} {c : Coordinate} {d : Nat}

/-- The same texts are found in every order of rules. -/
theorem Reordered.answer (reordered : scope.Reordered scope') {s : String}
    (given : scope.answer d busy c = .ok s) : scope'.answer d busy c = .ok s := by
  induction d generalizing busy c s with
  | zero => cases given
  | succ d ih =>
      have further : ∀ busy c s, scope.answer d busy c = .ok s → scope'.answer d busy c = .ok s :=
        fun _ _ _ => ih
      cases found : Assoc.find? scope (.text c.source) with
      | none =>
          rw [answer_missing found] at given
          cases given
      | some entry =>
          obtain ⟨id, source⟩ := entry
          obtain ⟨id', source', found', related⟩ := reordered.find found
          cases related.alteredAt .refl c.fragment with
          | direct result left right =>
              rw [answer_direct found left] at given
              rw [answer_direct found' right, given]
          | table t u left right tables =>
              obtain ⟨outside, o, decided, picked⟩ := (answer_table_eq_ok_iff found left).mp given
              refine (answer_table_eq_ok_iff found' right).mpr ⟨tables.name ▸ outside, o, ?_,
                Source.pick_eq_ok picked⟩
              rw [← tables.name]
              exact tables.outcomeBy (further (t.name :: busy)) decided
          | condition named condition left right registered =>
              obtain ⟨result, judged, told⟩ := (answer_condition_eq_ok_iff found left registered).mp given
              refine (answer_condition_eq_ok_iff found' right registered).mpr ⟨result, ?_, told⟩
              rw [Condition.resultBy, condition.uniform_evaluate.value_of_texts
                (fun c s => further busy c s) judged .start]

/-- No coordinate is ambiguous because of a table that is being computed. -/
theorem not_mem_of_ambiguous {name : String} {names : List String}
    (failed : scope.answer d busy c = .error (.engine (.ambiguousRules name names))) : name ∉ busy := by
  induction d generalizing busy c with
  | zero => cases failed
  | succ d ih =>
      cases scope.lookup c with
      | missing found =>
          rw [answer_missing found] at failed
          cases failed
      | direct found direct =>
          rw [answer_direct found direct] at failed
          rw [failed] at direct
          exact (Source.direct_not_ambiguous direct).elim
      | @table _ _ t found content =>
          rw [answer_table found content] at failed
          split at failed
          · cases failed
          · rename_i free
            cases decided : t.outcomeBy (scope.answer d (t.name :: busy)) with
            | ok o =>
                rw [decided] at failed
                change Source.pick t c.fragment o = _ at failed
                unfold Source.pick at failed
                split at failed <;> cases failed
            | error f =>
                rw [decided] at failed
                cases failed
                rcases Table.ambiguous_of_outcomeBy decided with rfl | ⟨next, failed⟩
                · exact fun inside => free (List.contains_iff_mem.mpr inside)
                · exact fun inside => ih failed (List.mem_cons_of_mem _ inside)
      | @condition _ _ _ condition found content registered =>
          rw [answer_condition found content registered] at failed
          cases judged : condition.resultBy (scope.answer d busy) with
          | ok result =>
              rw [judged] at failed
              cases failed
          | error f =>
              rw [judged] at failed
              cases failed
              exact ih (((Fault.unjudged_ambiguous name names).failsWith_evaluate condition).mp judged)

/-! ## Outcomes -/

section

variable {catalog catalog' : Catalog} {t u : Table} {room : Option Nat}

/-- What the engine gives for a table it gives for it in every order of rules, unless it runs too
deep. -/
theorem Reordered.decideOnce (reordered : scope.Reordered scope') (tables : t.Reordered u)
    (coherent : scope.Coherent) (coherent' : scope'.Coherent) (owned : scope.Owned catalog)
    (owned' : scope'.Owned catalog') (own : catalog.table t.name = .ok t)
    (own' : catalog'.table u.name = .ok u) (ends : ∀ c, ¬ scope.Endless c) (room : Option Nat) :
    let result := (runFrom (t.decideOnce (scope.resolve room)) .start).1
    let result' := (runFrom (u.decideOnce (scope'.resolve room)) .start).1
    (∀ o, result = .ok o → result' = .error .tooDeep ∨ result' = .ok o) ∧
      ∀ names, result = .error (.engine (.ambiguousRules t.name names)) →
        result' = .error .tooDeep ∨ ∃ names',
          result' = .error (.engine (.ambiguousRules t.name names')) ∧ names.Perm names' := by
  intro result result'
  have ends' : ∀ c, ¬ scope'.Endless c := fun c endless =>
    ends c ((reordered.symm Table.Reordered.symm).endless endless)
  have first : result = .error .tooDeep ∨ result = t.outcomeBy (scope.answer scope.depth [t.name]) :=
    decideOnce_eq_answer coherent owned ends own room (refreshes_start scope catalog)
  have second : result' = .error .tooDeep ∨
      result' = u.outcomeBy (scope'.answer scope.depth [t.name]) := by
    rw [tables.name, reordered.depth_eq]
    exact decideOnce_eq_answer coherent' owned' ends' own' room (refreshes_start scope' catalog')
  have gives : ∀ c s, scope.answer scope.depth [t.name] c = .ok s →
      scope'.answer scope.depth [t.name] c = .ok s := fun c s => reordered.answer
  constructor
  · intro o found
    rcases first with deep | same
    · cases found.symm.trans deep
    · refine second.imp_right fun same' => same'.trans ?_
      exact tables.outcomeBy gives (same.symm.trans found)
  · intro names failed
    rcases first with deep | same
    · cases failed.symm.trans deep
    · refine second.imp_right fun same' => ?_
      rw [same']
      refine tables.ambiguousBy gives (fun c names failed => ?_) (same.symm.trans failed)
      exact not_mem_of_ambiguous failed List.mem_cons_self

end

end Scope

end DecisionTables
