import DecisionTables.Proofs.Retaining

/-!
# What has been computed so far

A context knows outcomes of tables and results of named conditions.  What it knows is
sound when each of these follows from what was known before it: then a coordinate that
can be recalled could just as well be computed.
-/

namespace DecisionTables

/-- Outcomes of tables and results of named conditions that are known. -/
structure Knowledge where
  outcomes : Assoc String Outcome
  verdicts : Assoc (SourceId × String) String

/-- What is known at some progress. -/
def Progress.known (p : Progress) : Knowledge := ⟨p.memo.outcomes, p.memo.verdicts⟩

namespace Knowledge

/-- The outcome of one more table is known. -/
def withOutcome (k : Knowledge) (table : String) (outcome : Outcome) : Knowledge :=
  { k with outcomes := k.outcomes.insert table outcome }

/-- The result of one more named condition is known. -/
def withVerdict (k : Knowledge) (id : SourceId) (name text : String) : Knowledge :=
  { k with verdicts := k.verdicts.insert (id, name) text }

/-- All that is known in the first place is known in the second. -/
structure Le (k l : Knowledge) : Prop where
  outcomes : ∀ {name o}, k.outcomes.find? name = some o → l.outcomes.find? name = some o
  verdicts : ∀ {key text}, k.verdicts.find? key = some text → l.verdicts.find? key = some text

variable {k l : Knowledge}

theorem Le.refl (k : Knowledge) : k.Le k := ⟨id, id⟩

theorem Le.trans {m : Knowledge} (first : k.Le l) (second : l.Le m) : k.Le m :=
  ⟨fun found => second.outcomes (first.outcomes found),
    fun found => second.verdicts (first.verdicts found)⟩

theorem Le.outcome_none (le : k.Le l) {name : String} (unknown : l.outcomes.find? name = none) :
    k.outcomes.find? name = none := by
  cases known : k.outcomes.find? name with
  | none => rfl
  | some o => cases unknown.symm.trans (le.outcomes known)

theorem Le.verdict_none (le : k.Le l) {key : SourceId × String}
    (unknown : l.verdicts.find? key = none) : k.verdicts.find? key = none := by
  cases known : k.verdicts.find? key with
  | none => rfl
  | some text => cases unknown.symm.trans (le.verdicts known)

theorem find?_withOutcome (k : Knowledge) (table name : String) (o : Outcome) :
    (k.withOutcome table o).outcomes.find? name =
      if table = name then some o else k.outcomes.find? name := by
  by_cases same : table = name
  · subst same
    rw [if_pos rfl]
    exact Assoc.find?_insert_self _ _ (beq_self_eq_true table)
  · rw [if_neg same]
    exact Assoc.find?_insert_of_ne _ _ (beq_eq_false_iff_ne.mpr same)

theorem find?_withVerdict (k : Knowledge) (id : SourceId) (name text : String)
    (key : SourceId × String) :
    (k.withVerdict id name text).verdicts.find? key =
      if (id, name) = key then some text else k.verdicts.find? key := by
  by_cases same : (id, name) = key
  · subst same
    rw [if_pos rfl]
    exact Assoc.find?_insert_self _ _ (beq_self_eq_true (id, name))
  · rw [if_neg same]
    exact Assoc.find?_insert_of_ne _ _ (beq_eq_false_iff_ne.mpr same)

/-- What is new to both is known to both. -/
theorem Le.withOutcome (le : k.Le l) (table : String) (o : Outcome) :
    (k.withOutcome table o).Le (l.withOutcome table o) := by
  refine ⟨fun {name o'} found => ?_, le.verdicts⟩
  rw [find?_withOutcome] at found ⊢
  split at found
  · rw [if_pos ‹_›, found]
  · rw [if_neg ‹_›, le.outcomes found]

theorem Le.withVerdict (le : k.Le l) (id : SourceId) (name text : String) :
    (k.withVerdict id name text).Le (l.withVerdict id name text) := by
  refine ⟨le.outcomes, fun {key text'} found => ?_⟩
  rw [find?_withVerdict] at found ⊢
  split at found
  · rw [if_pos ‹_›, found]
  · rw [if_neg ‹_›, le.verdicts found]

/-- What is known already may be learned again. -/
theorem Le.withOutcome_of_known (le : k.Le l) {table : String} {o : Outcome}
    (known : l.outcomes.find? table = some o) : (k.withOutcome table o).Le l := by
  refine ⟨fun {name o'} found => ?_, le.verdicts⟩
  rw [find?_withOutcome] at found
  split at found
  · rename_i same
    cases found
    rw [← same]
    exact known
  · exact le.outcomes found

theorem Le.withVerdict_of_known (le : k.Le l) {id : SourceId} {name text : String}
    (known : l.verdicts.find? (id, name) = some text) : (k.withVerdict id name text).Le l := by
  refine ⟨le.outcomes, fun {key text'} found => ?_⟩
  rw [find?_withVerdict] at found
  split at found
  · rename_i same
    cases found
    rw [← same]
    exact known
  · exact le.verdicts found

/-- What may be known is known still after it was learned again. -/
theorem Le.learn_outcome {m : Knowledge} (le : k.Le l) (most : k.Le m) {table : String} {o : Outcome}
    (known : m.outcomes.find? table = some o) : k.Le (l.withOutcome table o) := by
  refine ⟨fun {name o'} found => ?_, le.verdicts⟩
  rw [find?_withOutcome]
  split
  · rename_i same
    rw [← most.outcomes found, ← same, known]
  · exact le.outcomes found

theorem Le.learn_verdict {m : Knowledge} (le : k.Le l) (most : k.Le m) {id : SourceId}
    {name text : String} (known : m.verdicts.find? (id, name) = some text) :
    k.Le (l.withVerdict id name text) := by
  refine ⟨le.outcomes, fun {key text'} found => ?_⟩
  rw [find?_withVerdict]
  split
  · rename_i same
    rw [← most.verdicts found, ← same, known]
  · exact le.verdicts found

/-- What was unknown to the first may be learned by the second. -/
theorem Le.withOutcome_of_unknown (le : k.Le l) {table : String}
    (unknown : k.outcomes.find? table = none) (o : Outcome) : k.Le (l.withOutcome table o) := by
  refine ⟨fun {name o'} found => ?_, le.verdicts⟩
  rw [find?_withOutcome, if_neg]
  · exact le.outcomes found
  · rintro rfl
    cases unknown.symm.trans found

theorem Le.withVerdict_of_unknown (le : k.Le l) {id : SourceId} {name : String}
    (unknown : k.verdicts.find? (id, name) = none) (text : String) :
    k.Le (l.withVerdict id name text) := by
  refine ⟨le.outcomes, fun {key text'} found => ?_⟩
  rw [find?_withVerdict, if_neg]
  · exact le.verdicts found
  · rintro rfl
    cases unknown.symm.trans found

/-- What was unknown can be learned without changing anything. -/
theorem le_withOutcome {table : String} (unknown : k.outcomes.find? table = none) (o : Outcome) :
    k.Le (k.withOutcome table o) :=
  (Le.refl k).withOutcome_of_unknown unknown o

theorem le_withVerdict {id : SourceId} {name : String}
    (unknown : k.verdicts.find? (id, name) = none) (text : String) :
    k.Le (k.withVerdict id name text) :=
  (Le.refl k).withVerdict_of_unknown unknown text

theorem withVerdict_of_known {id : SourceId} {name text : String}
    (known : k.verdicts.find? (id, name) = some text) : k.withVerdict id name text = k :=
  congrArg (Knowledge.mk k.outcomes) (Assoc.insert_of_find? known)

end Knowledge

theorem Progress.known_retained_le (R : Retention) (p : Progress) : (p.retained R).known.Le p.known :=
  ⟨R.outcomes, R.verdicts⟩

/-! ## Recalling -/

/-- What a coordinate has as it is or has been found to have. -/
def Scope.recollect (scope : Scope) (k : Knowledge) (c : Coordinate) : Option (Except Fault String) :=
  match Assoc.find? scope (.text c.source) with
  | none => some (.error (.engine (.unknownSource c.source)))
  | some (id, source) =>
    match source.content with
    | .table t => (k.outcomes.find? t.name).map (Source.pick t c.fragment)
    | .conditions named =>
      match named.find? c.fragment with
      | some _ => (k.verdicts.find? (id, c.fragment)).map .ok
      | none => source.direct? c.fragment
    | _ => source.direct? c.fragment

/-- Resolve coordinates by recalling them. -/
def Scope.recalled (scope : Scope) (k : Knowledge) : Resolver := fun c =>
  match scope.recollect k c with
  | some (.ok text) => pure text
  | some (.error f) => throw f
  | none => throw .tooDeep

/-- A step gives a value if all that it asks for is recalled. -/
def Scope.Entails {α : Type} (scope : Scope) (k : Knowledge) (step : Resolver → Evaluation α)
    (a : α) : Prop :=
  ∀ p, (runFrom (step (scope.recalled k)) p).1 = .ok a

section

variable {scope : Scope} {k l : Knowledge} {c : Coordinate}

theorem Scope.runFrom_recalled (p : Progress) :
    runFrom (scope.recalled k c) p =
      match scope.recollect k c with
      | some result => (result, p)
      | none => (.error .tooDeep, p) := by
  unfold recalled
  cases scope.recollect k c with
  | none => rfl
  | some result => cases result <;> rfl

theorem Scope.recollect_missing (missing : Assoc.find? scope (.text c.source) = none) :
    scope.recollect k c = some (.error (.engine (.unknownSource c.source))) := by
  rw [recollect, missing]

theorem Scope.recollect_table {id : SourceId} {source : Source}
    (found : Assoc.find? scope (.text c.source) = some (id, source)) {t : Table}
    (content : source.content = .table t) :
    scope.recollect k c = (k.outcomes.find? t.name).map (Source.pick t c.fragment) := by
  rw [recollect, found]
  simp only [content]

theorem Scope.recollect_condition {id : SourceId} {source : Source}
    (found : Assoc.find? scope (.text c.source) = some (id, source))
    {named : Assoc String Condition} (content : source.content = .conditions named)
    {condition : Condition} (registered : named.find? c.fragment = some condition) :
    scope.recollect k c = (k.verdicts.find? (id, c.fragment)).map .ok := by
  rw [recollect, found]
  simp only [content, registered]

theorem Scope.recollect_direct {id : SourceId} {source : Source}
    (found : Assoc.find? scope (.text c.source) = some (id, source))
    {result : Except Fault String} (direct : source.direct? c.fragment = some result) :
    scope.recollect k c = some result := by
  rw [recollect, found]
  obtain ⟨name, content⟩ := source
  cases content with
  | table t => cases direct
  | conditions named =>
      cases registered : named.find? c.fragment with
      | none =>
          simp only [registered]
          exact direct
      | some condition =>
          unfold Source.direct? at direct
          simp only [registered] at direct
          cases direct
  | memory kind values defaults => exact direct
  | constant => exact direct
  | bare => exact direct

/-- What is recalled stays so when more is known. -/
theorem Scope.recollect_mono (le : k.Le l) {result : Except Fault String}
    (recalled : scope.recollect k c = some result) : scope.recollect l c = some result := by
  cases scope.lookup c with
  | missing found =>
      rw [recollect_missing found] at recalled ⊢
      exact recalled
  | direct found direct =>
      rw [recollect_direct found direct] at recalled ⊢
      exact recalled
  | table found content =>
      rw [recollect_table found content] at recalled ⊢
      obtain ⟨outcome, known, picked⟩ := Option.map_eq_some_iff.mp recalled
      rw [le.outcomes known, ← picked]
      rfl
  | condition found content registered =>
      rw [recollect_condition found content registered] at recalled ⊢
      obtain ⟨text, known, same⟩ := Option.map_eq_some_iff.mp recalled
      rw [le.verdicts known, ← same]
      rfl

/-- Evaluations that give every value that others give, from wherever both start. -/
def GivesAll {α : Type} (x y : Evaluation α) : Prop :=
  ∀ p q a, (runFrom x p).1 = .ok a → (runFrom y q).1 = .ok a

theorem respected_givesAll : Respected fun _ x y => GivesAll x y where
  pure _ _ _ _ gives := gives
  fail _ _ _ _ impossible := by cases impossible
  report _ _ _ _ gives := gives
  bind := by
    intro α β x y f g first rest p q b gives
    rw [runFrom_bind] at gives
    revert gives
    rcases ran : runFrom x p with ⟨result, p'⟩
    intro gives
    cases result with
    | error f => cases gives
    | ok a =>
        have second := first p q a (congrArg Prod.fst ran)
        rcases ran' : runFrom y q with ⟨result', q'⟩
        rw [ran'] at second
        rw [runFrom_bind_ok (show runFrom y q = (.ok a, q') by rw [ran', ← second])]
        exact rest a p' q' b gives

/-- What is recalled in the first scope is given in the second if it is recalled there. -/
theorem Scope.givesAll_recalled {scope' : Scope}
    (along : ∀ result, scope.recollect k c = some result → scope'.recollect l c = some result) :
    GivesAll (scope.recalled k c) (scope'.recalled l c) := by
  intro p q text gives
  rw [runFrom_recalled] at gives ⊢
  cases recalled : scope.recollect k c with
  | none =>
      rw [recalled] at gives
      cases gives
  | some result =>
      rw [recalled] at gives
      rw [along result recalled]
      exact gives

/-- Knowing more entails all that knowing less does. -/
theorem Scope.Entails.mono {α : Type} {step : Resolver → Evaluation α} {a : α} (le : k.Le l)
    (uniform : Uniform step) (entails : scope.Entails k step a) : scope.Entails l step a := by
  intro q
  refine uniform _ respected_givesAll (scope.recalled k) (scope.recalled l) ?_ q q a (entails q)
  exact fun c => givesAll_recalled fun result => recollect_mono le

theorem Scope.Entails.unique {α : Type} {step : Resolver → Evaluation α} {a b : α}
    (first : scope.Entails k step a) (second : scope.Entails k step b) : a = b :=
  Except.ok.inj ((first ⟨.empty, #[]⟩).symm.trans (second ⟨.empty, #[]⟩))

end

/-! ## Sound knowledge -/

/-- Every outcome and every result that is known was known at first, or was found with what had been
known before it. -/
inductive Grounded (scope : Scope) (catalog : Catalog) (first : Knowledge) : Knowledge → Prop where
  | known : Grounded scope catalog first first
  | outcome {k t o} (grounded : Grounded scope catalog first k) (own : catalog.table t.name = .ok t)
      (unknown : k.outcomes.find? t.name = none)
      (decided : scope.Entails k (fun resolve => t.decide resolve) o) :
      Grounded scope catalog first (k.withOutcome t.name o)
  | verdict {k key id source named name c result} (grounded : Grounded scope catalog first k)
      (found : Assoc.find? scope key = some (id, source)) (content : source.content = .conditions named)
      (registered : named.find? name = some c) (unknown : k.verdicts.find? (id, name) = none)
      (evaluated : scope.Entails k (fun resolve => c.evaluate resolve) result) :
      Grounded scope catalog first (k.withVerdict id name (Condition.verdict result))

/-- Nothing is known. -/
def Knowledge.blank : Knowledge := ⟨[], []⟩

theorem Knowledge.Le.blank (k : Knowledge) : Knowledge.blank.Le k := by
  constructor
  · intro name o impossible
    cases impossible
  · intro key text impossible
    cases impossible

/-- Every outcome and every result that is known was found with what had been known before it. -/
abbrev Sound (scope : Scope) (catalog : Catalog) : Knowledge → Prop :=
  Grounded scope catalog .blank

namespace Grounded

variable {scope : Scope} {catalog : Catalog} {first k : Knowledge}

/-- An outcome that is known was known at first, or goes back to what was known before it. -/
theorem exists_decided (grounded : Grounded scope catalog first k) {name : String} {o : Outcome}
    (known : k.outcomes.find? name = some o) :
    first.outcomes.find? name = some o ∨
    ∃ j t, Grounded scope catalog first j ∧ j.Le k ∧ j.outcomes.find? name = none ∧ t.name = name ∧
      catalog.table t.name = .ok t ∧ scope.Entails j (fun resolve => t.decide resolve) o := by
  induction grounded with
  | known => exact .inl known
  | @outcome k t o' grounded own unknown decided ih =>
      have le := Knowledge.le_withOutcome unknown o'
      rw [Knowledge.find?_withOutcome] at known
      split at known
      · rename_i same
        cases known
        refine .inr ⟨k, t, grounded, le, ?_, same, own, decided⟩
        rw [← same]
        exact unknown
      · refine (ih known).imp_right ?_
        rintro ⟨j, u, grounded', le', found⟩
        exact ⟨j, u, grounded', le'.trans le, found⟩
  | verdict _ _ _ _ unknown _ ih =>
      refine (ih known).imp_right ?_
      rintro ⟨j, u, grounded', le', found⟩
      exact ⟨j, u, grounded', le'.trans (Knowledge.le_withVerdict unknown _), found⟩

/-- The result of a named condition that is known was known at first, or goes back to what was known
before it. -/
theorem exists_evaluated (coherent : scope.Coherent) (grounded : Grounded scope catalog first k)
    {key : Scalar} {id : SourceId} {source : Source}
    (found : Assoc.find? scope key = some (id, source)) {named : Assoc String Condition}
    (content : source.content = .conditions named) {name : String} {c : Condition}
    (registered : named.find? name = some c) {text : String}
    (known : k.verdicts.find? (id, name) = some text) :
    first.verdicts.find? (id, name) = some text ∨
    ∃ j result, Grounded scope catalog first j ∧ j.Le k ∧ Condition.verdict result = text ∧
      scope.Entails j (fun resolve => c.evaluate resolve) result := by
  induction grounded with
  | known => exact .inl known
  | outcome _ _ unknown _ ih =>
      refine (ih known).imp_right ?_
      rintro ⟨j, result, grounded', le', same⟩
      exact ⟨j, result, grounded', le'.trans (Knowledge.le_withOutcome unknown _), same⟩
  | @verdict k key' id' source' named' name' c' result grounded found' content' registered' unknown
      evaluated ih =>
      have le := Knowledge.le_withVerdict unknown (Condition.verdict result)
      rw [Knowledge.find?_withVerdict] at known
      split at known
      · rename_i same
        cases known
        cases same
        obtain rfl := coherent _ _ _ _ _ found found'
        rw [content] at content'
        cases content'
        rw [registered] at registered'
        cases registered'
        exact .inr ⟨k, result, grounded, le, rfl, evaluated⟩
      · refine (ih known).imp_right ?_
        rintro ⟨j, result', grounded', le', found⟩
        exact ⟨j, result', grounded', le'.trans le, found⟩

end Grounded

end DecisionTables
