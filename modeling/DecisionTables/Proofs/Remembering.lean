import DecisionTables.Proofs.Tracking

/-!
# Remembering

The equations of the steps that look into the memory of a context: outcomes of
tables and results of named conditions are computed once, and a table is marked
while it is computed.
-/

namespace DecisionTables

namespace Progress

/-- The progress with a table marked as being computed. -/
def entering (p : Progress) (table : String) : Progress :=
  { p with memo := { p.memo with computing := table :: p.memo.computing } }

/-- The progress with the mark of a table dropped. -/
def leaving (p : Progress) (table : String) : Progress :=
  { p with memo := { p.memo with computing := p.memo.computing.erase table } }

/-- The progress with the outcome of a table remembered. -/
def knowing (p : Progress) (table : String) (outcome : Outcome) : Progress :=
  { p with memo := { p.memo with outcomes := p.memo.outcomes.insert table outcome } }

/-- The progress with the result of a named condition remembered. -/
def judged (p : Progress) (id : SourceId) (name text : String) : Progress :=
  { p with memo := { p.memo with verdicts := p.memo.verdicts.insert (id, name) text } }

end Progress

/-- The result of a condition as it is remembered. -/
def Condition.verdict (result : Bool × String) : String :=
  Value.fragmentText (.scalar (.bool result.1))

section

variable {α : Type}

/-- A table stays marked as long as the step runs, however the step ends. -/
theorem runFrom_computing (table : String) (x : Evaluation α) (p : Progress) :
    runFrom (Evaluation.computing table x) p =
      ((runFrom x (p.entering table)).1, (runFrom x (p.entering table)).2.leaving table) := rfl

theorem Table.runFrom_decideOnce_known {resolve : Resolver} {t : Table} {p : Progress}
    {outcome : Outcome} (known : p.memo.outcomes.find? t.name = some outcome) :
    runFrom (t.decideOnce resolve) p = (.ok outcome, p) := by
  simp only [Table.decideOnce, runFrom_bind, runFrom_get, known, runFrom_pure]

theorem Table.runFrom_decideOnce_cyclic {resolve : Resolver} {t : Table} {p : Progress}
    (unknown : p.memo.outcomes.find? t.name = none)
    (cyclic : p.memo.computing.contains t.name = true) :
    runFrom (t.decideOnce resolve) p = (.error (.engine (.cyclicTable t.name)), p) := by
  simp only [Table.decideOnce, runFrom_bind, runFrom_get, unknown, cyclic, if_true]
  rfl

/-- A table that is neither known nor being computed is computed, and a success is remembered. -/
theorem Table.runFrom_decideOnce_new {resolve : Resolver} {t : Table} {p : Progress}
    (unknown : p.memo.outcomes.find? t.name = none)
    (entered : p.memo.computing.contains t.name = false) :
    runFrom (t.decideOnce resolve) p =
      match runFrom (t.decide resolve) (p.entering t.name) with
      | (.ok outcome, p') => (.ok outcome, (p'.leaving t.name).knowing t.name outcome)
      | (.error f, p') => (.error f, p'.leaving t.name) := by
  simp only [Table.decideOnce, runFrom_bind, runFrom_get, unknown, entered, Bool.false_eq_true,
    if_false, runFrom_pure, runFrom_computing]
  rcases runFrom (t.decide resolve) (p.entering t.name) with ⟨result, p'⟩
  cases result <;> rfl

/-- The ways in which a table that is asked for comes to an end: it is known, it is being computed, or it is
computed now. -/
inductive Table.Once (resolve : Resolver) (t : Table) (p : Progress) : Prop where
  | known (o : Outcome) (remembered : p.memo.outcomes.find? t.name = some o)
      (ran : runFrom (t.decideOnce resolve) p = (.ok o, p))
  | cyclic (unknown : p.memo.outcomes.find? t.name = none)
      (entered : p.memo.computing.contains t.name = true)
      (ran : runFrom (t.decideOnce resolve) p = (.error (.engine (.cyclicTable t.name)), p))
  | value (o : Outcome) (p' : Progress) (unknown : p.memo.outcomes.find? t.name = none)
      (free : p.memo.computing.contains t.name = false)
      (decided : runFrom (t.decide resolve) (p.entering t.name) = (.ok o, p'))
      (ran : runFrom (t.decideOnce resolve) p = (.ok o, (p'.leaving t.name).knowing t.name o))
  | fault (f : Fault) (p' : Progress) (unknown : p.memo.outcomes.find? t.name = none)
      (free : p.memo.computing.contains t.name = false)
      (decided : runFrom (t.decide resolve) (p.entering t.name) = (.error f, p'))
      (ran : runFrom (t.decideOnce resolve) p = (.error f, p'.leaving t.name))

theorem Table.once (t : Table) (resolve : Resolver) (p : Progress) : t.Once resolve p := by
  cases remembered : p.memo.outcomes.find? t.name with
  | some o => exact .known o remembered (runFrom_decideOnce_known remembered)
  | none =>
      cases entered : p.memo.computing.contains t.name with
      | true => exact .cyclic remembered entered (runFrom_decideOnce_cyclic remembered entered)
      | false =>
          have ran : runFrom (t.decideOnce resolve) p = _ := runFrom_decideOnce_new remembered entered
          rcases decided : runFrom (t.decide resolve) (p.entering t.name) with ⟨result, p'⟩
          rw [decided] at ran
          cases result with
          | ok o => exact .value o p' remembered entered decided ran
          | error f => exact .fault f p' remembered entered decided ran

theorem Condition.runFrom_decideOnce_known {resolve : Resolver} {id : SourceId} {name : String}
    {c : Condition} {p : Progress} {text : String}
    (known : p.memo.verdicts.find? (id, name) = some text) :
    runFrom (c.decideOnce resolve id name) p = (.ok text, p) := by
  simp only [Condition.decideOnce, runFrom_bind, runFrom_get, known, runFrom_pure]

/-- A named condition that is not known is evaluated, and a success is remembered. -/
theorem Condition.runFrom_decideOnce_new {resolve : Resolver} {id : SourceId} {name : String}
    {c : Condition} {p : Progress} (unknown : p.memo.verdicts.find? (id, name) = none) :
    runFrom (c.decideOnce resolve id name) p =
      match runFrom (c.evaluate resolve) p with
      | (.ok result, p') => (.ok (verdict result), p'.judged id name (verdict result))
      | (.error f, p') => (.error f, p') := by
  simp only [Condition.decideOnce, runFrom_bind, runFrom_get, unknown]
  rcases runFrom (c.evaluate resolve) p with ⟨result, p'⟩
  cases result <;> rfl

/-- The ways in which a named condition that is asked for comes to an end. -/
inductive Condition.Once (resolve : Resolver) (c : Condition) (id : SourceId) (name : String)
    (p : Progress) : Prop where
  | known (text : String) (remembered : p.memo.verdicts.find? (id, name) = some text)
      (ran : runFrom (c.decideOnce resolve id name) p = (.ok text, p))
  | value (result : Bool × String) (p' : Progress) (unknown : p.memo.verdicts.find? (id, name) = none)
      (evaluated : runFrom (c.evaluate resolve) p = (.ok result, p'))
      (ran : runFrom (c.decideOnce resolve id name) p =
        (.ok (verdict result), p'.judged id name (verdict result)))
  | fault (f : Fault) (p' : Progress) (unknown : p.memo.verdicts.find? (id, name) = none)
      (evaluated : runFrom (c.evaluate resolve) p = (.error f, p'))
      (ran : runFrom (c.decideOnce resolve id name) p = (.error f, p'))

theorem Condition.once (c : Condition) (resolve : Resolver) (id : SourceId) (name : String) (p : Progress) :
    c.Once resolve id name p := by
  cases remembered : p.memo.verdicts.find? (id, name) with
  | some text => exact .known text remembered (runFrom_decideOnce_known remembered)
  | none =>
      have ran : runFrom (c.decideOnce resolve id name) p = _ := runFrom_decideOnce_new remembered
      rcases evaluated : runFrom (c.evaluate resolve) p with ⟨result, p'⟩
      rw [evaluated] at ran
      cases result with
      | ok result => exact .value result p' remembered evaluated ran
      | error f => exact .fault f p' remembered evaluated ran

end

/-! ## Tracking through the memory -/

namespace Tracking

/-- Progress that is related knows the same of all tables, now and after each step with them. -/
structure Remembers (T : Tracking) : Prop where
  outcomes : ∀ {p q}, T.rel p q → p.memo.outcomes = q.memo.outcomes
  computing : ∀ {p q}, T.rel p q → p.memo.computing = q.memo.computing
  entering : ∀ {p q} (name : String), T.rel p q → T.rel (p.entering name) (q.entering name)
  leaving : ∀ {p q} (name : String), T.rel p q → T.rel (p.leaving name) (q.leaving name)
  knowing : ∀ {p q} (name : String) (o : Outcome),
    T.rel p q → T.rel (p.knowing name o) (q.knowing name o)

variable {T : Tracking} {r s : Resolver}

/-- A table goes along from related progress.  What the second side knows, the first side has to give; what
it does not know, both sides compute, and while they do so they are tracked by `inner`. -/
theorem ends_decideOnce (inner : Tracking) (gaps : inner.gaps = T.gaps) (slips : inner.slips = T.slips)
    {t : Table} {p q : Progress} (related : T.rel p q) (computing : p.memo.computing = q.memo.computing)
    (known : ∀ o, q.memo.outcomes.find? t.name = some o → T.Ends (runFrom (t.decideOnce r) p) (.ok o, q))
    (unknown : q.memo.outcomes.find? t.name = none → p.memo.outcomes.find? t.name = none)
    (decided : q.memo.outcomes.find? t.name = none → q.memo.computing.contains t.name = false →
      inner.Ends (runFrom (t.decide r) (p.entering t.name)) (runFrom (t.decide s) (q.entering t.name)))
    (leaving : ∀ {p' q'}, inner.rel p' q' → T.rel (p'.leaving t.name) (q'.leaving t.name))
    (knowing : ∀ {o p' q'}, q.memo.outcomes.find? t.name = none →
      runFrom (t.decideOnce s) q = (.ok o, (q'.leaving t.name).knowing t.name o) → inner.rel p' q' →
      T.rel ((p'.leaving t.name).knowing t.name o) ((q'.leaving t.name).knowing t.name o)) :
    T.Ends (runFrom (t.decideOnce r) p) (runFrom (t.decideOnce s) q) := by
  cases remembered : q.memo.outcomes.find? t.name with
  | some o =>
      rw [Table.runFrom_decideOnce_known remembered]
      exact known o remembered
  | none =>
      have unknown := unknown remembered
      cases entered : q.memo.computing.contains t.name with
      | true =>
          rw [Table.runFrom_decideOnce_cyclic remembered entered,
            Table.runFrom_decideOnce_cyclic unknown (computing ▸ entered)]
          exact .fault _ related
      | false =>
          have ends := decided remembered entered
          have knowing := fun {o p' q'} => @knowing o p' q' remembered
          rw [Table.runFrom_decideOnce_new remembered entered] at knowing ⊢
          rw [Table.runFrom_decideOnce_new unknown (computing ▸ entered)]
          revert ends knowing
          generalize runFrom (t.decide r) (p.entering t.name) = left
          generalize runFrom (t.decide s) (q.entering t.name) = right
          intro ends knowing
          cases ends with
          | gap gap =>
              rw [gaps] at gap
              exact .gap gap
          | slip slip related =>
              rw [slips] at slip
              exact .slip slip (leaving related)
          | value o related => exact .value o (knowing rfl related)
          | fault f related => exact .fault f (leaving related)

/-- A named condition goes along from related progress, as a table does. -/
theorem ends_conditionOnce {c : Condition} {id id' : SourceId} {name : String} {p q : Progress}
    (known : ∀ text, q.memo.verdicts.find? (id', name) = some text →
      T.Ends (runFrom (c.decideOnce r id name) p) (.ok text, q))
    (unknown : q.memo.verdicts.find? (id', name) = none → p.memo.verdicts.find? (id, name) = none)
    (evaluated : T.Ends (runFrom (c.evaluate r) p) (runFrom (c.evaluate s) q))
    (judged : ∀ {text p' q'}, q.memo.verdicts.find? (id', name) = none →
      runFrom (c.decideOnce s id' name) q = (.ok text, q'.judged id' name text) → T.rel p' q' →
      T.rel (p'.judged id name text) (q'.judged id' name text)) :
    T.Ends (runFrom (c.decideOnce r id name) p) (runFrom (c.decideOnce s id' name) q) := by
  cases remembered : q.memo.verdicts.find? (id', name) with
  | some text =>
      rw [Condition.runFrom_decideOnce_known remembered]
      exact known text remembered
  | none =>
      have judged := fun {text p' q'} => @judged text p' q' remembered
      rw [Condition.runFrom_decideOnce_new remembered] at judged ⊢
      rw [Condition.runFrom_decideOnce_new (unknown remembered)]
      revert evaluated judged
      generalize runFrom (c.evaluate r) p = left
      generalize runFrom (c.evaluate s) q = right
      intro evaluated judged
      cases evaluated with
      | gap gap => exact .gap gap
      | slip slip related => exact .slip slip related
      | value result related => exact .value _ (judged rfl related)
      | fault f related => exact .fault f related

theorem tracks_decideOnce (remembers : T.Remembers) (along : ∀ c, T.Tracks (r c) (s c))
    (t : Table) : T.Tracks (t.decideOnce r) (t.decideOnce s) := by
  intro p q related
  have outcomes := remembers.outcomes related
  refine ends_decideOnce T rfl rfl related (remembers.computing related) (fun o known => ?_)
    (fun unknown => outcomes ▸ unknown) (fun _ _ => ?_) (remembers.leaving t.name)
    fun _ _ related => remembers.knowing _ _ (remembers.leaving t.name related)
  · rw [Table.runFrom_decideOnce_known (outcomes ▸ known)]
    exact .value o related
  · exact t.uniform_decide.tracks along _ _ (remembers.entering t.name related)

/-- A named condition is tracked where both sides know and learn the same of it. -/
theorem tracks_conditionOnce {c : Condition} (along : T.Tracks (r c.subject) (s c.subject)) {id id' : SourceId}
    {name : String}
    (verdicts : ∀ {p q}, T.rel p q →
      p.memo.verdicts.find? (id, name) = q.memo.verdicts.find? (id', name))
    (judged : ∀ {p q} (text : String), T.rel p q →
      T.rel (p.judged id name text) (q.judged id' name text)) :
    T.Tracks (c.decideOnce r id name) (c.decideOnce s id' name) := by
  intro p q related
  have same := verdicts related
  refine ends_conditionOnce (fun text known => ?_) same.trans
    (Condition.respected_evaluate T.respected along p q related) fun _ _ => judged _
  rw [Condition.runFrom_decideOnce_known (same.trans known)]
  exact .value text related

theorem tracks_read_table {t : Table} (along : T.Tracks (t.decideOnce r) (t.decideOnce s)) {name name' : Scalar}
    (id id' : SourceId) (fragment : String) :
    T.Tracks (Source.read r id ⟨name, .table t⟩ fragment) (Source.read s id' ⟨name', .table t⟩ fragment) := by
  apply tracks_bind along
  intro outcome
  cases outcome.find? fragment with
  | none => exact tracks_fail _
  | some text => exact tracks_pure text

theorem tracks_read_condition {named named' : Assoc String Condition} {c : Condition} {id id' : SourceId}
    {fragment : String} (registered : named.find? fragment = some c)
    (registered' : named'.find? fragment = some c) {name name' : Scalar}
    (along : T.Tracks (c.decideOnce r id fragment) (c.decideOnce s id' fragment)) :
    T.Tracks (Source.read r id ⟨name, .conditions named⟩ fragment)
      (Source.read s id' ⟨name', .conditions named'⟩ fragment) := by
  simpa only [Source.read, registered, registered'] using along

/-- Reading from one source is tracked where both sides know and learn the same of it. -/
theorem tracks_read (remembers : T.Remembers) (along : ∀ c, T.Tracks (r c) (s c))
    {id id' : SourceId}
    (verdicts : ∀ {p q} (name : String), T.rel p q →
      p.memo.verdicts.find? (id, name) = q.memo.verdicts.find? (id', name))
    (judged : ∀ {p q} (name text : String), T.rel p q →
      T.rel (p.judged id name text) (q.judged id' name text)) (source : Source)
    (fragment : String) :
    T.Tracks (source.read r id fragment) (source.read s id' fragment) := by
  obtain ⟨name, content⟩ := source
  cases content with
  | memory kind values defaults =>
      cases found : values.find? (.text fragment) with
      | none => simpa only [Source.read, found] using tracks_fail _
      | some value => simpa only [Source.read, found] using tracks_pure _
  | constant => exact tracks_pure fragment
  | table t => exact tracks_read_table (tracks_decideOnce remembers along t) id id' fragment
  | conditions named =>
      cases found : named.find? fragment with
      | none => simpa only [Source.read, found] using tracks_fail _
      | some c =>
          exact tracks_read_condition found found
            (tracks_conditionOnce (along c.subject) (verdicts fragment) (judged fragment))
  | bare => exact tracks_throw _

end Tracking

end DecisionTables
