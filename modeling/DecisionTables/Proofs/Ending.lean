import DecisionTables.Proofs.Asking
import DecisionTables.Proofs.Following

/-!
# Evaluations come to an end

A table is entered only while it is not being computed, and between two tables there is
a chain of named conditions.  So a depth of one chain for every table is enough, unless
an evaluation comes to named conditions that refer to each other without an end, or the
room for nesting does not suffice.
-/

namespace DecisionTables

/-! ## What is cut off below a source -/

section

variable {resolve : Resolver} {p : Progress}

theorem Table.cutOff_decideOnce (t : Table) :
    CutOff (t.decideOnce resolve) p ↔
      p.memo.outcomes.find? t.name = none ∧ p.memo.computing.contains t.name = false ∧
        CutOff (t.decide resolve) (p.entering t.name) := by
  unfold CutOff
  cases t.once resolve p with
  | known _ remembered ran =>
      rw [ran, remembered]
      constructor
      · exact fun impossible => by cases impossible
      · exact fun impossible => by cases impossible.1
  | cyclic _ entered ran =>
      rw [ran, entered]
      constructor
      · exact fun impossible => by cases impossible
      · exact fun impossible => by cases impossible.2.1
  | value _ _ _ _ decided ran =>
      rw [ran, decided]
      constructor
      · exact fun impossible => by cases impossible
      · exact fun impossible => by cases impossible.2.2
  | fault _ _ unknown free decided ran =>
      rw [ran, decided]
      exact ⟨fun cut => ⟨unknown, free, cut⟩, fun cut => cut.2.2⟩

theorem Condition.cutOff_decideOnce (c : Condition) (id : SourceId) (name : String) :
    CutOff (c.decideOnce resolve id name) p ↔
      p.memo.verdicts.find? (id, name) = none ∧ CutOff (resolve c.subject) p := by
  rw [← c.cutOff_evaluate]
  unfold CutOff
  cases c.once resolve id name p with
  | known _ remembered ran =>
      rw [ran, remembered]
      constructor
      · exact fun impossible => by cases impossible
      · exact fun impossible => by cases impossible.1
  | value _ _ _ evaluated ran =>
      rw [ran, evaluated]
      constructor
      · exact fun impossible => by cases impossible
      · exact fun impossible => by cases impossible.2
  | fault _ _ unknown evaluated ran =>
      rw [ran, evaluated]
      exact ⟨fun cut => ⟨unknown, congrArg Except.error (Except.error.inj cut)⟩,
        fun cut => congrArg Except.error (Except.error.inj cut.2)⟩

end

namespace Scope

section

variable {scope : Scope} {R : Retention} {d : Nat} {room : Option Nat} {p : Progress}
variable {c : Coordinate} {id : SourceId} {source : Source}

theorem not_cutOff_missing (missing : Assoc.find? scope (.text c.source) = none) :
    ¬ CutOff (scope.resolveBy R (d + 1) room c) p := by
  rw [CutOff, runFrom_resolveBy_missing missing]
  exact fun impossible => by cases impossible

theorem not_cutOff_direct (found : Assoc.find? scope (.text c.source) = some (id, source))
    {result : Except Fault String} (direct : source.direct? c.fragment = some result) :
    ¬ CutOff (scope.resolveBy R (d + 1) room c) p := by
  rw [CutOff, runFrom_resolveBy found, Source.runFrom_read_direct direct]
  intro cut
  rw [show result = .error .tooDeep from cut] at direct
  unfold Source.direct? at direct
  split at direct
  · split at direct <;> cases direct
  · cases direct
  · cases direct
  · split at direct <;> cases direct
  · cases direct

/-- Below a source everything is cut off where not enough room is left. -/
theorem cutOff_below :
    CutOff (scope.below R d source room c) p ↔
      ∀ left, roomBelow source room = some left → CutOff (scope.resolveBy R d left c) p := by
  rw [below]
  cases roomBelow source room with
  | none =>
      constructor
      · intro _ left impossible
        cases impossible
      · exact fun _ => rfl
  | some left =>
      constructor
      · intro cut left' same
        cases same
        exact cut
      · exact fun cut => cut left rfl

theorem cutOff_condition (found : Assoc.find? scope (.text c.source) = some (id, source))
    {named : Assoc String Condition} (content : source.content = .conditions named)
    {condition : Condition} (registered : named.find? c.fragment = some condition) :
    CutOff (scope.resolveBy R (d + 1) room c) p ↔
      (p.retained R).memo.verdicts.find? (id, c.fragment) = none ∧
        CutOff (scope.below R d source room condition.subject) (p.retained R) := by
  rw [CutOff, runFrom_resolveBy found, Source.runFrom_read_condition content registered]
  exact condition.cutOff_decideOnce id c.fragment

theorem cutOff_table (found : Assoc.find? scope (.text c.source) = some (id, source)) {t : Table}
    (content : source.content = .table t) :
    CutOff (scope.resolveBy R (d + 1) room c) p ↔
      (p.retained R).memo.outcomes.find? t.name = none ∧
        p.memo.computing.contains t.name = false ∧
        ∃ a ∈ t.asked (scope.below R d source room) ((p.retained R).entering t.name),
          CutOff (scope.below R d source room a.1) a.2 := by
  rw [← t.cutOff_decide, ← p.computing_retained R, ← t.cutOff_decideOnce]
  rw [CutOff, runFrom_resolveBy found, Source.runFrom_read_table content, CutOff]
  rcases runFrom (t.decideOnce (scope.below R d source room)) (p.retained R) with ⟨result, p'⟩
  cases result with
  | error f =>
      constructor
      · intro cut
        cases cut
        rfl
      · intro cut
        cases cut
        rfl
  | ok outcome =>
      constructor
      · intro cut
        change Source.pick t c.fragment outcome = _ at cut
        unfold Source.pick at cut
        split at cut <;> cases cut
      · exact fun impossible => by cases impossible

theorem follow_of_condition (found : Assoc.find? scope (.text c.source) = some (id, source))
    {named : Assoc String Condition} (content : source.content = .conditions named)
    {condition : Condition} (registered : named.find? c.fragment = some condition) :
    scope.follow c = some condition.subject := by
  rw [follow, found]
  simp only [content, registered, Option.map_some]

/-- Following a reference says where the named condition is kept. -/
theorem condition_of_follow {next : Coordinate} (follows : scope.follow c = some next) :
    ∃ id source named condition, Assoc.find? scope (.text c.source) = some (id, source) ∧
      source.content = .conditions named ∧ named.find? c.fragment = some condition ∧
      condition.subject = next := by
  unfold follow at follows
  split at follows
  · rename_i id source found
    split at follows
    · rename_i named content
      obtain ⟨condition, registered, subject⟩ := Option.map_eq_some_iff.mp follows
      exact ⟨id, source, named, condition, found, content, registered, subject⟩
    · cases follows
  · cases follows

/-! ## The computing tables -/

/-- Every evaluation leaves the marks of the tables that are being computed as they were. -/
def SameComputing (p q : Progress) : Prop :=
  q.memo.computing = p.memo.computing

/-- A table that was entered is left again. -/
theorem SameComputing.leaving {q : Progress} {name : String}
    (same : SameComputing (p.entering name) q) : SameComputing p (q.leaving name) := by
  change q.memo.computing.erase name = p.memo.computing
  rw [show q.memo.computing = name :: p.memo.computing from same]
  exact List.erase_cons_head _ _

theorem along_sameComputing : Along SameComputing :=
  ⟨fun _ => rfl, fun _ _ _ first second => Eq.trans second first, fun _ _ => rfl⟩

theorem computing_below
    (resolved : ∀ room c p, SameComputing p (runFrom (scope.resolveBy R d room c) p).2)
    (c : Coordinate) (p : Progress) :
    SameComputing p (runFrom (scope.below R d source room c) p).2 := by
  rw [below]
  cases roomBelow source room with
  | some left => exact resolved left c p
  | none => rfl

theorem computing_resolveBy (room : Option Nat) (c : Coordinate) (p : Progress) :
    SameComputing p (runFrom (scope.resolveBy R d room c) p).2 := by
  induction d generalizing room c p with
  | zero => rfl
  | succ d ih =>
      cases found : Assoc.find? scope (.text c.source) with
      | none =>
          rw [runFrom_resolveBy_missing found]
          exact p.computing_retained R
      | some entry =>
          obtain ⟨id, source⟩ := entry
          have resolves : ∀ c q, SameComputing q
              (runFrom (scope.below R d source room c) q).2 := computing_below ih
          rw [runFrom_resolveBy found]
          refine Eq.trans ?_ (p.computing_retained R)
          generalize p.retained R = q
          rcases source.direct_or_computed c.fragment with
            ⟨result, direct⟩ | ⟨t, content⟩ | ⟨named, condition, content, registered⟩
          · rw [Source.runFrom_read_direct direct]
          · rw [Source.snd_read_table content]
            exact t.along_decideOnce along_sameComputing resolves
              (fun _ _ same => same.leaving) (fun _ _ _ _ same => same) q
          · rw [Source.runFrom_read_condition content registered]
            exact condition.along_decideOnce along_sameComputing resolves id c.fragment
              (fun _ _ _ _ same => same) q

end

/-! ## How much depth is enough -/

/-- The names of the tables in scope. -/
def tableNames : Scope → List String
  | [] => []
  | (_, _, source) :: rest =>
    match source.content with
    | .table t => t.name :: tableNames rest
    | _ => tableNames rest

/-- The number of tables in scope that are not being computed. -/
def idle (scope : Scope) (busy : List String) : Nat :=
  (scope.tableNames.filter fun name => !busy.contains name).length

theorem length_tableNames (scope : Scope) : scope.tableNames.length = scope.tableCount := by
  induction scope with
  | nil => rfl
  | cons entry rest ih =>
      obtain ⟨name, id, source⟩ := entry
      obtain ⟨own, content⟩ := source
      cases content with
      | table t =>
          simp only [tableNames, tableCount, Source.tableCount, List.length_cons, ih]
          omega
      | _ => simp only [tableNames, tableCount, Source.tableCount, ih, Nat.zero_add]

theorem idle_le (scope : Scope) (busy : List String) : scope.idle busy ≤ scope.tableCount := by
  rw [idle, ← length_tableNames]
  exact List.length_filter_le _ _

theorem mem_tableNames {scope : Scope} {name : String} {id : SourceId} {source : Source}
    {t : Table} (found : Assoc.find? scope (.text name) = some (id, source))
    (content : source.content = .table t) : t.name ∈ scope.tableNames := by
  induction scope with
  | nil => cases found
  | cons entry rest ih =>
      obtain ⟨key, id', source'⟩ := entry
      rw [Assoc.find?] at found
      rw [tableNames]
      split at found
      · cases found
        rw [content]
        exact List.mem_cons_self
      · have later := ih found
        split
        · exact List.mem_cons_of_mem _ later
        · exact later

/-- Entering a table leaves fewer tables to enter. -/
theorem idle_lt {scope : Scope} {busy : List String} {name : String}
    (inside : name ∈ scope.tableNames) (free : busy.contains name = false) :
    scope.idle (name :: busy) < scope.idle busy := by
  unfold idle
  have fewer : (scope.tableNames.filter fun other => !(name :: busy).contains other) =
      (scope.tableNames.filter fun other => !busy.contains other).filter
        fun other => !(other == name) := by
    rw [List.filter_filter]
    congr 1
    funext other
    rw [List.contains_cons, Bool.not_or]
  rw [fewer]
  refine List.length_filter_lt_length_iff_exists.mpr ⟨name, ?_, ?_⟩
  · exact List.mem_filter.mpr ⟨inside, by rw [free]; rfl⟩
  · rw [beq_self_eq_true]
    exact Bool.false_ne_true

/-- A depth that is enough while some tables are being computed. -/
def enough (scope : Scope) (busy : List String) : Nat :=
  (scope.idle busy + 1) * (scope.conditionCount + 1)

theorem enough_le_depth (scope : Scope) (busy : List String) : scope.enough busy ≤ scope.depth :=
  Nat.mul_le_mul_right _ (Nat.succ_le_succ (scope.idle_le busy))

/-! ## Where an evaluation goes too deep -/

/-- From a coordinate on, an evaluation goes deeper than it can: it comes to named conditions
without an end, or to a table or a named condition below which not enough room is left. -/
inductive Exceeds (scope : Scope) (R : Retention) :
    Nat → Option Nat → Progress → Coordinate → Prop where
  | endless {d room p c} (endless : scope.Endless c) : Exceeds scope R (d + 1) room p c
  | condition {d room p c id source named condition}
      (found : Assoc.find? scope (.text c.source) = some (id, source))
      (content : source.content = .conditions named)
      (registered : named.find? c.fragment = some condition)
      (unknown : (p.retained R).memo.verdicts.find? (id, c.fragment) = none)
      (later : ∀ left, roomBelow source room = some left →
        Exceeds scope R d left (p.retained R) condition.subject) : Exceeds scope R (d + 1) room p c
  | table {d room p c id source t a}
      (found : Assoc.find? scope (.text c.source) = some (id, source))
      (content : source.content = .table t)
      (unknown : (p.retained R).memo.outcomes.find? t.name = none)
      (entered : p.memo.computing.contains t.name = false)
      (asked : a ∈ t.asked (scope.below R d source room) ((p.retained R).entering t.name))
      (later : ∀ left, roomBelow source room = some left → Exceeds scope R d left a.2 a.1) :
      Exceeds scope R (d + 1) room p c

/-- Enough room for a depth, whatever is resolved. -/
def Ample (depth : Nat) (room : Option Nat) : Prop :=
  ∀ limit, room = some limit → 12 * depth ≤ limit

theorem ample_none (depth : Nat) : Ample depth none :=
  fun _ impossible => by cases impossible

theorem Ample.roomBelow {depth : Nat} {room : Option Nat} (ample : Ample (depth + 1) room)
    (source : Source) : ∃ left, Scope.roomBelow source room = some left ∧ Ample depth left := by
  cases room with
  | none => exact ⟨none, rfl, ample_none depth⟩
  | some limit =>
      have enough := ample limit rfl
      have steps : source.steps ≤ 12 := by
        unfold Source.steps
        split <;> omega
      refine ⟨some (limit - source.steps), ?_, ?_⟩
      · rw [Scope.roomBelow, if_neg (by omega)]
      · intro limit' same
        cases same
        omega

variable {scope : Scope} {R : Retention}

/-- With ample room only named conditions without an end are too deep. -/
theorem Exceeds.exists_endless {d : Nat} {room : Option Nat} {p : Progress} {c : Coordinate}
    (exceeds : scope.Exceeds R d room p c) (ample : Ample d room) : ∃ e, scope.Endless e := by
  induction exceeds with
  | endless endless => exact ⟨_, endless⟩
  | @condition d room p c id source named condition _ _ _ _ _ ih =>
      obtain ⟨left, enough, ample⟩ := ample.roomBelow source
      exact ih left enough ample
  | @table d room p c id source t a _ _ _ _ _ _ ih =>
      obtain ⟨left, enough, ample⟩ := ample.roomBelow source
      exact ih left enough ample

/-- A table is cut off only where it goes deeper than it can, if what needs fewer tables is. -/
theorem exceeds_of_table {n : Nat}
    (below : ∀ d room p c, scope.idle p.memo.computing < n →
      scope.enough p.memo.computing ≤ d → CutOff (scope.resolveBy R d room c) p →
        scope.Exceeds R d room p c)
    {d : Nat} {room : Option Nat} {p : Progress} {c : Coordinate} {id : SourceId} {source : Source}
    (found : Assoc.find? scope (.text c.source) = some (id, source)) {t : Table}
    (content : source.content = .table t) (idle : scope.idle p.memo.computing = n)
    (deep : n * (scope.conditionCount + 1) ≤ d)
    (cut : CutOff (scope.resolveBy R (d + 1) room c) p) : scope.Exceeds R (d + 1) room p c := by
  obtain ⟨unknown, entered, a, asked, cut⟩ := (cutOff_table found content).mp cut
  have computing : a.2.memo.computing = t.name :: p.memo.computing := by
    refine Eq.trans (t.along_asked along_sameComputing
      (computing_below computing_resolveBy) _ a asked) ?_
    exact congrArg (t.name :: ·) (p.computing_retained R)
  have fewer : scope.idle a.2.memo.computing < n := by
    rw [computing, ← idle]
    exact idle_lt (mem_tableNames found content) entered
  refine .table found content unknown entered asked fun left enough => ?_
  refine below d left a.2 a.1 fewer ?_ (cutOff_below.mp cut left enough)
  have enough := Nat.mul_le_mul_right (scope.conditionCount + 1) (Nat.succ_le_of_lt fewer)
  exact enough.trans deep

/-- Along a chain of named conditions that ends, it is the table at the end that is cut off. -/
theorem exceeds_of_chain {n : Nat}
    (below : ∀ d room p c, scope.idle p.memo.computing < n →
      scope.enough p.memo.computing ≤ d → CutOff (scope.resolveBy R d room c) p →
        scope.Exceeds R d room p c)
    (j : Nat) {d : Nat} {room : Option Nat} {p : Progress} {c e : Coordinate}
    (idle : scope.idle p.memo.computing = n) (reached : scope.chain j c = some e)
    (last : scope.follow e = none) (deep : n * (scope.conditionCount + 1) + j + 1 ≤ d)
    (cut : CutOff (scope.resolveBy R d room c) p) : scope.Exceeds R d room p c := by
  induction j generalizing d room p c with
  | zero =>
      obtain rfl : c = e := Option.some.inj reached
      obtain ⟨d, rfl⟩ := Nat.exists_eq_add_of_le' (by omega : 1 ≤ d)
      cases scope.lookup c with
      | missing found => exact (not_cutOff_missing found cut).elim
      | direct found direct => exact (not_cutOff_direct found direct cut).elim
      | table found content => exact exceeds_of_table below found content idle (by omega) cut
      | condition found content registered =>
          rw [follow_of_condition found content registered] at last
          cases last
  | succ j ih =>
      obtain ⟨d, rfl⟩ := Nat.exists_eq_add_of_le' (by omega : 1 ≤ d)
      rw [chain] at reached
      cases follows : scope.follow c with
      | none =>
          rw [follows] at reached
          cases reached
      | some next =>
          rw [follows] at reached
          obtain ⟨id, source, named, condition, found, content, registered, subject⟩ :=
            condition_of_follow follows
          obtain ⟨unknown, cut⟩ := (cutOff_condition found content registered).mp cut
          refine .condition found content registered unknown fun left enough => ?_
          refine ih ?_ ?_ (by omega) (cutOff_below.mp cut left enough)
          · rw [p.computing_retained R]
            exact idle
          · rw [subject]
            exact reached

/-- With enough depth an evaluation is cut off only where it goes deeper than it can. -/
theorem exceeds_of_cutOff {d : Nat} {room : Option Nat} {p : Progress} {c : Coordinate}
    (deep : scope.enough p.memo.computing ≤ d) (cut : CutOff (scope.resolveBy R d room c) p) :
    scope.Exceeds R d room p c := by
  generalize idle : scope.idle p.memo.computing = n
  induction n using Nat.strong_induction_on generalizing d room p c with
  | _ n ih =>
      rw [enough, idle, Nat.succ_mul] at deep
      by_cases endless : scope.Endless c
      · obtain ⟨d, rfl⟩ := Nat.exists_eq_add_of_le' (by omega : 1 ≤ d)
        exact .endless endless
      · obtain ⟨j, e, le, reached, last⟩ := exists_end endless
        refine exceeds_of_chain ?_ j idle reached last (by omega) cut
        intro d' room' p' c' fewer deep' cut'
        exact ih _ fewer deep' cut' rfl

/-- Where every chain of named conditions ends, ample room is enough for every coordinate. -/
theorem not_cutOff_of_ends {room : Option Nat} (ample : Ample scope.depth room)
    (ends : ∀ c, ¬ scope.Endless c) (c : Coordinate) (p : Progress) :
    ¬ CutOff (scope.resolveBy R scope.depth room c) p := by
  intro cut
  have exceeds := exceeds_of_cutOff (scope.enough_le_depth p.memo.computing) cut
  obtain ⟨e, endless⟩ := exceeds.exists_endless ample
  exact ends e endless

theorem not_cutOff_table {room : Option Nat} (ample : Ample scope.depth room)
    (ends : ∀ c, ¬ scope.Endless c) (t : Table) (p : Progress) :
    ¬ CutOff (t.decideOnce (scope.resolveBy R scope.depth room)) p := by
  rw [t.cutOff_decideOnce]
  rintro ⟨_, _, cut⟩
  exact t.uniform_decide.not_cutOff (not_cutOff_of_ends ample ends) _ cut

end Scope

end DecisionTables
