import DecisionTables.Proofs.Ending
import DecisionTables.Proofs.Opened

/-!
# What texts mean

The text of a coordinate while some tables are being computed, as a function of nothing
else: there is no memory, no trace and no limit on nesting.  It takes at most so many
coordinates; without named conditions it ends of itself, because every table that it enters
is one more that is being computed.  The engine without its memory gives this text or runs
too deep.
-/

namespace DecisionTables

/-- Coordinates have the texts that a function gives them. -/
def Resolver.ofTexts (text : Coordinate → Except Fault String) : Resolver :=
  fun c => ExceptT.mk (pure (text c))

/-- The result of a condition where coordinates have certain texts. -/
def Condition.resultBy (text : Coordinate → Except Fault String) (c : Condition) :
    Except Fault (Bool × String) :=
  (runFrom (c.evaluate (.ofTexts text)) .start).1

namespace Table

/-- The outcome of a table where coordinates have certain texts. -/
def outcomeBy (text : Coordinate → Except Fault String) (t : Table) : Except Fault Outcome :=
  (runFrom (t.decide (.ofTexts text)) .start).1

/-- The coordinates that a table refers to on the way to its outcome: rule by rule, and in each rule
up to the first condition that does not hold. -/
def follows (text : Coordinate → Except Fault String) (t : Table) : List Coordinate :=
  (t.asked (.ofTexts text) .start).map Prod.fst

/-- A table has an error that it does not raise itself exactly where a coordinate has it that it
refers to. -/
theorem outcomeBy_eq_error_iff {text : Coordinate → Except Fault String} {t : Table} {f : Fault}
    (passed : f.Passed) :
    t.outcomeBy text = .error f ↔ ∃ c ∈ t.follows text, text c = .error f := by
  refine (passed.failsWith_decide t).trans ?_
  constructor
  · rintro ⟨a, asked, failed⟩
    exact ⟨a.1, List.mem_map_of_mem asked, failed⟩
  · rintro ⟨_, followed, failed⟩
    obtain ⟨a, asked, rfl⟩ := List.mem_map.mp followed
    exact ⟨a, asked, failed⟩

end Table

namespace Scope

/-- The text of a coordinate while some tables are being computed, through at most `depth` further
coordinates. -/
def answer (scope : Scope) : Nat → List String → Coordinate → Except Fault String
  | 0, _, _ => .error .tooDeep
  | depth + 1, busy, c =>
    match Assoc.find? scope (.text c.source) with
    | none => .error (.engine (.unknownSource c.source))
    | some (_, source) =>
      match source.content with
      | .table t =>
        if busy.contains t.name then .error (.engine (.cyclicTable t.name))
        else (t.outcomeBy (answer scope depth (t.name :: busy))).bind (Source.pick t c.fragment)
      | .conditions named =>
        match named.find? c.fragment with
        | some condition => (condition.resultBy (answer scope depth busy)).map Condition.verdict
        | none => .error (.engine (.unknownCondition c.fragment))
      | _ => (source.direct? c.fragment).getD (.error .notProvided)

/-- The text of a coordinate while some tables are being computed, where there are no named
conditions. -/
def text (scope : Scope) (busy : List String) (c : Coordinate) : Except Fault String :=
  match _ : Assoc.find? scope (.text c.source) with
  | none => .error (.engine (.unknownSource c.source))
  | some (_, source) =>
    match _ : source.content with
    | .table t =>
      if _ : busy.contains t.name then .error (.engine (.cyclicTable t.name))
      else (t.outcomeBy fun next => scope.text (t.name :: busy) next).bind (Source.pick t c.fragment)
    | _ => (source.direct? c.fragment).getD (.error .notProvided)
termination_by scope.idle busy
decreasing_by
  rename_i _ found content cyclic
  exact idle_lt (mem_tableNames found content) (Bool.eq_false_iff.mpr cyclic)

section

variable {scope : Scope} {busy : List String} {c : Coordinate} {id : SourceId} {source : Source}

theorem answer_missing {d : Nat} (missing : Assoc.find? scope (.text c.source) = none) :
    scope.answer (d + 1) busy c = .error (.engine (.unknownSource c.source)) := by
  rw [answer, missing]

theorem answer_direct {d : Nat} (found : Assoc.find? scope (.text c.source) = some (id, source))
    {result : Except Fault String} (direct : source.direct? c.fragment = some result) :
    scope.answer (d + 1) busy c = result := by
  rw [answer, found]
  cases content : source.content with
  | table t =>
      rw [Source.direct?, content] at direct
      cases direct
  | conditions named =>
      rw [Source.direct?, content] at direct
      cases registered : named.find? c.fragment with
      | none =>
          simp only [registered] at direct
          simp only [content, registered, Option.some.inj direct]
      | some condition =>
          simp only [registered] at direct
          cases direct
  | _ => simp only [content, direct, Option.getD_some]

theorem answer_table {d : Nat} (found : Assoc.find? scope (.text c.source) = some (id, source))
    {t : Table} (content : source.content = .table t) :
    scope.answer (d + 1) busy c =
      if busy.contains t.name then .error (.engine (.cyclicTable t.name))
      else (t.outcomeBy (scope.answer d (t.name :: busy))).bind (Source.pick t c.fragment) := by
  rw [answer, found]
  simp only [content]

theorem answer_condition {d : Nat} (found : Assoc.find? scope (.text c.source) = some (id, source))
    {named : Assoc String Condition} (content : source.content = .conditions named)
    {condition : Condition} (registered : named.find? c.fragment = some condition) :
    scope.answer (d + 1) busy c =
      (condition.resultBy (scope.answer d busy)).map Condition.verdict := by
  rw [answer, found]
  simp only [content, registered]

/-- A table answers where it is not being computed and its outcome names the fragment. -/
theorem answer_table_eq_ok_iff {d : Nat} (found : Assoc.find? scope (.text c.source) = some (id, source))
    {t : Table} (content : source.content = .table t) {s : String} :
    scope.answer (d + 1) busy c = .ok s ↔ t.name ∉ busy ∧
      ∃ o, t.outcomeBy (scope.answer d (t.name :: busy)) = .ok o ∧
        Source.pick t c.fragment o = .ok s := by
  rw [answer_table found content]
  simp only [List.contains_iff_mem]
  constructor
  · intro given
    split at given
    · cases given
    · rename_i outside
      cases decided : t.outcomeBy (scope.answer d (t.name :: busy)) with
      | error f =>
          rw [decided] at given
          cases given
      | ok o =>
          rw [decided] at given
          exact ⟨outside, o, rfl, given⟩
  · rintro ⟨outside, o, decided, picked⟩
    rw [if_neg outside, decided]
    exact picked

/-- A named condition answers with the word for its result. -/
theorem answer_condition_eq_ok_iff {d : Nat}
    (found : Assoc.find? scope (.text c.source) = some (id, source))
    {named : Assoc String Condition} (content : source.content = .conditions named)
    {condition : Condition} (registered : named.find? c.fragment = some condition) {s : String} :
    scope.answer (d + 1) busy c = .ok s ↔
      ∃ result, condition.resultBy (scope.answer d busy) = .ok result ∧
        Condition.verdict result = s := by
  rw [answer_condition found content registered]
  constructor
  · intro given
    cases judged : condition.resultBy (scope.answer d busy) with
    | error f =>
        rw [judged] at given
        cases given
    | ok result =>
        rw [judged] at given
        exact ⟨result, rfl, Except.ok.inj given⟩
  · rintro ⟨result, judged, rfl⟩
    rw [judged]
    rfl

theorem text_missing (missing : Assoc.find? scope (.text c.source) = none) :
    scope.text busy c = .error (.engine (.unknownSource c.source)) := by
  rw [text]
  split
  · rfl
  · rename_i found
    rw [missing] at found
    cases found

/-- A source that is not a table has its fragments without computing anything. -/
theorem text_direct (found : Assoc.find? scope (.text c.source) = some (id, source))
    (direct : ∀ t, source.content ≠ .table t) :
    scope.text busy c = (source.direct? c.fragment).getD (.error .notProvided) := by
  rw [text]
  split
  · rename_i missing
    rw [missing] at found
    cases found
  · rename_i found'
    rw [found] at found'
    cases found'
    split
    · rename_i t content
      exact (direct t content).elim
    · rfl

theorem text_table (found : Assoc.find? scope (.text c.source) = some (id, source)) {t : Table}
    (content : source.content = .table t) :
    scope.text busy c =
      if busy.contains t.name then .error (.engine (.cyclicTable t.name))
      else (t.outcomeBy (scope.text (t.name :: busy))).bind (Source.pick t c.fragment) := by
  rw [text]
  split
  · rename_i missing
    rw [missing] at found
    cases found
  · rename_i found'
    rw [found] at found'
    cases found'
    split
    · rename_i u content'
      rw [content] at content'
      cases content'
      rfl
    · rename_i other
      exact (other t content).elim

/-! ## The engine without its memory -/

/-- While the same tables are being computed, one side goes along with texts that depend on nothing
else until it runs too deep. -/
def meaning (busy : List String) : Tracking where
  rel p _ := p.memo.computing = busy
  gaps _ := False
  slips f := f = .tooDeep
  rel_reported _ same := same

theorem meaning_ends {α : Type} {ran : Except Fault α × Progress} {result : Except Fault α} {q : Progress}
    (same : ran.2.memo.computing = busy) (means : ran.1 = .error .tooDeep ∨ ran.1 = result) :
    (meaning busy).Ends ran (result, q) := by
  obtain ⟨given, p⟩ := ran
  rcases means with rfl | rfl
  · exact .slip (q := q) rfl same
  · cases given with
    | ok a => exact .value a same
    | error f => exact .fault f same

/-- A table that is computed without memory has its outcome by the texts, or it runs too deep. -/
theorem meaning_table {r : Resolver} {t : Table} {text : Coordinate → Except Fault String}
    (along : ∀ c, (meaning (t.name :: busy)).Tracks (r c) (Resolver.ofTexts text c))
    (free : busy.contains t.name = false) {p : Progress} (unknown : p.memo.outcomes.find? t.name = none)
    (same : p.memo.computing = busy) :
    (runFrom (t.decideOnce r) p).1 = .error .tooDeep ∨
      (runFrom (t.decideOnce r) p).1 = t.outcomeBy text := by
  have entered : p.memo.computing.contains t.name = false := by
    rw [same]
    exact free
  have ends := t.uniform_decide.tracks along (p.entering t.name) .start
    (congrArg (t.name :: ·) same)
  rw [Table.runFrom_decideOnce_new unknown entered, Table.outcomeBy]
  have means := ends.tooDeep_or_eq (fun _ => id) fun _ => id
  revert means
  rcases runFrom (t.decide r) (p.entering t.name) with ⟨result, p'⟩
  cases result <;> exact Or.imp_right Eq.symm

/-- A named condition that is evaluated without memory has its result by the texts, or it runs too
deep. -/
theorem meaning_condition {r : Resolver} {text : Coordinate → Except Fault String}
    (along : ∀ c, (meaning busy).Tracks (r c) (Resolver.ofTexts text c)) (condition : Condition)
    {id : SourceId} {name : String} {p : Progress} (unknown : p.memo.verdicts.find? (id, name) = none)
    (same : p.memo.computing = busy) :
    (runFrom (condition.decideOnce r id name) p).1 = .error .tooDeep ∨
      (runFrom (condition.decideOnce r id name) p).1 =
        (condition.resultBy text).map Condition.verdict := by
  have ends := condition.uniform_evaluate.tracks along p .start same
  rw [Condition.runFrom_decideOnce_new unknown, Condition.resultBy]
  have means := ends.tooDeep_or_eq (fun _ impossible => impossible) fun _ deep => deep
  revert means
  generalize (runFrom (condition.evaluate (.ofTexts text)) .start).1 = meant
  rcases runFrom (condition.evaluate r) p with ⟨result, p'⟩
  rintro (deep | rfl)
  · cases deep
    exact .inl rfl
  · cases meant <;> exact .inr rfl

/-- Without its memory the engine gives the text of a coordinate, or it runs too deep. -/
theorem meaning_answer (scope : Scope) (d : Nat) (room : Option Nat) (busy : List String)
    (c : Coordinate) :
    (meaning busy).Tracks (scope.resolveBy .nothing d room c)
      (Resolver.ofTexts (scope.answer d busy) c) := by
  induction d generalizing room busy c with
  | zero => exact fun p q same => .slip rfl same
  | succ d ih =>
      intro p q same
      have along : ∀ (source : Source) (busy : List String) (c : Coordinate),
          (meaning busy).Tracks (scope.below .nothing d source room c)
            (Resolver.ofTexts (scope.answer d busy) c) := by
        intro source busy c p q same
        rw [below]
        cases roomBelow source room with
        | some left => exact ih left busy c p q same
        | none => exact .slip rfl same
      have same' := (p.computing_retained .nothing).trans same
      change (meaning busy).Ends _ (scope.answer (d + 1) busy c, q)
      refine meaning_ends ((computing_resolveBy room c p).trans same) ?_
      cases scope.lookup c with
      | missing found =>
          rw [runFrom_resolveBy_missing found, answer_missing found]
          exact .inr rfl
      | direct found direct =>
          rw [runFrom_resolveBy found, Source.runFrom_read_direct direct, answer_direct found direct]
          exact .inr rfl
      | @table _ source t found content =>
          rw [runFrom_resolveBy found, Source.fst_read_table content, answer_table found content]
          cases cyclic : busy.contains t.name with
          | true =>
              rw [Table.runFrom_decideOnce_cyclic rfl (same'.symm ▸ cyclic), if_pos rfl]
              exact .inr rfl
          | false =>
              rw [if_neg Bool.false_ne_true]
              rcases meaning_table (along source (t.name :: busy)) cyclic rfl same' with deep | means
              · rw [deep]
                exact .inl rfl
              · rw [means]
                exact .inr rfl
      | @condition _ source _ condition found content registered =>
          rw [runFrom_resolveBy found, Source.runFrom_read_condition content registered,
            answer_condition found content registered]
          exact meaning_condition (along source busy) condition rfl same'

/-! ## Scopes without named conditions -/

/-- No source has named conditions. -/
def Unconditional (scope : Scope) : Prop :=
  ∀ entry ∈ scope, ∀ named, entry.2.2.content ≠ .conditions named

/-- Where coordinates are given only some of their texts, a table has its outcome or runs too deep. -/
theorem tooDeep_or_outcomeBy {part whole : Coordinate → Except Fault String}
    (either : ∀ c, part c = .error .tooDeep ∨ part c = whole c) (t : Table) :
    t.outcomeBy part = .error .tooDeep ∨ t.outcomeBy whole = t.outcomeBy part := by
  have along : ∀ c, (meaning []).Tracks (Resolver.ofTexts part c) (Resolver.ofTexts whole c) := by
    intro c p q same
    change (meaning []).Ends (part c, p) (whole c, q)
    exact meaning_ends same (either c)
  exact (t.uniform_decide.tracks along .start .start rfl).tooDeep_or_eq
    (fun _ impossible => impossible) fun _ deep => deep

/-- Where there are no named conditions, what is found through so many coordinates is the text. -/
theorem tooDeep_or_text (unconditional : scope.Unconditional) (d : Nat) (busy : List String)
    (c : Coordinate) :
    scope.answer d busy c = .error .tooDeep ∨ scope.answer d busy c = scope.text busy c := by
  induction d generalizing busy c with
  | zero => exact .inl rfl
  | succ d ih =>
      cases scope.lookup c with
      | missing found => exact .inr ((answer_missing found).trans (text_missing found).symm)
      | @direct _ source _ found direct =>
          have untabled : ∀ t, source.content ≠ .table t := by
            intro t content
            rw [Source.direct?, content] at direct
            cases direct
          rw [answer_direct found direct, text_direct found untabled, direct]
          exact .inr rfl
      | @table _ _ t found content =>
          rw [answer_table found content, text_table found content]
          cases busy.contains t.name with
          | true => exact .inr rfl
          | false =>
              rw [if_neg Bool.false_ne_true, if_neg Bool.false_ne_true]
              rcases tooDeep_or_outcomeBy (ih (t.name :: busy)) t with deep | same
              · rw [deep]
                exact .inl rfl
              · rw [same]
                exact .inr rfl
      | condition found content _ =>
          obtain ⟨_, _, member⟩ := Assoc.exists_mem_of_find? found
          exact (unconditional _ member _ content).elim

theorem meaning_resolveBy (unconditional : scope.Unconditional) (d : Nat) (room : Option Nat)
    (busy : List String) (c : Coordinate) :
    (meaning busy).Tracks (scope.resolveBy .nothing d room c) (Resolver.ofTexts (scope.text busy) c) := by
  intro p q same
  have ends := meaning_answer scope d room busy c p q same
  change (meaning busy).Ends _ (scope.answer d busy c, q) at ends
  change (meaning busy).Ends _ (scope.text busy c, q)
  rcases tooDeep_or_text unconditional d busy c with deep | same
  · rw [deep] at ends
    revert ends
    generalize runFrom (scope.resolveBy .nothing d room c) p = ran
    intro ends
    cases ends with
    | gap impossible => exact impossible.elim
    | slip deep related => exact .slip deep related
    | fault f related => exact .slip rfl related
  · rw [← same]
    exact ends

end

end Scope

end DecisionTables
