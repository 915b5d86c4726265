import DecisionTables.Proofs.Remembering

/-!
# Evaluating with less memory

The engine keeps everything that it has computed from one coordinate to the next.  To
compare it with an evaluation that computes everything anew, resolving takes as an
argument what is retained: all of the memory, or nothing but the tables that are being
computed.
-/

namespace DecisionTables

/-- Everything forgotten but the tables that are being computed. -/
def Memo.forget (m : Memo) : Memo :=
  { m with outcomes := [], verdicts := [] }

/-- What of its memory an evaluation retains whenever it resolves a coordinate. -/
structure Retention where
  keep : Memo → Memo
  outcomes : ∀ {m : Memo} {name : String} {o : Outcome},
    (keep m).outcomes.find? name = some o → m.outcomes.find? name = some o
  verdicts : ∀ {m : Memo} {key : SourceId × String} {text : String},
    (keep m).verdicts.find? key = some text → m.verdicts.find? key = some text
  computing : ∀ m : Memo, (keep m).computing = m.computing

namespace Retention

/-- The whole memory is retained. -/
def all : Retention where
  keep m := m
  outcomes found := found
  verdicts found := found
  computing _ := rfl

/-- No outcome of a table and no result of a named condition is retained. -/
def nothing : Retention where
  keep := Memo.forget
  outcomes found := by cases found
  verdicts found := by cases found
  computing _ := rfl

end Retention

/-- The progress with what is retained of its memory. -/
def Progress.retained (R : Retention) (p : Progress) : Progress :=
  { p with memo := R.keep p.memo }

@[simp] theorem Progress.retained_all (p : Progress) : p.retained .all = p := rfl

@[simp] theorem Progress.computing_retained (R : Retention) (p : Progress) :
    (p.retained R).memo.computing = p.memo.computing :=
  R.computing p.memo

namespace Scope

/-- Resolve a coordinate with what is retained of the memory. -/
def resolveBy (scope : Scope) (R : Retention) : Nat → Option Nat → Resolver
  | 0, _, _ => throw .tooDeep
  | depth + 1, room, c => do
    modify fun p => p.retained R
    match Assoc.find? scope (.text c.source) with
    | none => Evaluation.fail (.unknownSource c.source)
    | some (id, source) =>
      match roomBelow source room with
      | some left => source.read (resolveBy scope R depth left) id c.fragment
      | none => source.read (fun _ => throw .tooDeep) id c.fragment

/-- The resolver below a source: it has run out of room where not enough of it is left. -/
def below (scope : Scope) (R : Retention) (depth : Nat) (source : Source) (room : Option Nat) :
    Resolver :=
  match roomBelow source room with
  | some left => scope.resolveBy R depth left
  | none => fun _ => throw .tooDeep

section

variable {scope : Scope} {R : Retention} {depth : Nat} {room : Option Nat} {c : Coordinate}

theorem runFrom_resolveBy_missing (missing : Assoc.find? scope (.text c.source) = none)
    (p : Progress) :
    runFrom (scope.resolveBy R (depth + 1) room c) p =
      (.error (.engine (.unknownSource c.source)), p.retained R) := by
  rw [resolveBy, missing]
  rfl

/-- Resolving a coordinate is reading its fragment from its source. -/
theorem runFrom_resolveBy {id : SourceId} {source : Source}
    (found : Assoc.find? scope (.text c.source) = some (id, source)) (p : Progress) :
    runFrom (scope.resolveBy R (depth + 1) room c) p =
      runFrom (source.read (scope.below R depth source room) id c.fragment) (p.retained R) := by
  rw [resolveBy, found, runFrom_bind, runFrom_modify, below]
  cases left : roomBelow source room with
  | none => simp only [left]
  | some room' => simp only [left]

/-- With the whole memory this is how the engine resolves. -/
theorem resolveBy_all (scope : Scope) (depth : Nat) (room : Option Nat) :
    scope.resolveBy .all depth room = scope.resolveWithin depth room := by
  induction depth generalizing room with
  | zero => rfl
  | succ depth ih =>
      funext c
      rw [resolveBy, resolveWithin]
      cases Assoc.find? scope (.text c.source) with
      | none => rfl
      | some entry =>
          obtain ⟨id, source⟩ := entry
          cases left : roomBelow source room with
          | none =>
              simp only [left]
              rfl
          | some room' =>
              simp only [left, ih room']
              rfl

end

end Scope

/-! ## Reading from a source -/

section

variable {resolve : Resolver} {id : SourceId} {source : Source} {fragment : String}
variable {p : Progress}

namespace Source

/-- What a source has without computing anything: its values, constants, or an error. -/
def direct? (s : Source) (fragment : String) : Option (Except Fault String) :=
  match s.content with
  | .memory _ values _ =>
    some (match values.find? (.text fragment) with
      | some value => .ok value.fragmentText
      | none => .error (.engine (.missingFragment fragment s.name)))
  | .constant => some (.ok fragment)
  | .table _ => none
  | .conditions named =>
    match named.find? fragment with
    | some _ => none
    | none => some (.error (.engine (.unknownCondition fragment)))
  | .bare => some (.error .notProvided)

theorem runFrom_read_direct {result : Except Fault String}
    (direct : source.direct? fragment = some result) :
    runFrom (source.read resolve id fragment) p = (result, p) := by
  obtain ⟨name, content⟩ := source
  cases content with
  | memory kind values defaults =>
      cases direct
      cases found : values.find? (.text fragment) with
      | none =>
          simp only [read, found]
          rfl
      | some value =>
          simp only [read, found]
          rfl
  | constant =>
      cases direct
      rfl
  | table t => cases direct
  | conditions named =>
      unfold direct? at direct
      cases found : named.find? fragment with
      | none =>
          simp only [found] at direct
          cases direct
          simp only [read, found]
          rfl
      | some c =>
          simp only [found] at direct
          cases direct
  | bare =>
      cases direct
      rfl

/-- A source has a fragment as it is, or computes it by a table or by a named condition. -/
theorem direct_or_computed (s : Source) (fragment : String) :
    (∃ result, s.direct? fragment = some result) ∨
      (∃ t, s.content = .table t) ∨
      ∃ named c, s.content = .conditions named ∧ named.find? fragment = some c := by
  obtain ⟨name, content⟩ := s
  cases content with
  | memory kind values defaults => exact .inl ⟨_, rfl⟩
  | constant => exact .inl ⟨_, rfl⟩
  | table t => exact .inr (.inl ⟨t, rfl⟩)
  | conditions named =>
      cases found : named.find? fragment with
      | none =>
          refine .inl ⟨.error (.engine (.unknownCondition fragment)), ?_⟩
          simp only [direct?, found]
      | some c => exact .inr (.inr ⟨named, c, rfl, found⟩)
  | bare => exact .inl ⟨_, rfl⟩

/-- One outcome of a table, taken from the whole outcome. -/
def pick (t : Table) (fragment : String) (outcome : Outcome) : Except Fault String :=
  match outcome.find? fragment with
  | some text => .ok text
  | none => .error (.engine (.missingOutcome t.name fragment))

theorem runFrom_read_table {t : Table} (content : source.content = .table t) :
    runFrom (source.read resolve id fragment) p =
      match runFrom (t.decideOnce resolve) p with
      | (.ok outcome, p') => (pick t fragment outcome, p')
      | (.error f, p') => (.error f, p') := by
  unfold read
  rw [content]
  rw [runFrom_bind]
  rcases runFrom (t.decideOnce resolve) p with ⟨result, p'⟩
  cases result with
  | error f => rfl
  | ok outcome =>
      cases picked : outcome.find? fragment with
      | none =>
          simp only [pick, picked]
          rfl
      | some text =>
          simp only [pick, picked]
          rfl

theorem fst_read_table {t : Table} (content : source.content = .table t) :
    (runFrom (source.read resolve id fragment) p).1 =
      (runFrom (t.decideOnce resolve) p).1.bind (pick t fragment) := by
  rw [runFrom_read_table content]
  rcases runFrom (t.decideOnce resolve) p with ⟨result, p'⟩
  cases result <;> rfl

theorem snd_read_table {t : Table} (content : source.content = .table t) :
    (runFrom (source.read resolve id fragment) p).2 = (runFrom (t.decideOnce resolve) p).2 := by
  rw [runFrom_read_table content]
  rcases runFrom (t.decideOnce resolve) p with ⟨result, p'⟩
  cases result <;> rfl

theorem runFrom_read_condition {named : Assoc String Condition} {c : Condition}
    (content : source.content = .conditions named) (found : named.find? fragment = some c) :
    runFrom (source.read resolve id fragment) p =
      runFrom (c.decideOnce resolve id fragment) p := by
  unfold read
  rw [content]
  simp only [found]

end Source

end

/-! ## Texts that are found as they are -/

namespace Scope

/-- What a coordinate comes upon in a scope: no source, what is found as it is, a table, or a named
condition. -/
inductive Lookup (scope : Scope) (c : Coordinate) : Prop where
  | missing (found : Assoc.find? scope (.text c.source) = none)
  | direct {id : SourceId} {source : Source} {result : Except Fault String}
      (found : Assoc.find? scope (.text c.source) = some (id, source))
      (direct : source.direct? c.fragment = some result)
  | table {id : SourceId} {source : Source} {t : Table}
      (found : Assoc.find? scope (.text c.source) = some (id, source)) (content : source.content = .table t)
  | condition {id : SourceId} {source : Source} {named : Assoc String Condition} {condition : Condition}
      (found : Assoc.find? scope (.text c.source) = some (id, source))
      (content : source.content = .conditions named) (registered : named.find? c.fragment = some condition)

theorem lookup (scope : Scope) (c : Coordinate) : scope.Lookup c := by
  cases found : Assoc.find? scope (.text c.source) with
  | none => exact .missing found
  | some entry =>
      obtain ⟨id, source⟩ := entry
      rcases source.direct_or_computed c.fragment with
        ⟨result, direct⟩ | ⟨t, content⟩ | ⟨named, condition, content, registered⟩
      · exact .direct found direct
      · exact .table found content
      · exact .condition found content registered

/-- The text of a coordinate that is found without computing anything, or why there is none. -/
def direct? (scope : Scope) (c : Coordinate) : Option (Except Fault String) :=
  match Assoc.find? scope (.text c.source) with
  | none => some (.error (.engine (.unknownSource c.source)))
  | some (_, source) => source.direct? c.fragment

theorem runFrom_resolve_direct {scope : Scope} {c : Coordinate} {result : Except Fault String}
    (direct : scope.direct? c = some result) (room : Option Nat) (p : Progress) :
    runFrom (scope.resolve room c) p = (result, p) := by
  obtain ⟨d, deep⟩ : ∃ d, scope.depth = d + 1 := Nat.exists_eq_add_one_of_ne_zero
    (Nat.ne_of_gt (Nat.mul_pos (Nat.succ_pos _) (Nat.succ_pos _)))
  rw [resolve, deep, ← resolveBy_all]
  unfold direct? at direct
  cases found : Assoc.find? scope (.text c.source) with
  | none =>
      rw [found] at direct
      cases direct
      exact runFrom_resolveBy_missing found p
  | some entry =>
      rw [found] at direct
      rw [runFrom_resolveBy found, Source.runFrom_read_direct direct]
      rfl

end Scope

end DecisionTables
