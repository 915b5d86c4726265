import DecisionTables.Proofs.Meaning
import DecisionTables.Proofs.Transparency

/-!
# Outcomes computed afresh

What the engine gives for a table, in whatever room and whatever it has computed before, is
what it would give without a limit and without its memory, unless it runs too deep.  So it is
the outcome that the texts of the coordinates give.
-/

namespace DecisionTables

namespace Scope

/-! ## Limited room -/

/-- One side goes along with the other until it runs too deep. -/
def limiting : Tracking where
  rel p q := p = q
  gaps _ := False
  slips f := f = .tooDeep
  rel_reported e same := congrArg (·.reported e) same

theorem limiting_same {β : Type} (f : Progress → β) {p q : Progress} (same : limiting.rel p q) :
    f p = f q :=
  congrArg f same

theorem limiting_remembers : limiting.Remembers where
  outcomes same := limiting_same (·.memo.outcomes) same
  computing same := limiting_same (·.memo.computing) same
  entering name same := limiting_same (·.entering name) same
  leaving name same := limiting_same (·.leaving name) same
  knowing name o same := limiting_same (·.knowing name o) same

theorem limiting_read {r s : Resolver} (along : ∀ c, limiting.Tracks (r c) (s c)) (id : SourceId)
    (source : Source) (fragment : String) :
    limiting.Tracks (source.read r id fragment) (source.read s id fragment) :=
  Tracking.tracks_read limiting_remembers along
    (fun name same => limiting_same (·.memo.verdicts.find? (id, name)) same)
    (fun name text same => limiting_same (·.judged id name text) same) source fragment

/-- In limited room the engine gives what it gives without a limit, or it runs too deep. -/
theorem limiting_resolveWithin (scope : Scope) (d : Nat) (room : Option Nat) (c : Coordinate) :
    limiting.Tracks (scope.resolveWithin d room c) (scope.resolveWithin d none c) := by
  induction d generalizing room c with
  | zero => exact Tracking.tracks_throw _
  | succ d ih =>
      rw [resolveWithin, resolveWithin_none]
      cases Assoc.find? scope (.text c.source) with
      | none => exact Tracking.tracks_fail _
      | some entry =>
          obtain ⟨id, source⟩ := entry
          cases enough : roomBelow source room with
          | some left =>
              simp only [enough]
              exact limiting_read (ih left) id source c.fragment
          | none =>
              have along : ∀ c, limiting.Tracks (throw .tooDeep) (scope.resolveWithin d none c) :=
                fun _ _ _ same => .slip rfl same
              simp only [enough]
              exact limiting_read along id source c.fragment

/-! ## Without memory -/

variable {scope : Scope} {catalog : Catalog} {t : Table} {p : Progress}

/-- Where every chain of named conditions ends, a table has an outcome without a limit and without
memory, and it is the outcome that the engine gives, unless this runs too deep. -/
theorem decideOnce_afresh (coherent : scope.Coherent) (owned : scope.Owned catalog)
    (ends : ∀ c, ¬ scope.Endless c) (own : catalog.table t.name = .ok t) (room : Option Nat)
    (refreshes : Refreshes scope catalog .start p) :
    let afresh := (runFrom (t.decideOnce (scope.resolveBy .nothing scope.depth none)) .start).1
    afresh ≠ .error .tooDeep ∧ ((runFrom (t.decideOnce (scope.resolve room)) p).1 = .error .tooDeep ∨
      (runFrom (t.decideOnce (scope.resolve room)) p).1 = afresh) := by
  intro afresh
  have shallow : afresh ≠ .error .tooDeep := not_cutOff_table (ample_none _) ends t .start
  have limited := (Tracking.tracks_decideOnce limiting_remembers
    (scope.limiting_resolveWithin scope.depth room) t p p rfl).tooDeep_or_eq (fun _ => id) fun _ => id
  have refreshed : afresh = .error .tooDeep ∨
      (runFrom (t.decideOnce (scope.resolve none)) p).1 = afresh := by
    rw [resolve, ← scope.resolveBy_all]
    exact (refreshing_table
      (fun l => confirmed_resolveBy coherent owned l Retention.nothing.spares_blank scope.depth none)
      (recorded_resolveBy coherent owned scope.depth none)
      (refreshing_resolveBy coherent owned .nothing scope.depth none) own .start p
      refreshes).tooDeep_or_eq (fun _ => id) fun _ => id
  refine ⟨shallow, limited.imp_right fun same => ?_⟩
  rw [resolve, ← same, ← resolve, refreshed.resolve_left shallow]

/-- The engine gives the outcome of a table that its texts give, unless it runs too deep. -/
theorem decideOnce_eq_answer (coherent : scope.Coherent) (owned : scope.Owned catalog)
    (ends : ∀ c, ¬ scope.Endless c) (own : catalog.table t.name = .ok t) (room : Option Nat)
    (refreshes : Refreshes scope catalog .start p) :
    (runFrom (t.decideOnce (scope.resolve room)) p).1 = .error .tooDeep ∨
      (runFrom (t.decideOnce (scope.resolve room)) p).1 =
        t.outcomeBy (scope.answer scope.depth [t.name]) := by
  obtain ⟨shallow, limited⟩ := decideOnce_afresh coherent owned ends own room refreshes
  have meant := (meaning_table (scope.meaning_answer scope.depth none [t.name]) rfl rfl
    rfl).resolve_left shallow
  rw [← meant]
  exact limited

/-- Where every chain of named conditions ends, a step that only resolves coordinates gives what it gives
by their texts, unless it runs too deep. -/
theorem step_eq_answer (coherent : scope.Coherent) (owned : scope.Owned catalog)
    (ends : ∀ c, ¬ scope.Endless c) {α : Type} {step : Resolver → Evaluation α} (uniform : Uniform step)
    (room : Option Nat) (refreshes : Refreshes scope catalog .start p) :
    (runFrom (step (scope.resolve room)) p).1 = .error .tooDeep ∨
      (runFrom (step (scope.resolve room)) p).1 =
        (runFrom (step (.ofTexts (scope.answer scope.depth []))) .start).1 := by
  have shallow : ¬ CutOff (step (scope.resolveBy .nothing scope.depth none)) .start :=
    uniform.not_cutOff (not_cutOff_of_ends (ample_none _) ends) .start
  have limited := (uniform.tracks (scope.limiting_resolveWithin scope.depth room) p p
    rfl).tooDeep_or_eq (fun _ => id) fun _ => id
  have refreshed := (uniform.tracks (refreshing_resolveBy coherent owned .nothing scope.depth none)
    .start p refreshes).tooDeep_or_eq (fun _ => id) fun _ => id
  have meant := (uniform.tracks (scope.meaning_answer scope.depth none []) .start .start
    rfl).tooDeep_or_eq (fun _ impossible => impossible) fun _ deep => deep
  rw [scope.resolveBy_all] at refreshed
  refine limited.imp_right fun same => ?_
  rw [resolve, ← same, refreshed.resolve_left shallow, meant.resolve_left shallow]

end Scope

end DecisionTables
