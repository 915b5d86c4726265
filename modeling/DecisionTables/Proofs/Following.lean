import DecisionTables.Evaluation
import Mathlib.Data.Finset.Card

/-!
# Following named conditions

A named condition refers to the coordinate that is its subject.  Following these
references from one named condition to the next either leaves the named conditions
after no more steps than there are named conditions, or goes on without an end.
-/

namespace DecisionTables

namespace Scope

/-- The coordinate that a named condition is about. -/
def follow (scope : Scope) (c : Coordinate) : Option Coordinate :=
  match Assoc.find? scope (.text c.source) with
  | some (_, source) =>
    match source.content with
    | .conditions named => (named.find? c.fragment).map Condition.subject
    | _ => none
  | none => none

/-- The coordinate that is reached after some references of named conditions. -/
def chain (scope : Scope) : Nat → Coordinate → Option Coordinate
  | 0, c => some c
  | n + 1, c => (scope.follow c).bind (scope.chain n)

/-- The named conditions refer to each other without an end. -/
def Endless (scope : Scope) (c : Coordinate) : Prop :=
  ∀ n, scope.chain n c ≠ none

/-- The named conditions, each by the name of its source and its own name. -/
def labels : Scope → List (Scalar × String)
  | [] => []
  | (name, _, source) :: rest =>
    match source.content with
    | .conditions named => named.map (fun entry => (name, entry.1)) ++ labels rest
    | _ => labels rest

theorem length_labels (scope : Scope) : scope.labels.length = scope.conditionCount := by
  induction scope with
  | nil => rfl
  | cons entry rest ih =>
      obtain ⟨name, id, source⟩ := entry
      obtain ⟨own, content⟩ := source
      cases content with
      | conditions named =>
          simp only [labels, conditionCount, Source.conditionCount, List.length_append,
            List.length_map, ih]
      | _ => simp only [labels, conditionCount, Source.conditionCount, ih, Nat.zero_add]

/-! ## Chains -/

section

variable {scope : Scope} {c d : Coordinate}

theorem chain_add (m n : Nat) (c : Coordinate) :
    scope.chain (m + n) c = (scope.chain m c).bind (scope.chain n) := by
  induction m generalizing c with
  | zero => rw [Nat.zero_add]; rfl
  | succ m ih =>
      rw [Nat.succ_add, chain, chain]
      cases scope.follow c with
      | none => rfl
      | some d => exact ih d

theorem chain_ne_none_of_le {m n : Nat} (le : m ≤ n) (goes : scope.chain n c ≠ none) :
    scope.chain m c ≠ none := by
  intro ends
  rw [← Nat.add_sub_of_le le, chain_add, ends] at goes
  exact goes rfl

theorem Endless.follow (endless : scope.Endless c) :
    ∃ d, scope.follow c = some d ∧ scope.Endless d := by
  cases next : scope.follow c with
  | none =>
      have first := endless 1
      rw [chain, next] at first
      exact (first rfl).elim
  | some d =>
      refine ⟨d, rfl, fun n => ?_⟩
      have later := endless (n + 1)
      rw [chain, next] at later
      exact later

/-- A chain that comes to where it was before has no end. -/
theorem endless_of_repeated {i j : Nat} (before : i < j) (goes : scope.chain j c ≠ none)
    (same : scope.chain i c = scope.chain j c) : scope.Endless c := by
  intro n
  induction n using Nat.strong_induction_on with
  | _ n ih =>
      by_cases inside : n ≤ j
      · exact chain_ne_none_of_le inside goes
      · have back : scope.chain n c = scope.chain (i + (n - j)) c := by
          rw [chain_add, same, ← chain_add, Nat.add_sub_of_le (by omega)]
        rw [back]
        exact ih _ (by omega)

/-! ## Counting -/

theorem mem_labels_of_find {name : String} {id : SourceId} {own : Scalar}
    {named : Assoc String Condition} {fragment : String} {condition : Condition}
    (found : Assoc.find? scope (.text name) = some (id, ⟨own, .conditions named⟩))
    (inside : named.find? fragment = some condition) :
    (Scalar.text name, fragment) ∈ scope.labels := by
  induction scope with
  | nil => cases found
  | cons entry rest ih =>
      obtain ⟨key, id', source⟩ := entry
      rw [Assoc.find?] at found
      split at found
      · rename_i same
        cases found
        rw [Scalar.eq_text_of_beq same, labels]
        refine List.mem_append_left _ (List.mem_map.mpr ⟨(fragment, condition), ?_, rfl⟩)
        exact Assoc.mem_of_find? inside
      · have later := ih found
        rw [labels]
        split
        · exact List.mem_append_right _ later
        · exact later

theorem mem_labels_of_follow (next : scope.follow c ≠ none) :
    (Scalar.text c.source, c.fragment) ∈ scope.labels := by
  unfold follow at next
  split at next
  · rename_i id source found
    obtain ⟨own, content⟩ := source
    cases content with
    | conditions named =>
        cases inside : named.find? c.fragment with
        | none =>
            simp only [inside] at next
            exact (next rfl).elim
        | some condition => exact mem_labels_of_find found inside
    | _ => exact (next rfl).elim
  · exact (next rfl).elim

/-- The label that a chain comes to after some steps. -/
def labelAt (scope : Scope) (c : Coordinate) (i : Nat) : Scalar × String :=
  match scope.chain i c with
  | some d => (.text d.source, d.fragment)
  | none => (.null, "")

/-- As long as a chain goes on, it comes to named conditions. -/
theorem labelAt_mem_labels {i : Nat} (goes : scope.chain (i + 1) c ≠ none) :
    scope.labelAt c i ∈ scope.labels := by
  rw [chain_add] at goes
  unfold labelAt
  cases here : scope.chain i c with
  | none =>
      rw [here] at goes
      exact (goes rfl).elim
  | some d =>
      rw [here] at goes
      refine mem_labels_of_follow fun ends => goes ?_
      change (scope.follow d).bind (scope.chain 0) = none
      rw [ends]
      rfl

theorem chain_eq_of_labelAt {i j : Nat} (goes : scope.chain i c ≠ none)
    (goes' : scope.chain j c ≠ none) (same : scope.labelAt c i = scope.labelAt c j) :
    scope.chain i c = scope.chain j c := by
  obtain ⟨d, here⟩ := Option.ne_none_iff_exists'.mp goes
  obtain ⟨e, there⟩ := Option.ne_none_iff_exists'.mp goes'
  simp only [labelAt, here, there, Prod.mk.injEq, Scalar.text.injEq] at same
  rw [here, there, show d = e from Coordinate.ext same.1 same.2]

/-- A chain that is longer than there are named conditions has no end. -/
theorem endless_of_long (goes : scope.chain (scope.conditionCount + 1) c ≠ none) :
    scope.Endless c := by
  have inside : ∀ i ∈ Finset.range (scope.conditionCount + 1),
      scope.labelAt c i ∈ scope.labels.toFinset := by
    intro i member
    have within := Finset.mem_range.mp member
    exact List.mem_toFinset.mpr (labelAt_mem_labels (chain_ne_none_of_le (by omega) goes))
  have fewer : scope.labels.toFinset.card < (Finset.range (scope.conditionCount + 1)).card := by
    rw [Finset.card_range]
    have bound := List.toFinset_card_le scope.labels
    rw [length_labels] at bound
    omega
  obtain ⟨i, left, j, right, differ, same⟩ :=
    Finset.exists_ne_map_eq_of_card_lt_of_maps_to fewer inside
  have repeated : ∀ i j, i < j → j < scope.conditionCount + 1 →
      scope.labelAt c i = scope.labelAt c j → scope.Endless c := by
    intro i j before within same
    have goesLater := chain_ne_none_of_le (Nat.le_of_lt within) goes
    have goesBefore := chain_ne_none_of_le (Nat.le_of_lt before) goesLater
    exact endless_of_repeated before goesLater (chain_eq_of_labelAt goesBefore goesLater same)
  rcases Nat.lt_or_gt_of_ne differ with before | before
  · exact repeated i j before (Finset.mem_range.mp right) same
  · exact repeated j i before (Finset.mem_range.mp left) same.symm

/-- A chain that ends does so after no more steps than there are named conditions. -/
theorem exists_end (ends : ¬ scope.Endless c) :
    ∃ j d, j ≤ scope.conditionCount ∧ scope.chain j c = some d ∧ scope.follow d = none := by
  have short : scope.chain (scope.conditionCount + 1) c = none := by
    by_contra goes
    exact ends (endless_of_long goes)
  generalize scope.conditionCount = k at short ⊢
  induction k generalizing c with
  | zero =>
      rw [chain] at short
      cases next : scope.follow c with
      | none => exact ⟨0, c, Nat.le_refl _, rfl, next⟩
      | some d =>
          rw [next] at short
          cases short
  | succ k ih =>
      cases next : scope.follow c with
      | none => exact ⟨0, c, Nat.zero_le _, rfl, next⟩
      | some d =>
          have after : ¬ scope.Endless d := by
            intro endless
            refine ends fun n => ?_
            cases n with
            | zero => exact Option.some_ne_none c
            | succ n =>
                rw [chain, next]
                exact endless n
          rw [chain, next] at short
          obtain ⟨j, e, le, reached, last⟩ := ih after short
          refine ⟨j + 1, e, by omega, ?_, last⟩
          rw [chain, next]
          exact reached

end

end Scope

end DecisionTables
