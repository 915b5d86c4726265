import DecisionTables.Proofs.Ending
import DecisionTables.Proofs.Recalling

/-!
# What is known can be computed

Whatever grounded knowledge recalls of a coordinate, computing the coordinate gives as well,
if the computation does not run too deep.  It may start with less knowledge, but for what was
known at first, and inside of other tables, as long as none of these is known already: what led
to an outcome that is known never needed a table that is still being computed.
-/

namespace DecisionTables

open Scope (SameComputing)

/-- What was known at first is known, and less than there is to know, and no table that is being
computed. -/
structure Within (first k l : Knowledge) (q : Progress) : Prop where
  first : first.Le q.known
  known : q.known.Le l
  apart : ∀ name ∈ q.memo.computing, k.outcomes.find? name = none

/-- A run learns nothing else than there is to know, and comes to the result or runs too deep. -/
structure Confirms {α : Type} (first l : Knowledge) (q : Progress) (ran : Except Fault α × Progress)
    (result : Except Fault α) : Prop where
  first : first.Le ran.2.known
  known : ran.2.known.Le l
  computing : SameComputing q ran.2
  result : ran.1 = .error .tooDeep ∨ ran.1 = result

/-- A resolver confirms whatever is recalled. -/
def Scope.Vouches (scope : Scope) (first k l : Knowledge) (r : Resolver) : Prop :=
  ∀ c result q, scope.recollect k c = some result → Within first k l q →
    Confirms first l q (runFrom (r c) q) result

/-- What was known at first is retained. -/
def Retention.Spares (R : Retention) (first : Knowledge) : Prop :=
  ∀ q : Progress, first.Le q.known → first.Le (q.retained R).known

theorem Retention.spares_all (first : Knowledge) : Retention.all.Spares first := fun _ le => le

theorem Retention.spares_blank (R : Retention) : R.Spares .blank := fun _ _ => .blank _

section

variable {scope : Scope} {catalog : Catalog} {first k l : Knowledge} {r : Resolver} {q : Progress}

theorem Within.confirms {α : Type} (within : Within first k l q) (result : Except Fault α) :
    Confirms first l q (result, q) result :=
  ⟨within.first, within.known, rfl, .inr rfl⟩

/-- To run too deep confirms everything. -/
theorem Within.deep {α : Type} (within : Within first k l q) (result : Except Fault α) :
    Confirms first l q (.error .tooDeep, q) result :=
  ⟨within.first, within.known, rfl, .inl rfl⟩

theorem Within.after {α : Type} {ran : Except Fault α × Progress} {result : Except Fault α}
    (within : Within first k l q) (confirms : Confirms first l q ran result) :
    Within first k l ran.2 := by
  refine ⟨confirms.first, confirms.known, ?_⟩
  rw [confirms.computing]
  exact within.apart

theorem Within.of_le {j : Knowledge} (within : Within first k l q) (le : j.Le k) :
    Within first j l q :=
  ⟨within.first, within.known, fun name member => le.outcome_none (within.apart name member)⟩

theorem Within.retained (within : Within first k l q) {R : Retention} (spares : R.Spares first) :
    Within first k l (q.retained R) := by
  refine ⟨spares q within.first, (q.known_retained_le R).trans within.known, ?_⟩
  rw [q.computing_retained R]
  exact within.apart

theorem Within.entering (within : Within first k l q) {name : String}
    (unknown : k.outcomes.find? name = none) : Within first k l (q.entering name) := by
  refine ⟨within.first, within.known, fun other member => ?_⟩
  rcases List.mem_cons.mp member with rfl | inside
  · exact unknown
  · exact within.apart other inside

/-- Evaluations that confirm every value that others give. -/
def ConfirmsAll (first k l : Knowledge) {α : Type} (x y : Evaluation α) : Prop :=
  ∀ q p a, Within first k l q → (runFrom y p).1 = .ok a → Confirms first l q (runFrom x q) (.ok a)

theorem respected_confirmsAll (first k l : Knowledge) :
    Respected fun _ x y => ConfirmsAll first k l x y where
  pure _ _ _ _ within gives := ⟨within.first, within.known, rfl, .inr gives⟩
  fail _ _ _ _ _ impossible := by cases impossible
  report _ _ _ _ within gives := ⟨within.first, within.known, rfl, .inr gives⟩
  bind := by
    intro α β x y f g before rest q p b within gives
    rw [runFrom_bind] at gives
    revert gives
    rcases ran : runFrom y p with ⟨result, p'⟩
    intro gives
    cases result with
    | error f => cases gives
    | ok a =>
        have confirms := before q p a within (congrArg Prod.fst ran)
        have within' := within.after confirms
        revert confirms within'
        rcases ran' : runFrom x q with ⟨result', q'⟩
        intro confirms within'
        rcases confirms.result with deep | same
        · cases deep
          rw [runFrom_bind_fault ran']
          exact ⟨confirms.first, confirms.known, confirms.computing, .inl rfl⟩
        · cases same
          rw [runFrom_bind_ok ran']
          have later := rest a q' p' b within' gives
          exact ⟨later.first, later.known, later.computing.trans confirms.computing, later.result⟩

/-- A step that is entailed is confirmed. -/
theorem Scope.Vouches.confirms {α : Type} (vouches : scope.Vouches first k l r)
    {step : Resolver → Evaluation α} (uniform : Uniform step) {a : α}
    (entails : scope.Entails k step a) (within : Within first k l q) :
    Confirms first l q (runFrom (step r) q) (.ok a) := by
  refine uniform _ (respected_confirmsAll first k l) r (scope.recalled k) ?_ q q a within (entails q)
  intro c q p text within gives
  rw [runFrom_recalled] at gives
  cases recalled : scope.recollect k c with
  | none =>
      rw [recalled] at gives
      cases gives
  | some result =>
      rw [recalled] at gives
      cases gives
      exact vouches c _ q recalled within

/-- A table that is known is not decided anew with another outcome. -/
theorem Scope.Vouches.confirms_table (vouches : scope.Vouches first k l r) {t : Table} {o : Outcome}
    (decided : scope.Entails k (fun resolve => t.decide resolve) o)
    (unknown : k.outcomes.find? t.name = none) (known : l.outcomes.find? t.name = some o)
    (within : Within first k l q) (free : q.memo.computing.contains t.name = false) :
    Confirms first l q (runFrom (t.decideOnce r) q) (.ok o) := by
  cases remembered : q.memo.outcomes.find? t.name with
  | some o' =>
      have same := within.known.outcomes remembered
      rw [known] at same
      cases same
      rw [Table.runFrom_decideOnce_known remembered]
      exact within.confirms _
  | none =>
      have confirms := vouches.confirms t.uniform_decide decided (within.entering unknown)
      rw [Table.runFrom_decideOnce_new remembered free]
      revert confirms
      rcases runFrom (t.decide r) (q.entering t.name) with ⟨result, q'⟩
      intro confirms
      have left : SameComputing q (q'.leaving t.name) := confirms.computing.leaving
      rcases confirms.result with deep | same
      · cases deep
        exact ⟨confirms.first, confirms.known, left, .inl rfl⟩
      · cases same
        exact ⟨confirms.first.learn_outcome (within.first.trans within.known) known,
          confirms.known.withOutcome_of_known known, left, .inr rfl⟩

/-- A named condition that is known is not evaluated anew with another result. -/
theorem Scope.Vouches.confirms_condition (vouches : scope.Vouches first k l r) {c : Condition}
    {result : Bool × String} (evaluated : scope.Entails k (fun resolve => c.evaluate resolve) result)
    {id : SourceId} {name : String}
    (known : l.verdicts.find? (id, name) = some (Condition.verdict result))
    (within : Within first k l q) :
    Confirms first l q (runFrom (c.decideOnce r id name) q) (.ok (Condition.verdict result)) := by
  cases remembered : q.memo.verdicts.find? (id, name) with
  | some text =>
      have same := within.known.verdicts remembered
      rw [known] at same
      cases same
      rw [Condition.runFrom_decideOnce_known remembered]
      exact within.confirms _
  | none =>
      have confirms := vouches.confirms c.uniform_evaluate evaluated within
      rw [Condition.runFrom_decideOnce_new remembered]
      revert confirms
      rcases runFrom (c.evaluate r) q with ⟨result', q'⟩
      intro confirms
      rcases confirms.result with deep | same
      · cases deep
        exact ⟨confirms.first, confirms.known, confirms.computing, .inl rfl⟩
      · cases same
        exact ⟨confirms.first.learn_verdict (within.first.trans within.known) known,
          confirms.known.withVerdict_of_known known, confirms.computing, .inr rfl⟩

/-! ## Grounded knowledge -/

/-- A resolver confirms whatever grounded knowledge recalls. -/
def Scope.Confirmed (scope : Scope) (catalog : Catalog) (first l : Knowledge) (r : Resolver) : Prop :=
  ∀ k, Grounded scope catalog first k → k.Le l → scope.Vouches first k l r

/-- A source that fronts a table fronts one of the catalog. -/
def Catalog.Owns (catalog : Catalog) (s : Source) : Prop :=
  ∀ t, s.content = .table t → catalog.table t.name = .ok t

/-- The tables in scope are those of a catalog. -/
def Scope.Owned (scope : Scope) (catalog : Catalog) : Prop :=
  ∀ entry ∈ scope, catalog.Owns entry.2.2

theorem Grounded.confirms_table (confirmed : scope.Confirmed catalog first l r)
    (grounded : Grounded scope catalog first k) (le : k.Le l) {t : Table}
    (own : catalog.table t.name = .ok t) {o : Outcome} (known : k.outcomes.find? t.name = some o)
    (within : Within first k l q) :
    Confirms first l q (runFrom (t.decideOnce r) q) (.ok o) := by
  rcases grounded.exists_decided known with
    before | ⟨j, u, grounded', le', unknown, same, own', decided⟩
  · rw [Table.runFrom_decideOnce_known (within.first.outcomes before)]
    exact within.confirms _
  · rw [same, own] at own'
    cases own'
    have free : q.memo.computing.contains t.name = false := by
      rw [Bool.eq_false_iff]
      intro entered
      have unknown' := within.apart t.name (List.contains_iff_mem.mp entered)
      rw [known] at unknown'
      cases unknown'
    exact (confirmed j grounded' (le'.trans le)).confirms_table decided unknown (le.outcomes known)
      (within.of_le le') free

theorem Grounded.confirms_condition (coherent : scope.Coherent)
    (confirmed : scope.Confirmed catalog first l r) (grounded : Grounded scope catalog first k)
    (le : k.Le l) {key : Scalar} {id : SourceId} {source : Source}
    (found : Assoc.find? scope key = some (id, source))
    {named : Assoc String Condition} (content : source.content = .conditions named) {name : String}
    {c : Condition} (registered : named.find? name = some c) {text : String}
    (known : k.verdicts.find? (id, name) = some text) (within : Within first k l q) :
    Confirms first l q (runFrom (c.decideOnce r id name) q) (.ok text) := by
  rcases grounded.exists_evaluated coherent found content registered known with
    before | ⟨j, result, grounded', le', rfl, evaluated⟩
  · rw [Condition.runFrom_decideOnce_known (within.first.verdicts before)]
    exact within.confirms _
  · exact (confirmed j grounded' (le'.trans le)).confirms_condition evaluated (le.verdicts known)
      (within.of_le le')

namespace Scope

variable {R : Retention} {d : Nat}

theorem confirmed_below {source : Source} {room : Option Nat}
    (confirmed : ∀ room, scope.Confirmed catalog first l (scope.resolveBy R d room)) :
    scope.Confirmed catalog first l (scope.below R d source room) := by
  rw [below]
  cases roomBelow source room with
  | some left => exact confirmed left
  | none => exact fun k _ _ c result q _ within => within.deep result

/-- As long as an evaluation retains what was known at first, it confirms what is recalled. -/
theorem confirmed_resolveBy (coherent : scope.Coherent) (owned : scope.Owned catalog)
    (l : Knowledge) {R : Retention} (spares : R.Spares first) (d : Nat) (room : Option Nat) :
    scope.Confirmed catalog first l (scope.resolveBy R d room) := by
  induction d generalizing room with
  | zero => exact fun k _ _ c result q _ within => within.deep result
  | succ d ih =>
      intro k grounded le c result q recalled within
      have within' := within.retained spares
      cases found : Assoc.find? scope (.text c.source) with
      | none =>
          rw [recollect_missing found] at recalled
          cases recalled
          rw [runFrom_resolveBy_missing found]
          exact ⟨within'.first, within'.known, q.computing_retained R, .inr rfl⟩
      | some entry =>
          obtain ⟨id, source⟩ := entry
          have confirmed : scope.Confirmed catalog first l (scope.below R d source room) :=
            confirmed_below ih
          have computing : SameComputing q (q.retained R) := q.computing_retained R
          rw [runFrom_resolveBy found]
          rcases source.direct_or_computed c.fragment with
            ⟨result', direct⟩ | ⟨t, content⟩ | ⟨named, condition, content, registered⟩
          · rw [recollect_direct found direct] at recalled
            cases recalled
            rw [Source.runFrom_read_direct direct]
            exact ⟨within'.first, within'.known, computing, .inr rfl⟩
          · rw [recollect_table found content] at recalled
            obtain ⟨o, known, picked⟩ := Option.map_eq_some_iff.mp recalled
            obtain ⟨_, _, member⟩ := Assoc.exists_mem_of_find? found
            have confirms := grounded.confirms_table confirmed le (owned _ member t content) known within'
            rw [Source.runFrom_read_table content]
            revert confirms
            rcases runFrom (t.decideOnce _) (q.retained R) with ⟨result', q'⟩
            intro confirms
            rcases confirms.result with deep | same
            · cases deep
              exact ⟨confirms.first, confirms.known, confirms.computing.trans computing, .inl rfl⟩
            · cases same
              exact ⟨confirms.first, confirms.known, confirms.computing.trans computing, .inr picked⟩
          · rw [recollect_condition found content registered] at recalled
            obtain ⟨text, known, rfl⟩ := Option.map_eq_some_iff.mp recalled
            have confirms := grounded.confirms_condition coherent confirmed le found content registered
              known within'
            rw [Source.runFrom_read_condition content registered]
            exact ⟨confirms.first, confirms.known, confirms.computing.trans computing, confirms.result⟩

end Scope

end

end DecisionTables
