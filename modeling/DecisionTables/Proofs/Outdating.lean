import DecisionTables.Proofs.Carrying
import DecisionTables.Proofs.Recording
import DecisionTables.Proofs.Trailing

/-!
# What assignments outdate

A context keeps an outcome that it has computed, although an assignment writes to what the
outcome depends on.  This matters only where a later assignment reads the outcome.  Where none
does, a context that has computed more before the assignments carries them out alike.
-/

namespace DecisionTables

/-! ## Writing to a scope -/

namespace Assoc

variable {κ : Type u} {ν : Type v} [BEq κ]

theorem find?_adjust_self (a : Assoc κ ν) (key : κ) (f : ν → ν) :
    find? (adjust a key f) key = (find? a key).map f := by
  induction a with
  | nil => rfl
  | cons entry rest ih =>
      obtain ⟨k, v⟩ := entry
      rw [adjust, find?]
      split
      · rename_i same
        rw [find?, if_pos same]
        rfl
      · rename_i differ
        rw [find?, if_neg differ, ih]

theorem find?_adjust_of_ne [PartialEquivBEq κ] (a : Assoc κ ν) {key other : κ} (f : ν → ν)
    (differ : (key == other) = false) : find? (adjust a key f) other = find? a other := by
  induction a with
  | nil => rfl
  | cons entry rest ih =>
      obtain ⟨k, v⟩ := entry
      rw [adjust]
      split
      · rename_i same
        have apart : ¬ (k == other) = true := by
          intro here
          have equal := PartialEquivBEq.trans (PartialEquivBEq.symm same) here
          rw [differ] at equal
          cases equal
        rw [find?, find?, if_neg apart, if_neg apart]
      · rw [find?, find?, ih]

theorem mem_adjust {a : Assoc κ ν} {key : κ} {f : ν → ν} {entry : κ × ν}
    (member : entry ∈ adjust a key f) : ∃ before ∈ a, entry = before ∨ entry = (before.1, f before.2) := by
  induction a with
  | nil => exact absurd member List.not_mem_nil
  | cons head rest ih =>
      obtain ⟨k, v⟩ := head
      rw [adjust] at member
      split at member
      · rcases List.mem_cons.mp member with rfl | later
        · exact ⟨_, List.mem_cons_self, .inr rfl⟩
        · exact ⟨entry, List.mem_cons_of_mem _ later, .inl rfl⟩
      · rcases List.mem_cons.mp member with rfl | later
        · exact ⟨_, List.mem_cons_self, .inl rfl⟩
        · obtain ⟨before, inside, same⟩ := ih later
          exact ⟨before, List.mem_cons_of_mem _ inside, same⟩

end Assoc

namespace Source

variable {s t : Source} {fragment : String}

/-- A fragment that was not written is read as before. -/
theorem Rewritten.direct?_eq {written : String → Prop} (rewritten : s.Rewritten written t)
    (untouched : ¬ written fragment) : t.direct? fragment = s.direct? fragment := by
  have found := rewritten.find?_eq untouched
  have same : s.reset = t.reset := rewritten.alike
  obtain ⟨name, content⟩ := s
  obtain ⟨name', content'⟩ := t
  cases content with
  | memory kind held defaults =>
      cases content' with
      | memory kind' held' defaults' =>
          cases same
          have found : held'.find? (.text fragment) = held.find? (.text fragment) := found
          simp only [direct?, found]
      | _ => cases same
  | _ =>
      cases content' <;> cases same
      rfl

end Source

/-- A source that is written to fronts no other table. -/
theorem Catalog.Owns.put {catalog : Catalog} {s : Source} (owns : catalog.Owns s) (fragment : String)
    (value : Value) : catalog.Owns (s.put fragment value) := by
  obtain ⟨name, content⟩ := s
  cases content with
  | memory kind values defaults => exact fun t impossible => by cases impossible
  | _ => exact owns

namespace Scope

variable {scope scope' : Scope} {catalog : Catalog} {written : Coordinate → Prop}

theorem Owned.put (owned : scope.Owned catalog) (c : Coordinate) (value : Value) :
    (scope.put c value).Owned catalog := by
  intro entry member
  obtain ⟨before, inside, rfl | rfl⟩ := Assoc.mem_adjust member
  · exact owned _ inside
  · exact (owned _ inside).put c.fragment value

/-- No identity is there twice. -/
def Single (scope : Scope) : Prop :=
  (scope.map fun entry => entry.2.1).Nodup

theorem Single.coherent (single : scope.Single) : scope.Coherent := by
  intro m n id s t left right
  obtain ⟨k, _, inside⟩ := Assoc.exists_mem_of_find? left
  obtain ⟨l, _, inside'⟩ := Assoc.exists_mem_of_find? right
  have same := List.inj_on_of_nodup_map single inside inside' rfl
  cases same
  rfl

theorem Single.put (single : scope.Single) (c : Coordinate) (value : Value) :
    (scope.put c value).Single := by
  have same : (scope.put c value).map (fun entry => entry.2.1) =
      scope.map fun entry => entry.2.1 := by
    clear single
    induction scope with
    | nil => rfl
    | cons entry rest ih =>
        obtain ⟨k, id, s⟩ := entry
        rw [Scope.put, Assoc.adjust]
        split
        · rfl
        · exact congrArg (id :: ·) ih
  rw [Single, same]
  exact single

/-- Two scopes that differ at most in the values of some coordinates. -/
def SameBut (written : Coordinate → Prop) (scope scope' : Scope) : Prop :=
  ∀ name, Option.Rel (fun e f => e.1 = f.1 ∧ e.2.Alike f.2 ∧
      ∀ fragment, ¬ written ⟨name, fragment⟩ → e.2.direct? fragment = f.2.direct? fragment)
    (Assoc.find? scope (.text name)) (Assoc.find? scope' (.text name))

namespace SameBut

theorem refl (written : Coordinate → Prop) (scope : Scope) : scope.SameBut written scope := by
  intro name
  cases Assoc.find? scope (.text name) with
  | none => exact .none
  | some entry => exact .some ⟨rfl, .refl _, fun _ _ => rfl⟩

theorem symm (same : scope.SameBut written scope') : scope'.SameBut written scope := by
  intro name
  have related := same name
  revert related
  generalize Assoc.find? scope (.text name) = left
  generalize Assoc.find? scope' (.text name) = right
  intro related
  cases related with
  | none => exact .none
  | some related =>
      obtain ⟨id, alike, direct⟩ := related
      exact .some ⟨id.symm, Eq.symm alike, fun fragment untouched => (direct fragment untouched).symm⟩

/-- One more coordinate is written. -/
theorem put (same : scope.SameBut written scope') (c : Coordinate) (value : Value) :
    scope.SameBut (fun e => written e ∨ e = c) (scope'.put c value) := by
  intro name
  have related := same name
  by_cases here : c.source = name
  · subst here
    rw [Scope.put, Assoc.find?_adjust_self]
    revert related
    generalize Assoc.find? scope (.text c.source) = left
    generalize Assoc.find? scope' (.text c.source) = right
    intro related
    cases related with
    | none => exact .none
    | @some e f related =>
        obtain ⟨id, alike, direct⟩ := related
        have rewritten : f.2.Rewritten (· = c.fragment) (f.2.put c.fragment value) :=
          @Source.Rewritten.put (· = c.fragment) c.fragment rfl f.2 value
        refine .some ⟨id, Source.Alike.trans _ _ _ alike rewritten.alike, fun fragment untouched => ?_⟩
        rw [direct fragment fun before => untouched (.inl before), rewritten.direct?_eq]
        exact fun target => untouched (.inr (Coordinate.ext rfl target))
  · have differ : (Scalar.text c.source == .text name) = false := by
      rw [Scalar.text_beq]
      exact beq_eq_false_iff_ne.mpr here
    rw [Scope.put, Assoc.find?_adjust_of_ne _ _ differ]
    revert related
    generalize Assoc.find? scope (.text name) = left
    generalize Assoc.find? scope' (.text name) = right
    intro related
    cases related with
    | none => exact .none
    | some related =>
        exact .some ⟨related.1, related.2.1, fun fragment untouched =>
          related.2.2 fragment fun before => untouched (.inl before)⟩

/-- A source that computes something is the same in both. -/
theorem found (same : scope.SameBut written scope') {name fragment : String} {id : SourceId}
    {source : Source} (found : Assoc.find? scope (.text name) = some (id, source))
    (computed : source.direct? fragment = none) :
    Assoc.find? scope' (.text name) = some (id, source) := by
  have related := same name
  rw [found] at related
  revert related
  generalize Assoc.find? scope' (.text name) = right
  intro related
  cases related with
  | @some e f related =>
      obtain ⟨rfl, alike, _⟩ := related
      rw [show f = (f.1, source) from Prod.ext rfl (alike.eq_of_computed computed)]

end SameBut

/-! ## Recollecting after writes -/

variable {k l m first lead : Knowledge} {c d e : Coordinate}

theorem Comes.trans (first : scope.Comes c d) (second : scope.Comes d e) : scope.Comes c e := by
  induction second with
  | self => exact first
  | table _ found content member ih => exact .table ih found content member
  | condition _ follows ih => exact .condition ih follows

/-- What a coordinate comes to does not depend on values. -/
theorem SameBut.comes (same : scope.SameBut written scope') (comes : scope.Comes c d) :
    scope'.Comes c d := by
  induction comes with
  | self => exact .self
  | @table _ _ _ source _ _ found content member ih =>
      have computed : source.direct? "" = none := Source.computed_table content
      exact .table ih (same.found found computed) content member
  | condition _ follows ih =>
      obtain ⟨id, source, named, condition, found, content, registered, rfl⟩ := condition_of_follow follows
      have found' := same.found found (Source.computed_condition content registered)
      exact .condition ih (follow_of_condition found' content registered)

/-- What a coordinate has can be recalled. -/
def Recollects (scope : Scope) (k : Knowledge) (c : Coordinate) : Prop :=
  scope.recollect k c ≠ none

theorem Recollects.mono (le : k.Le l) (recollects : scope.Recollects k c) : scope.Recollects l c := by
  obtain ⟨result, recalled⟩ := Option.ne_none_iff_exists'.mp recollects
  rw [Recollects, recollect_mono le recalled]
  exact Option.some_ne_none result

/-- What cannot be recalled is the outcome of a table or a named condition. -/
theorem computed_of_not_recollects (unknown : ¬ scope.Recollects k c) :
    ∃ id source, Assoc.find? scope (.text c.source) = some (id, source) ∧
      source.direct? c.fragment = none := by
  have unknown : scope.recollect k c = none := not_not.mp unknown
  cases found : Assoc.find? scope (.text c.source) with
  | none =>
      rw [recollect_missing found] at unknown
      cases unknown
  | some entry =>
      obtain ⟨id, source⟩ := entry
      refine ⟨id, source, rfl, ?_⟩
      cases direct : source.direct? c.fragment with
      | none => rfl
      | some result =>
          rw [recollect_direct found direct] at unknown
          cases unknown

/-- What can be recalled does not depend on values. -/
theorem SameBut.recollects (same : scope.SameBut written scope') (recollects : scope.Recollects k c) :
    scope'.Recollects k c := by
  by_contra unknown
  obtain ⟨id, source, found, computed⟩ := computed_of_not_recollects unknown
  have found' := same.symm.found found computed
  refine unknown ?_
  rw [Recollects, recollect, found, ← found']
  exact recollects

/-- What is recalled of a coordinate that was not written is the same. -/
theorem SameBut.recollect_eq (same : scope.SameBut written scope') (untouched : ¬ written c) :
    scope'.recollect k c = scope.recollect k c := by
  have related := same c.source
  cases found : Assoc.find? scope (.text c.source) with
  | none =>
      rw [found] at related
      cases found' : Assoc.find? scope' (.text c.source) with
      | none => rw [recollect_missing found, recollect_missing found']
      | some entry =>
          rw [found'] at related
          cases related
  | some entry =>
      obtain ⟨id, source⟩ := entry
      cases direct : source.direct? c.fragment with
      | none => rw [recollect, recollect, found, same.found found direct]
      | some result =>
          rw [recollect_direct found direct]
          rw [found] at related
          cases found' : Assoc.find? scope' (.text c.source) with
          | none =>
              rw [found'] at related
              cases related
          | some entry' =>
              obtain ⟨id', source'⟩ := entry'
              rw [found'] at related
              cases related with
              | some related => exact recollect_direct found' ((related.2.2 _ untouched).symm.trans direct)

theorem recollects_withOutcome {name : String} {o : Outcome}
    (recollects : scope.Recollects (k.withOutcome name o) c) : scope.Recollects k c ∨
      ∃ id source t, Assoc.find? scope (.text c.source) = some (id, source) ∧
        source.content = .table t ∧ t.name = name := by
  by_cases before : scope.Recollects k c
  · exact .inl before
  · obtain ⟨id, source, found, computed⟩ := computed_of_not_recollects before
    rcases source.direct_or_computed c.fragment with
      ⟨result, direct⟩ | ⟨t, content⟩ | ⟨named, condition, content, registered⟩
    · cases computed.symm.trans direct
    · refine .inr ⟨id, source, t, found, content, ?_⟩
      by_contra differ
      rw [Recollects, recollect_table found content, Knowledge.find?_withOutcome,
        if_neg fun same => differ same.symm, ← recollect_table found content] at recollects
      exact before recollects
    · rw [Recollects, recollect_condition found content registered] at recollects before
      exact absurd recollects before

theorem recollects_withVerdict {id : SourceId} {name text : String}
    (recollects : scope.Recollects (k.withVerdict id name text) c) : scope.Recollects k c ∨
      ∃ source named condition, Assoc.find? scope (.text c.source) = some (id, source) ∧
        source.content = .conditions named ∧ named.find? c.fragment = some condition ∧
        c.fragment = name := by
  by_cases before : scope.Recollects k c
  · exact .inl before
  · obtain ⟨id', source, found, computed⟩ := computed_of_not_recollects before
    rcases source.direct_or_computed c.fragment with
      ⟨result, direct⟩ | ⟨t, content⟩ | ⟨named, condition, content, registered⟩
    · cases computed.symm.trans direct
    · rw [Recollects, recollect_table found content] at recollects before
      exact absurd recollects before
    · rw [Recollects, recollect_condition found content registered] at recollects before
      rw [Knowledge.find?_withVerdict] at recollects
      split at recollects
      · rename_i same
        obtain ⟨rfl, fragment⟩ := Prod.mk.inj same
        exact .inr ⟨source, named, condition, found, content, registered, fragment.symm⟩
      · exact absurd recollects before

theorem Recollects.of_among (among : m.Among k l) (recollects : scope.Recollects m c) :
    scope.Recollects k c ∨ scope.Recollects l c := by
  by_cases before : scope.Recollects k c
  · exact .inl before
  · obtain ⟨id, source, found, computed⟩ := computed_of_not_recollects before
    refine .inr ?_
    rcases source.direct_or_computed c.fragment with
      ⟨result, direct⟩ | ⟨t, content⟩ | ⟨named, condition, content, registered⟩
    · cases computed.symm.trans direct
    · rw [Recollects, recollect_table found content, ne_eq, Option.map_eq_none_iff] at *
      obtain ⟨o, known⟩ := Option.ne_none_iff_exists'.mp recollects
      rcases among.outcomes known with caught | led
      · exact absurd (Option.ne_none_iff_exists'.mpr ⟨o, caught⟩) before
      · exact Option.ne_none_iff_exists'.mpr ⟨o, led⟩
    · rw [Recollects, recollect_condition found content registered, ne_eq, Option.map_eq_none_iff] at *
      obtain ⟨text, known⟩ := Option.ne_none_iff_exists'.mp recollects
      rcases among.verdicts known with caught | led
      · exact absurd (Option.ne_none_iff_exists'.mpr ⟨text, caught⟩) before
      · exact Option.ne_none_iff_exists'.mpr ⟨text, led⟩

/-! ## Knowledge after writes -/

/-- What a coordinate comes to, and what was known of it but not at first, leads to no coordinate that
was written. -/
def Untouched (scope : Scope) (written : Coordinate → Prop) (c : Coordinate)
    (first m : Knowledge) : Prop :=
  ∀ d, scope.Comes c d → scope.Recollects m d → ¬ scope.Recollects first d →
    ∀ e, scope.Comes d e → ¬ written e

/-- Knowledge that is grounded in what was known at first holds all that was known of what a
coordinate comes to. -/
structure Salvages (scope : Scope) (catalog : Catalog) (c : Coordinate)
    (first m lead k : Knowledge) : Prop where
  grounded : Grounded scope catalog first k
  first : first.Le k
  le : k.Le lead
  covers : ∀ d, scope.Comes c d → scope.Recollects m d → scope.Recollects k d

theorem Untouched.of_le (untouched : scope.Untouched written c first l) (le : k.Le l) :
    scope.Untouched written c first k :=
  fun d comes recollects => untouched d comes (recollects.mono le)

/-- What was recalled of an untouched coordinate can be recalled after the writes. -/
theorem Salvages.recollect (same : scope.SameBut written scope')
    (salvages : scope'.Salvages catalog c first m lead k) (most : m.Le lead) (comes : scope'.Comes c e)
    (untouched : ¬ written e) (result : Except Fault String)
    (recalled : scope.recollect m e = some result) : scope'.recollect k e = some result := by
  rw [← same.recollect_eq untouched] at recalled
  have covered : scope'.Recollects k e := by
    refine salvages.covers e comes ?_
    rw [Recollects, recalled]
    exact Option.some_ne_none result
  obtain ⟨result', recalled'⟩ := Option.ne_none_iff_exists'.mp covered
  have agree := (recollect_mono salvages.le recalled').symm.trans (recollect_mono most recalled)
  rw [recalled', Option.some.inj agree]

/-- An outcome that leads to nothing that was written is found again after the writes. -/
theorem Salvages.outcome (owned : scope'.Owned catalog) (same : scope.SameBut written scope')
    (salvages : scope'.Salvages catalog c first m lead k) {t : Table} {o : Outcome}
    (own : catalog.table t.name = .ok t) (unknown : m.outcomes.find? t.name = none)
    (decided : scope.Entails m (fun resolve => t.decide resolve) o)
    (most : (m.withOutcome t.name o).Le lead)
    (untouched : scope'.Untouched written c first (m.withOutcome t.name o)) :
    ∃ k, scope'.Salvages catalog c first (m.withOutcome t.name o) lead k := by
  have known : lead.outcomes.find? t.name = some o := by
    refine most.outcomes ?_
    rw [Knowledge.find?_withOutcome, if_pos rfl]
  have more := Knowledge.le_withOutcome unknown o
  by_cases relevant : k.outcomes.find? t.name = none ∧ ∃ d id source, scope'.Comes c d ∧
      Assoc.find? scope' (.text d.source) = some (id, source) ∧ source.content = .table t
  · obtain ⟨fresh, d, id, source, comes, found, content⟩ := relevant
    have spared : ∀ e, scope'.Comes d e → ¬ written e := by
      refine untouched d comes ?_ ?_
      · rw [Recollects, recollect_table found content, Knowledge.find?_withOutcome, if_pos rfl]
        exact Option.some_ne_none _
      · rw [Recollects, recollect_table found content, salvages.first.outcome_none fresh]
        exact not_not.mpr rfl
    have entails : scope'.Entails k (fun resolve => t.decide resolve) o := by
      intro q
      refine Table.respected_decide respected_givesAll (fun next member => ?_) q q o (decided q)
      have step : scope'.Comes d next := .table .self found content member
      exact givesAll_recalled
        (salvages.recollect same (more.trans most) (comes.trans step) (spared next step))
    have more' := Knowledge.le_withOutcome fresh o
    refine ⟨_, .outcome salvages.grounded own fresh entails, salvages.first.trans more',
      salvages.le.withOutcome_of_known known, fun e comes recollects => ?_⟩
    rcases recollects_withOutcome recollects with before | ⟨_, _, u, found, content, name⟩
    · exact (salvages.covers e comes before).mono more'
    · rw [Recollects, recollect_table found content, Knowledge.find?_withOutcome, if_pos name.symm]
      exact Option.some_ne_none _
  · refine ⟨k, salvages.grounded, salvages.first, salvages.le, fun e comes recollects => ?_⟩
    rcases recollects_withOutcome recollects with before | ⟨id, source, u, found, content, name⟩
    · exact salvages.covers e comes before
    · obtain ⟨_, _, member⟩ := Assoc.exists_mem_of_find? found
      have own' := owned _ member u content
      rw [name, own] at own'
      cases own'
      rw [Recollects, recollect_table found content]
      intro fresh
      exact relevant ⟨Option.map_eq_none_iff.mp fresh, e, id, source, comes, found, content⟩

/-- The result of a named condition that leads to nothing that was written is found again after the
writes. -/
theorem Salvages.verdict (coherent : scope.Coherent) (same : scope.SameBut written scope')
    (salvages : scope'.Salvages catalog c first m lead k) {key : Scalar} {id : SourceId}
    {source : Source} (found : Assoc.find? scope key = some (id, source))
    {named : Assoc String Condition} (content : source.content = .conditions named) {name : String}
    {condition : Condition} (registered : named.find? name = some condition)
    (unknown : m.verdicts.find? (id, name) = none) {result : Bool × String}
    (evaluated : scope.Entails m (fun resolve => condition.evaluate resolve) result)
    (most : (m.withVerdict id name (Condition.verdict result)).Le lead)
    (untouched : scope'.Untouched written c first (m.withVerdict id name (Condition.verdict result))) :
    ∃ k, scope'.Salvages catalog c first (m.withVerdict id name (Condition.verdict result)) lead k := by
  have known : lead.verdicts.find? (id, name) = some (Condition.verdict result) := by
    refine most.verdicts ?_
    rw [Knowledge.find?_withVerdict, if_pos rfl]
  have more := Knowledge.le_withVerdict unknown (Condition.verdict result)
  by_cases relevant : k.verdicts.find? (id, name) = none ∧ ∃ d, scope'.Comes c d ∧
      Assoc.find? scope' (.text d.source) = some (id, source) ∧ d.fragment = name
  · obtain ⟨fresh, d, comes, found', rfl⟩ := relevant
    have spared : ∀ e, scope'.Comes d e → ¬ written e := by
      refine untouched d comes ?_ ?_
      · rw [Recollects, recollect_condition found' content registered, Knowledge.find?_withVerdict,
          if_pos rfl]
        exact Option.some_ne_none _
      · rw [Recollects, recollect_condition found' content registered,
          salvages.first.verdict_none fresh]
        exact not_not.mpr rfl
    have entails : scope'.Entails k (fun resolve => condition.evaluate resolve) result := by
      intro q
      refine Condition.respected_evaluate respected_givesAll ?_ q q result (evaluated q)
      have step : scope'.Comes d condition.subject :=
        .condition .self (follow_of_condition found' content registered)
      exact givesAll_recalled
        (salvages.recollect same (more.trans most) (comes.trans step) (spared _ step))
    have more' := Knowledge.le_withVerdict fresh (Condition.verdict result)
    refine ⟨_, .verdict salvages.grounded found' content registered fresh entails,
      salvages.first.trans more', salvages.le.withVerdict_of_known known, fun e comes recollects => ?_⟩
    rcases recollects_withVerdict recollects with before | ⟨_, _, _, found, content, registered, name⟩
    · exact (salvages.covers e comes before).mono more'
    · rw [Recollects, recollect_condition found content registered, Knowledge.find?_withVerdict,
        if_pos (congrArg (Prod.mk id) name.symm)]
      exact Option.some_ne_none _
  · refine ⟨k, salvages.grounded, salvages.first, salvages.le, fun e comes recollects => ?_⟩
    rcases recollects_withVerdict recollects with
      before | ⟨source', named', condition', found', content', registered', rfl⟩
    · exact salvages.covers e comes before
    · have back := same.symm.found found' (Source.computed_condition content' registered')
      obtain rfl := coherent _ _ _ _ _ found back
      rw [Recollects, recollect_condition found' content' registered']
      intro fresh
      exact relevant ⟨Option.map_eq_none_iff.mp fresh, e, comes, found', rfl⟩

/-- What was known of untouched coordinates can be found again after the writes. -/
theorem exists_salvages (coherent : scope.Coherent) (owned : scope'.Owned catalog)
    (same : scope.SameBut written scope') (before : first.Le lead) (sound : Sound scope catalog m)
    (most : m.Le lead) (untouched : scope'.Untouched written c first m) :
    ∃ k, scope'.Salvages catalog c first m lead k := by
  induction sound with
  | known =>
      exact ⟨first, .known, .refl first, before, fun _ _ recollects => recollects.mono (.blank first)⟩
  | @outcome _ t o _ own unknown decided ih =>
      have more := Knowledge.le_withOutcome unknown o
      obtain ⟨k, salvages⟩ := ih (more.trans most) (untouched.of_le more)
      exact salvages.outcome owned same own unknown decided most untouched
  | @verdict _ _ _ _ _ _ _ result _ found content registered unknown evaluated ih =>
      have more := Knowledge.le_withVerdict unknown (Condition.verdict result)
      obtain ⟨k, salvages⟩ := ih (more.trans most) (untouched.of_le more)
      exact salvages.verdict coherent same found content registered unknown evaluated most untouched

/-- What is salvaged is all that matters of what is known beforehand. -/
theorem Salvages.founded (salvages : scope.Salvages catalog c first m lead k) (before : first.Le lead)
    (among : lead.Among first m) : scope.Founded catalog c first k lead where
  before := before
  grounded := salvages.grounded
  le := salvages.le
  outcomes := by
    intro d id source t comes found content o known
    rcases among.outcomes known with caught | led
    · exact salvages.first.outcomes caught
    · have covered := salvages.covers d comes (by
        rw [Recollects, recollect_table found content, led]
        exact Option.some_ne_none _)
      rw [Recollects, recollect_table found content] at covered
      obtain ⟨o', known'⟩ := Option.ne_none_iff_exists'.mp (mt Option.map_eq_none_iff.mpr covered)
      rw [known', ← salvages.le.outcomes known', known]
  verdicts := by
    intro d id source named condition comes found content registered text known
    rcases among.verdicts known with caught | led
    · exact salvages.first.verdicts caught
    · have covered := salvages.covers d comes (by
        rw [Recollects, recollect_condition found content registered, led]
        exact Option.some_ne_none _)
      rw [Recollects, recollect_condition found content registered] at covered
      obtain ⟨text', known'⟩ := Option.ne_none_iff_exists'.mp (mt Option.map_eq_none_iff.mpr covered)
      rw [known', ← salvages.le.verdicts known', known]

end Scope

/-! ## Carrying out assignments alike -/

/-- How two runs end that go along with each other: the first runs too deep, both fail alike, or both
give values that are related. -/
inductive Meets {α β : Type} (I : Progress → Progress → Prop) (R : α → β → Prop) :
    Except Fault α × Progress → Except Fault β × Progress → Prop where
  | deep {q ran} : Meets I R (.error .tooDeep, q) ran
  | fault {q p} (f : Fault) : Meets I R (.error f, q) (.error f, p)
  | value {q p a b} (related : I q p) (same : R a b) : Meets I R (.ok a, q) (.ok b, p)

theorem Meets.bind {α β γ δ : Type} {I J : Progress → Progress → Prop} {R : α → β → Prop}
    {S : γ → δ → Prop} {x : Evaluation α} {y : Evaluation β} {f : α → Evaluation γ}
    {g : β → Evaluation δ} {q p : Progress} (first : Meets I R (runFrom x q) (runFrom y p))
    (rest : ∀ a b q' p', runFrom x q = (.ok a, q') → I q' p' → R a b →
      Meets J S (runFrom (f a) q') (runFrom (g b) p')) :
    Meets J S (runFrom (x >>= f) q) (runFrom (y >>= g) p) := by
  rw [runFrom_bind, runFrom_bind]
  revert first rest
  generalize runFrom x q = left
  generalize runFrom y p = right
  intro first rest
  cases first with
  | deep => exact .deep
  | fault f => exact .fault f
  | value related same => exact rest _ _ _ _ rfl related same

/-- Progress that knows all that other progress knows, and nothing beyond but what is known besides,
while no table is being computed. -/
structure Progress.Beyond (besides : Knowledge) (q p : Progress) : Prop where
  known : q.known.Le p.known
  among : p.known.Among q.known besides
  idle : q.memo.computing = []
  idle' : p.memo.computing = []

namespace Scope

variable {scope scope' : Scope} {catalog : Catalog} {written : Coordinate → Prop}
variable {k m first besides before computed : Knowledge} {c : Coordinate} {q p : Progress}

/-- Where what is known beyond is grounded in what was known at first, a coordinate is resolved
alike. -/
theorem Founded.meets (founded : scope.Founded catalog c first k p.known) (coherent : scope.Coherent)
    (owned : scope.Owned catalog) (le : first.Le q.known) (beyond : q.Beyond besides p)
    (room : Option Nat) :
    Meets (fun q' p' => q'.Beyond besides p' ∧ q.Onward q' ∧ p.Onward p') Eq
      (runFrom (scope.resolve room c) q) (runFrom (scope.resolve room c) p) := by
  have trails : Trails first p.known q p := .of_idle le beyond.known beyond.idle beyond.idle'
  have ends := founded.tracks_resolve coherent owned room q p trails
  have onward := scope.onward_resolve room c q
  have onward' := scope.onward_resolve room c p
  revert ends onward onward'
  generalize runFrom (scope.resolve room c) q = left
  generalize runFrom (scope.resolve room c) p = right
  intro ends onward onward'
  cases ends with
  | gap impossible => exact impossible.elim
  | slip slip _ =>
      cases slip
      exact .deep
  | fault f _ => exact .fault f
  | value text trails' =>
      refine .value ⟨⟨trails'.known, ?_, ?_, ?_⟩, onward, onward'⟩ rfl
      · exact trails'.among.trans (beyond.among.grow onward.known)
      · exact onward.computing.trans beyond.idle
      · exact onward'.computing.trans beyond.idle'

/-- A write to a coordinate outdates an assignment where this reads, directly or through others, what
depends on the coordinate, was not known before, and has been computed besides. -/
def Outdates (scope : Scope) (before computed : Knowledge) (written : Coordinate) (a : Assignment) :
    Prop :=
  ∃ d, scope.Comes a.source d ∧ ¬ scope.Recollects before d ∧ scope.Recollects computed d ∧
    scope.Comes d written

theorem Comes.eq_of_direct (direct : ∀ id source, Assoc.find? scope (.text c.source) = some (id, source) →
    source.direct? c.fragment ≠ none) {d : Coordinate} (comes : scope.Comes c d) : d = c := by
  induction comes with
  | self => rfl
  | table _ found content _ ih =>
      subst ih
      exact absurd (Source.computed_table content) (direct _ _ found)
  | condition _ follows ih =>
      subst ih
      obtain ⟨_, _, _, _, found, content, registered, _⟩ := condition_of_follow follows
      exact absurd (Source.computed_condition content registered) (direct _ _ found)

/-- An assignment of a value or of a constant is never outdated. -/
theorem not_outdates {a : Assignment} {e : Coordinate}
    (direct : ∀ id source, Assoc.find? scope (.text a.source.source) = some (id, source) →
      source.direct? a.source.fragment ≠ none) : ¬ scope.Outdates before computed e a := by
  rintro ⟨d, comes, unknown, _, _⟩
  obtain rfl := comes.eq_of_direct direct
  obtain ⟨id, source, found, computed⟩ := computed_of_not_recollects unknown
  exact direct id source found computed

/-- Where the coordinates that were written outdate no assignment, what it reads is untouched. -/
theorem SameBut.untouched {a : Assignment} (same : scope.SameBut written scope')
    (among : m.Among before computed) (le : before.Le first)
    (spared : ∀ e, written e → ¬ scope.Outdates before computed e a) :
    scope'.Untouched written a.source first m := by
  intro d comes recollects unknown e leads target
  have fresh : ¬ scope.Recollects before d := fun known => unknown (same.recollects (known.mono le))
  refine spared e target ⟨d, same.symm.comes comes, fresh, ?_, same.symm.comes leads⟩
  exact ((same.symm.recollects recollects).of_among among).resolve_left fresh

/-- Assignments are carried out alike by one who knows more beforehand, as long as none of them writes
what outdates a later one. -/
theorem meets_carry {assignments : List Assignment} (coherent : scope.Coherent)
    (sound : Sound scope catalog m) (among : m.Among before computed) (single : scope'.Single)
    (owned : scope'.Owned catalog) (same : scope.SameBut written scope') (room : Option Nat)
    (beyond : q.Beyond m p) (most : m.Le p.known) (le : before.Le q.known)
    (spared : ∀ a ∈ assignments, ∀ e, written e → ¬ scope.Outdates before computed e a)
    (apart : assignments.Pairwise fun a b => ¬ scope.Outdates before computed a.target b) :
    Meets (fun _ _ => True) Eq (runFrom (scope'.carry room assignments) q)
      (runFrom (scope'.carry room assignments) p) := by
  induction assignments generalizing scope' written q p with
  | nil => exact .value trivial rfl
  | cons a rest ih =>
      obtain ⟨head, apart⟩ := List.pairwise_cons.mp apart
      have untouched := same.untouched among le (spared a List.mem_cons_self)
      obtain ⟨k, salvages⟩ := exists_salvages coherent owned same beyond.known sound most untouched
      have founded := salvages.founded beyond.known beyond.among
      rw [carry]
      refine (founded.meets single.coherent owned (.refl _) beyond room).bind ?_
      rintro text _ q' p' _ ⟨beyond', onward, onward'⟩ rfl
      cases found : Assoc.find? scope' (.text a.target.source) with
      | none => exact .fault _
      | some entry =>
          obtain ⟨id, source⟩ := entry
          cases stored : source.write a.target.fragment (.text text) with
          | error e =>
              simp only [stored]
              exact .fault _
          | ok s =>
              have later := ih (single.put a.target (.text text)) (owned.put a.target (.text text))
                (same.put a.target (.text text)) beyond' (most.trans onward'.known)
                (le.trans onward.known) (fun b member e target => ?_) apart
              · simp only [stored]
                exact later.bind fun _ _ _ _ _ _ texts => .value trivial (congrArg (text :: ·) texts)
              · rcases target with early | rfl
                · exact spared b (List.mem_cons_of_mem _ member) e early
                · exact head b member

end Scope

end DecisionTables
