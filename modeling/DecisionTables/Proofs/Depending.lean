import DecisionTables.Proofs.Deciding
import DecisionTables.Proofs.Opened

/-!
# What a decision depends on

A table refers to the subjects of its conditions, and through them to other tables and to
named conditions.  Two scopes that agree on every coordinate that is reached in this way
give the same outcome and the same faults, step by step and in the same room, whatever else
they hold.
-/

namespace DecisionTables

/-! ## Subjects -/

/-- The subjects of the conditions of a table. -/
def Table.subjects (t : Table) : List Coordinate :=
  t.rules.flatMap fun r => r.conditions.map Condition.subject

section

variable {r s : Resolver}

theorem Condition.evaluate_congr {c : Condition} (same : r c.subject = s c.subject) :
    c.evaluate r = c.evaluate s := by
  rw [evaluate, evaluate, same]

theorem Condition.allHold_congr {cs : List Condition} (same : ∀ c ∈ cs, r c.subject = s c.subject) :
    Condition.allHold r cs = Condition.allHold s cs := by
  induction cs with
  | nil => rfl
  | cons c rest ih =>
      rw [allHold, allHold, evaluate_congr (same c List.mem_cons_self),
        ih fun c later => same c (List.mem_cons_of_mem _ later)]

theorem Rule.satisfied_congr {rules : List Rule}
    (same : ∀ rule ∈ rules, ∀ c ∈ rule.conditions, r c.subject = s c.subject) :
    Rule.satisfied r rules = Rule.satisfied s rules := by
  induction rules with
  | nil => rfl
  | cons rule rest ih =>
      rw [satisfied, satisfied, check, check,
        Condition.allHold_congr (same rule List.mem_cons_self),
        ih fun rule later => same rule (List.mem_cons_of_mem _ later)]

/-- Deciding a table resolves no other coordinates than its subjects. -/
theorem Table.decide_congr {t : Table} (same : ∀ c ∈ t.subjects, r c = s c) :
    t.decide r = t.decide s := by
  have satisfied : Rule.satisfied r t.rules = Rule.satisfied s t.rules := by
    refine Rule.satisfied_congr fun rule member c inside => same c.subject ?_
    exact List.mem_flatMap.mpr ⟨rule, member, List.mem_map_of_mem inside⟩
  rw [decide, decide, select, select, satisfiedRule?, satisfiedRule?, satisfied]

/-- Deciding a table relates two resolvers as they are related at its subjects. -/
theorem Table.respected_decide {E : (α : Type) → Evaluation α → Evaluation α → Prop}
    (respected : Respected E) {t : Table} (along : ∀ c ∈ t.subjects, E String (r c) (s c)) :
    E Outcome (t.decide r) (t.decide s) := by
  let only : Resolver → Resolver := fun r c =>
    if c ∈ t.subjects then r c else Evaluation.fail (.unknownSource c.source)
  have restricted : ∀ r, t.decide r = t.decide (only r) := fun r =>
    Table.decide_congr fun c member => (if_pos member).symm
  rw [restricted r, restricted s]
  refine t.uniform_decide E respected _ _ fun c => ?_
  by_cases member : c ∈ t.subjects
  · simp only [only, member, if_true]
    exact along c member
  · simp only [only, member, if_false]
    exact respected.fail _

/-- A table is tracked where its subjects are. -/
theorem Tracking.tracks_decide {T : Tracking} {t : Table}
    (along : ∀ c ∈ t.subjects, T.Tracks (r c) (s c)) : T.Tracks (t.decide r) (t.decide s) :=
  Table.respected_decide T.respected along

end

/-! ## Agreement -/

/-- Two sources have the same at a fragment: the same text or none and then the same name, the same
table, or the same named condition or none. -/
inductive Source.SameAt (fragment : String) : Source → Source → Prop where
  | memory {name kind kind' values values' defaults defaults'}
      (same : (values.find? (.text fragment)).map Value.fragmentText =
        (values'.find? (.text fragment)).map Value.fragmentText) :
      SameAt fragment ⟨name, .memory kind values defaults⟩ ⟨name, .memory kind' values' defaults'⟩
  | constant {name name'} : SameAt fragment ⟨name, .constant⟩ ⟨name', .constant⟩
  | table {name name'} (t : Table) : SameAt fragment ⟨name, .table t⟩ ⟨name', .table t⟩
  | conditions {name name' named named'} (same : named.find? fragment = named'.find? fragment) :
      SameAt fragment ⟨name, .conditions named⟩ ⟨name', .conditions named'⟩
  | bare {name name'} : SameAt fragment ⟨name, .bare⟩ ⟨name', .bare⟩

/-- Two sources are read alike at a fragment: both have the same result there without computing
anything, the same table, or the same named condition. -/
inductive Source.ReadAlike (fragment : String) : Source → Source → Prop where
  | direct {source source' result} (left : source.direct? fragment = some result)
      (right : source'.direct? fragment = some result) : ReadAlike fragment source source'
  | table {name name'} (t : Table) : ReadAlike fragment ⟨name, .table t⟩ ⟨name', .table t⟩
  | conditions {name name' named named' condition} (left : named.find? fragment = some condition)
      (right : named'.find? fragment = some condition) :
      ReadAlike fragment ⟨name, .conditions named⟩ ⟨name', .conditions named'⟩

/-- Sources that have the same at a fragment are read alike there. -/
theorem Source.SameAt.readAlike {fragment : String} {source source' : Source}
    (same : source.SameAt fragment source') : source.ReadAlike fragment source' := by
  cases same with
  | @memory name kind kind' values values' defaults defaults' same =>
      refine .direct rfl ?_
      simp only [direct?]
      revert same
      generalize values.find? (.text fragment) = left
      generalize values'.find? (.text fragment) = right
      intro same
      cases left with
      | none => rw [Option.map_eq_none_iff.mp same.symm]
      | some value =>
          obtain ⟨value', rfl, text⟩ := Option.map_eq_some_iff.mp same.symm
          simp only [text]
  | constant => exact .direct rfl rfl
  | table t => exact .table t
  | @conditions name name' named named' same =>
      cases found : named.find? fragment with
      | some condition => exact .conditions found (same ▸ found)
      | none =>
          have found' : named'.find? fragment = none := same ▸ found
          have unknown : direct? ⟨name, .conditions named⟩ fragment =
              some (.error (.engine (.unknownCondition fragment))) := by simp only [direct?, found]
          exact .direct unknown (by simp only [direct?, found'])
  | bare => exact .direct rfl rfl

namespace Scope

/-- Two scopes agree on a coordinate: both have no such source, or both have one and these have the
same there. -/
inductive AgreeAt (scope scope' : Scope) (c : Coordinate) : Prop where
  | missing (left : Assoc.find? scope (.text c.source) = none)
      (right : Assoc.find? scope' (.text c.source) = none) : AgreeAt scope scope' c
  | found {id id' source source'} (left : Assoc.find? scope (.text c.source) = some (id, source))
      (right : Assoc.find? scope' (.text c.source) = some (id', source'))
      (same : source.SameAt c.fragment source') : AgreeAt scope scope' c

/-- Two scopes are read alike at a coordinate: both have no such source, or both have one and these are
read alike there. -/
inductive ReadAlike (scope scope' : Scope) (c : Coordinate) : Prop where
  | missing (left : Assoc.find? scope (.text c.source) = none)
      (right : Assoc.find? scope' (.text c.source) = none) : ReadAlike scope scope' c
  | found {id id' source source'} (left : Assoc.find? scope (.text c.source) = some (id, source))
      (right : Assoc.find? scope' (.text c.source) = some (id', source'))
      (alike : source.ReadAlike c.fragment source') : ReadAlike scope scope' c

theorem AgreeAt.readAlike {scope scope' : Scope} {c : Coordinate} (agree : scope.AgreeAt scope' c) :
    scope.ReadAlike scope' c := by
  cases agree with
  | missing left right => exact .missing left right
  | found left right same => exact .found left right same.readAlike

/-- The coordinates that a table reaches: its subjects, those of the tables that it reaches, and those
of the named conditions that it reaches. -/
inductive Reaches (scope : Scope) (t : Table) : Coordinate → Prop where
  | subject {c} (member : c ∈ t.subjects) : Reaches scope t c
  | table {c id source u next} (earlier : Reaches scope t c)
      (found : Assoc.find? scope (.text c.source) = some (id, source))
      (content : source.content = .table u) (member : next ∈ u.subjects) : Reaches scope t next
  | condition {c next} (earlier : Reaches scope t c) (follows : scope.follow c = some next) :
      Reaches scope t next

/-- No source is there under two names. -/
def Apart (scope : Scope) : Prop :=
  ∀ m n id s s', Assoc.find? scope (.text m) = some (id, s) →
    Assoc.find? scope (.text n) = some (id, s') → m = n

/-- Two scopes that are read alike at coordinates which lead to no others, where every chain of named
conditions ends. -/
structure Agree (scope scope' : Scope) (reach : Coordinate → Prop) : Prop where
  reads : ∀ c, reach c → scope.ReadAlike scope' c
  tables : ∀ {c id source u}, reach c → Assoc.find? scope (.text c.source) = some (id, source) →
    source.content = .table u → ∀ next ∈ u.subjects, reach next
  conditions : ∀ {c next}, reach c → scope.follow c = some next → reach next
  ends : ∀ c, reach c → ¬ scope.Endless c
  apart : scope.Apart
  apart' : scope'.Apart

variable {scope scope' : Scope} {reach : Coordinate → Prop} {busy : List String} {c : Coordinate}

/-! ## Chains of named conditions -/

theorem ReadAlike.follow_eq (alike : scope.ReadAlike scope' c) : scope'.follow c = scope.follow c := by
  cases alike with
  | missing left right => rw [follow, follow, left, right]
  | found left right same =>
      cases same with
      | direct first second => rw [follow_direct left first, follow_direct right second]
      | table t => rw [follow, follow, left, right]
      | conditions first second => simp only [follow, left, right, first, second]

theorem Agree.chain_eq (agree : scope.Agree scope' reach) (n : Nat) (reached : reach c) :
    scope'.chain n c = scope.chain n c := by
  induction n generalizing c with
  | zero => rfl
  | succ n ih =>
      rw [chain, chain, (agree.reads c reached).follow_eq]
      cases follows : scope.follow c with
      | none => rfl
      | some next => exact ih (agree.conditions reached follows)

theorem Agree.ends' (agree : scope.Agree scope' reach) (reached : reach c) : ¬ scope'.Endless c := by
  refine fun endless => agree.ends c reached fun n => ?_
  rw [← agree.chain_eq n reached]
  exact endless n

/-! ## Both sides step by step -/

/-- Both sides know the same of tables and of named conditions, while the same tables are being
computed. -/
structure Alike (scope scope' : Scope) (busy : List String) (p q : Progress) : Prop where
  outcomes : p.memo.outcomes = q.memo.outcomes
  left : p.memo.computing = busy
  right : q.memo.computing = busy
  verdicts : ∀ {c : Coordinate} {id id' source source'},
    Assoc.find? scope (.text c.source) = some (id, source) →
    Assoc.find? scope' (.text c.source) = some (id', source') →
    p.memo.verdicts.find? (id, c.fragment) = q.memo.verdicts.find? (id', c.fragment)

/-- The sides go along with each other, and part at no fault. -/
def alike (scope scope' : Scope) (busy : List String) : Tracking where
  rel := scope.Alike scope' busy
  gaps _ := False
  slips _ := False
  rel_reported _ same := ⟨same.outcomes, same.left, same.right, same.verdicts⟩

/-- A table goes along where its subjects do while it is being computed as well. -/
theorem tracks_table {r s : Resolver} {u : Table}
    (along : busy.contains u.name = false →
      ∀ c ∈ u.subjects, (alike scope scope' (u.name :: busy)).Tracks (r c) (s c)) :
    (alike scope scope' busy).Tracks (u.decideOnce r) (u.decideOnce s) := by
  intro p q same
  have leaves : ∀ {p q}, scope.Alike scope' (u.name :: busy) p q →
      scope.Alike scope' busy (p.leaving u.name) (q.leaving u.name) := by
    intro p q same
    refine ⟨same.outcomes, ?_, ?_, same.verdicts⟩
    · rw [Progress.leaving, same.left, List.erase_cons_head]
    · rw [Progress.leaving, same.right, List.erase_cons_head]
  refine Tracking.ends_decideOnce (T := alike scope scope' busy) (alike scope scope' (u.name :: busy)) rfl rfl
    same (same.left.trans same.right.symm) (fun o known => ?_) (fun unknown => same.outcomes ▸ unknown)
    (fun _ free => ?_) leaves fun {o _ _} _ _ same => ?_
  · rw [Table.runFrom_decideOnce_known (same.outcomes ▸ known)]
    exact .value o same
  · rw [same.right] at free
    exact Tracking.tracks_decide (along free) _ _ ⟨same.outcomes, congrArg (u.name :: ·) same.left,
      congrArg (u.name :: ·) same.right, same.verdicts⟩
  · have left := leaves same
    exact ⟨congrArg (·.insert u.name o) left.outcomes, left.left, left.right, left.verdicts⟩

/-- What one side learns of a named condition, the other side learns as well. -/
theorem Agree.judged (agree : scope.Agree scope' reach) {id id' : SourceId} {source source' : Source}
    (found : Assoc.find? scope (.text c.source) = some (id, source))
    (found' : Assoc.find? scope' (.text c.source) = some (id', source')) (text : String)
    {p q : Progress} (same : scope.Alike scope' busy p q) :
    scope.Alike scope' busy (p.judged id c.fragment text) (q.judged id' c.fragment text) := by
  refine ⟨same.outcomes, same.left, same.right, fun {d i i' t t'} there there' => ?_⟩
  have ids : id = i ↔ id' = i' := by
    constructor
    · rintro rfl
      rw [agree.apart _ _ _ _ _ found there] at found'
      exact (Prod.mk.inj (Option.some.inj (found'.symm.trans there'))).1
    · rintro rfl
      rw [agree.apart' _ _ _ _ _ found' there'] at found
      exact (Prod.mk.inj (Option.some.inj (found.symm.trans there))).1
  have keys : ((id, c.fragment) == (i, d.fragment)) = ((id', c.fragment) == (i', d.fragment)) := by
    rw [Bool.eq_iff_iff, beq_iff_eq, beq_iff_eq, Prod.mk.injEq, Prod.mk.injEq, ids]
  change Assoc.find? (p.memo.verdicts.insert (id, c.fragment) text) (i, d.fragment) =
    Assoc.find? (q.memo.verdicts.insert (id', c.fragment) text) (i', d.fragment)
  rw [Assoc.find?_insert, Assoc.find?_insert, keys, same.verdicts there there']

/-- A named condition that both sides have goes along where its subject does. -/
theorem Agree.tracks_condition (agree : scope.Agree scope' reach) {id id' : SourceId}
    {source source' : Source} (found : Assoc.find? scope (.text c.source) = some (id, source))
    (found' : Assoc.find? scope' (.text c.source) = some (id', source')) {r s : Resolver}
    {condition : Condition}
    (along : (alike scope scope' busy).Tracks (r condition.subject) (s condition.subject)) :
    (alike scope scope' busy).Tracks (condition.decideOnce r id c.fragment)
      (condition.decideOnce s id' c.fragment) :=
  Tracking.tracks_conditionOnce along (fun same => same.verdicts found found')
    fun text same => agree.judged found found' text same

theorem tracks_found {d d' : Nat} {room : Option Nat} {id id' : SourceId} {source source' : Source}
    (found : Assoc.find? scope (.text c.source) = some (id, source))
    (found' : Assoc.find? scope' (.text c.source) = some (id', source'))
    (reads : (alike scope scope' busy).Tracks
      (source.read (scope.below .all d source room) id c.fragment)
      (source'.read (scope'.below .all d' source' room) id' c.fragment)) :
    (alike scope scope' busy).Tracks (scope.resolveBy .all (d + 1) room c)
      (scope'.resolveBy .all (d' + 1) room c) := by
  intro p q same
  rw [runFrom_resolveBy found, runFrom_resolveBy found', p.retained_all, q.retained_all]
  exact reads p q same

/-- Below sources between which and their coordinates lies the same room, both sides go along where
they do in every room. -/
theorem tracks_below {d d' : Nat} {source source' : Source} (steps : source.steps = source'.steps)
    (along : ∀ room, (alike scope scope' busy).Tracks (scope.resolveBy .all d room c)
      (scope'.resolveBy .all d' room c)) (room : Option Nat) :
    (alike scope scope' busy).Tracks (scope.below .all d source room c)
      (scope'.below .all d' source' room c) := by
  have same : roomBelow source room = roomBelow source' room := by
    cases room with
    | none => rfl
    | some limit => rw [roomBelow, roomBelow, steps]
  rw [below, below, same]
  cases roomBelow source' room with
  | none => exact Tracking.tracks_throw _
  | some left => exact along left

/-- What is found without computing anything is the same on both sides. -/
theorem tracks_direct {source source' : Source} {fragment : String} {result : Except Fault String}
    (left : source.direct? fragment = some result) (right : source'.direct? fragment = some result)
    {r s : Resolver} {id id' : SourceId} {T : Tracking} :
    T.Tracks (source.read r id fragment) (source'.read s id' fragment) := by
  intro p q related
  rw [Source.runFrom_read_direct left, Source.runFrom_read_direct right]
  cases result with
  | ok a => exact .value a related
  | error f => exact .fault f related

/-- A coordinate that is reached goes along where the subjects of its table do, and the subject of its
named condition. -/
theorem Agree.tracks_step (agree : scope.Agree scope' reach) (reached : reach c) {d d' : Nat}
    (tables : ∀ u : Table, u.name ∈ scope.tableNames → u.name ∈ scope'.tableNames →
      busy.contains u.name = false → ∀ next, reach next → ∀ room,
        (alike scope scope' (u.name :: busy)).Tracks (scope.resolveBy .all d room next)
          (scope'.resolveBy .all d' room next))
    (conditions : ∀ next, scope.follow c = some next → ∀ room,
      (alike scope scope' busy).Tracks (scope.resolveBy .all d room next)
        (scope'.resolveBy .all d' room next))
    (room : Option Nat) :
    (alike scope scope' busy).Tracks (scope.resolveBy .all (d + 1) room c)
      (scope'.resolveBy .all (d' + 1) room c) := by
  cases agree.reads c reached with
  | missing left right =>
      intro p q same
      rw [runFrom_resolveBy_missing left, runFrom_resolveBy_missing right]
      exact .fault _ same
  | found left right same =>
      refine tracks_found left right ?_
      cases same with
      | direct first second => exact tracks_direct first second
      | table t =>
          refine Tracking.tracks_read_table (tracks_table fun free next member => ?_) _ _ _
          exact tracks_below rfl (tables t (mem_tableNames left rfl) (mem_tableNames right rfl) free
            next (agree.tables reached left rfl next member)) room
      | @conditions _ _ named named' condition first second =>
          have follows := follow_of_condition left rfl first
          refine Tracking.tracks_read_condition first second (agree.tracks_condition left right ?_)
          exact tracks_below rfl (conditions condition.subject follows) room

/-- Along a chain of named conditions both sides go along if they do wherever fewer tables are idle. -/
theorem Agree.tracks_chain (agree : scope.Agree scope' reach) {n : Nat}
    (below : ∀ busy, scope.idle busy < n → ∀ d d' room c, reach c → scope.enough busy ≤ d →
      scope'.enough busy ≤ d' → (alike scope scope' busy).Tracks (scope.resolveBy .all d room c)
        (scope'.resolveBy .all d' room c))
    (j : Nat) {d d' : Nat} {c e : Coordinate} (reached : reach c) (idle : scope.idle busy = n)
    (goes : scope.chain j c = some e) (last : scope.follow e = none)
    (deep : n * (scope.conditionCount + 1) + j + 1 ≤ d)
    (deep' : scope'.idle busy * (scope'.conditionCount + 1) + j + 1 ≤ d') (room : Option Nat) :
    (alike scope scope' busy).Tracks (scope.resolveBy .all d room c)
      (scope'.resolveBy .all d' room c) := by
  have tables : ∀ d d', n * (scope.conditionCount + 1) ≤ d →
      scope'.idle busy * (scope'.conditionCount + 1) ≤ d' → ∀ u : Table, u.name ∈ scope.tableNames →
      u.name ∈ scope'.tableNames → busy.contains u.name = false → ∀ next, reach next → ∀ room,
        (alike scope scope' (u.name :: busy)).Tracks (scope.resolveBy .all d room next)
          (scope'.resolveBy .all d' room next) := by
    intro d d' deep deep' u inside inside' free next reached room
    have fewer := idle_lt inside free
    have fewer' := idle_lt inside' free
    rw [idle] at fewer
    refine below (u.name :: busy) fewer d d' room next reached ?_ ?_
    · exact (Nat.mul_le_mul_right _ (Nat.succ_le_of_lt fewer)).trans deep
    · exact (Nat.mul_le_mul_right _ (Nat.succ_le_of_lt fewer')).trans deep'
  induction j generalizing d d' c room with
  | zero =>
      obtain rfl : c = e := Option.some.inj goes
      obtain ⟨d, rfl⟩ := Nat.exists_eq_add_of_le' (by omega : 1 ≤ d)
      obtain ⟨d', rfl⟩ := Nat.exists_eq_add_of_le' (by omega : 1 ≤ d')
      refine agree.tracks_step reached (tables d d' (by omega) (by omega)) (fun next follows => ?_) room
      cases last.symm.trans follows
  | succ j ih =>
      obtain ⟨d, rfl⟩ := Nat.exists_eq_add_of_le' (by omega : 1 ≤ d)
      obtain ⟨d', rfl⟩ := Nat.exists_eq_add_of_le' (by omega : 1 ≤ d')
      refine agree.tracks_step reached (tables d d' (by omega) (by omega)) (fun next follows room => ?_)
        room
      rw [chain, follows] at goes
      exact ih (agree.conditions reached follows) goes (by omega) (by omega) room

/-- With enough depth both sides go along from every coordinate that is reached. -/
theorem Agree.tracks_reached (agree : scope.Agree scope' reach) (busy : List String) {d d' : Nat}
    (reached : reach c) (deep : scope.enough busy ≤ d) (deep' : scope'.enough busy ≤ d')
    (room : Option Nat) :
    (alike scope scope' busy).Tracks (scope.resolveBy .all d room c)
      (scope'.resolveBy .all d' room c) := by
  generalize idle : scope.idle busy = n
  induction n using Nat.strong_induction_on generalizing busy d d' c room with
  | _ n ih =>
      obtain ⟨j, e, le, goes, last⟩ := exists_end (agree.ends c reached)
      have le' : j ≤ scope'.conditionCount := by
        by_contra long
        refine agree.ends' reached (endless_of_long (chain_ne_none_of_le (n := j) (by omega) ?_))
        rw [agree.chain_eq j reached, goes]
        exact Option.some_ne_none e
      rw [enough, idle, Nat.succ_mul] at deep
      rw [enough, Nat.succ_mul] at deep'
      refine agree.tracks_chain ?_ j reached idle goes last (by omega) (by omega) room
      intro busy' fewer d d' room c reached deep deep'
      exact ih _ fewer busy' reached deep deep' room rfl

theorem alike_start (scope scope' : Scope) : scope.Alike scope' [] .start .start :=
  ⟨rfl, rfl, rfl, fun _ _ => rfl⟩

/-- What goes along on both sides gives the same result. -/
theorem Alike.fst_eq {p q : Progress} (same : scope.Alike scope' busy p q) {α : Type}
    {x y : Evaluation α} (tracks : (alike scope scope' busy).Tracks x y) :
    (runFrom x p).1 = (runFrom y q).1 :=
  (tracks p q same).fst_eq (fun _ => id) fun _ => id

theorem Agree.tracks_resolve (agree : scope.Agree scope' reach) (busy : List String) (reached : reach c)
    (room : Option Nat) :
    (alike scope scope' busy).Tracks (scope.resolve room c) (scope'.resolve room c) := by
  rw [resolve, resolve, ← resolveBy_all, ← resolveBy_all]
  exact agree.tracks_reached busy reached (scope.enough_le_depth _) (scope'.enough_le_depth _) room

/-- A table is decided alike in both scopes. -/
theorem Agree.decide_eq (agree : scope.Agree scope' reach) {t : Table}
    (subjects : ∀ c ∈ t.subjects, reach c) (room : Option Nat) :
    (runFrom (t.decide (scope.resolve room)) .start).1 =
      (runFrom (t.decide (scope'.resolve room)) .start).1 :=
  (alike_start scope scope').fst_eq <|
    Tracking.tracks_decide fun c member => agree.tracks_resolve [] (subjects c member) room

/-- A table has the same outcome, or fails in the same way, in both scopes. -/
theorem Agree.decideOnce_eq (agree : scope.Agree scope' reach) {t : Table}
    (subjects : ∀ c ∈ t.subjects, reach c) (room : Option Nat) :
    (runFrom (t.decideOnce (scope.resolve room)) .start).1 =
      (runFrom (t.decideOnce (scope'.resolve room)) .start).1 :=
  (alike_start scope scope').fst_eq <| tracks_table fun _ c member =>
    agree.tracks_resolve [t.name] (subjects c member) room

end Scope

end DecisionTables
