import DecisionTables.Proofs.Depending
import DecisionTables.Proofs.Enduring
import DecisionTables.Proofs.Vouching

/-!
# Knowing more beforehand

Two evaluations of one coordinate in one scope, of which the second knows more beforehand.
Where that is grounded in what the first knows, for all that the coordinate comes to, both give
the same text, and the first catches up with whatever the second learns, unless it runs too deep.
-/

namespace DecisionTables

namespace Knowledge

/-- All that is known in the first place is known in one of the others. -/
structure Among (m k l : Knowledge) : Prop where
  outcomes : ∀ {name o}, m.outcomes.find? name = some o →
    k.outcomes.find? name = some o ∨ l.outcomes.find? name = some o
  verdicts : ∀ {key text}, m.verdicts.find? key = some text →
    k.verdicts.find? key = some text ∨ l.verdicts.find? key = some text

variable {k l m n : Knowledge}

theorem Among.of_le (k : Knowledge) (le : m.Le l) : m.Among k l :=
  ⟨fun found => .inr (le.outcomes found), fun found => .inr (le.verdicts found)⟩

theorem Among.grow (among : m.Among k l) (le : k.Le n) : m.Among n l :=
  ⟨fun found => (among.outcomes found).imp_left le.outcomes,
    fun found => (among.verdicts found).imp_left le.verdicts⟩

theorem Among.trans (among : m.Among k l) (further : l.Among k n) : m.Among k n :=
  ⟨fun found => (among.outcomes found).elim .inl further.outcomes,
    fun found => (among.verdicts found).elim .inl further.verdicts⟩

theorem Among.symm (among : m.Among k l) : m.Among l k :=
  ⟨fun found => (among.outcomes found).symm, fun found => (among.verdicts found).symm⟩

/-- What is learned in both of the first places is no matter of the third. -/
theorem Among.withOutcome (among : m.Among k l) (table : String) (o : Outcome) :
    (m.withOutcome table o).Among (k.withOutcome table o) l := by
  refine ⟨fun {name o'} found => ?_, among.verdicts⟩
  rw [find?_withOutcome] at found ⊢
  split at found
  · rw [if_pos ‹_›]
    exact .inl found
  · rw [if_neg ‹_›]
    exact among.outcomes found

theorem Among.withVerdict (among : m.Among k l) (id : SourceId) (name text : String) :
    (m.withVerdict id name text).Among (k.withVerdict id name text) l := by
  refine ⟨among.outcomes, fun {key text'} found => ?_⟩
  rw [find?_withVerdict] at found ⊢
  split at found
  · rw [if_pos ‹_›]
    exact .inl found
  · rw [if_neg ‹_›]
    exact among.verdicts found

end Knowledge

/-- Progress that trails other progress: it knows what was known at first, and of what the other one
knows everything but what that one knew beforehand. -/
structure Trails (first lead : Knowledge) (q p : Progress) : Prop where
  first : first.Le q.known
  known : q.known.Le p.known
  led : lead.Le p.known
  among : p.known.Among q.known lead
  computing : q.memo.computing = p.memo.computing
  apart : ∀ name ∈ p.memo.computing, lead.outcomes.find? name = none

/-- The evaluation that trails goes along with the other one until it runs too deep. -/
def trailing (first lead : Knowledge) : Tracking where
  rel := Trails first lead
  gaps _ := False
  slips f := f = .tooDeep
  rel_reported _ trails :=
    ⟨trails.first, trails.known, trails.led, trails.among, trails.computing, trails.apart⟩

namespace Trails

variable {first lead : Knowledge} {q p : Progress}

/-- While no table is being computed, progress trails any that knows more. -/
theorem of_idle (le : first.Le q.known) (known : q.known.Le p.known) (idle : q.memo.computing = [])
    (idle' : p.memo.computing = []) : Trails first p.known q p where
  first := le
  known := known
  led := .refl _
  among := .of_le _ (.refl _)
  computing := idle.trans idle'.symm
  apart := by
    rw [idle']
    exact fun _ impossible => absurd impossible List.not_mem_nil

theorem entering (trails : Trails first lead q p) {name : String}
    (unknown : lead.outcomes.find? name = none) :
    Trails first lead (q.entering name) (p.entering name) where
  first := trails.first
  known := trails.known
  led := trails.led
  among := trails.among
  computing := congrArg (name :: ·) trails.computing
  apart := List.forall_mem_cons.mpr ⟨unknown, trails.apart⟩

theorem leaving (trails : Trails first lead q p) (name : String) :
    Trails first lead (q.leaving name) (p.leaving name) where
  first := trails.first
  known := trails.known
  led := trails.led
  among := trails.among
  computing := congrArg (List.erase · name) trails.computing
  apart other member := trails.apart other (List.mem_of_mem_erase member)

/-- What was not known beforehand, both may learn. -/
theorem knowing (trails : Trails first lead q p) (before : first.Le lead) {name : String}
    (unknown : lead.outcomes.find? name = none) (o : Outcome) :
    Trails first lead (q.knowing name o) (p.knowing name o) where
  first := trails.first.withOutcome_of_unknown (before.outcome_none unknown) o
  known := trails.known.withOutcome name o
  led := trails.led.withOutcome_of_unknown unknown o
  among := trails.among.withOutcome name o
  computing := trails.computing
  apart := trails.apart

theorem judged (trails : Trails first lead q p) (before : first.Le lead) {id : SourceId}
    {name : String} (unknown : lead.verdicts.find? (id, name) = none) (text : String) :
    Trails first lead (q.judged id name text) (p.judged id name text) where
  first := trails.first.withVerdict_of_unknown (before.verdict_none unknown) text
  known := trails.known.withVerdict id name text
  led := trails.led.withVerdict_of_unknown unknown text
  among := trails.among.withVerdict id name text
  computing := trails.computing
  apart := trails.apart

/-- No table that is being computed was known beforehand. -/
theorem within (trails : Trails first lead q p) {k : Knowledge} (le : k.Le lead) :
    Within first k p.known q := by
  refine ⟨trails.first, trails.known, fun name member => le.outcome_none ?_⟩
  exact trails.apart name (trails.computing ▸ member)

/-- An evaluation that comes to what the other one knows catches up with it. -/
theorem ends {α : Type} {ran : Except Fault α × Progress} {a : α} (trails : Trails first lead q p)
    (confirms : Confirms first p.known q ran (.ok a)) (onward : q.Onward ran.2) :
    (trailing first lead).Ends ran (.ok a, p) := by
  have trails' : Trails first lead ran.2 p :=
    ⟨confirms.first, confirms.known, trails.led, trails.among.grow onward.known,
      confirms.computing.trans trails.computing, trails.apart⟩
  revert confirms trails'
  obtain ⟨result, q'⟩ := ran
  intro confirms trails'
  rcases confirms.result with deep | same
  · cases deep
    exact .slip rfl trails'
  · cases same
    exact .value a trails'

end Trails

/-! ## Steps -/

section

variable {scope : Scope} {catalog : Catalog} {first k lead : Knowledge} {r s : Resolver}

/-- A table of which one side knows beforehand what is grounded is decided alike. -/
theorem trailing_table (before : first.Le lead) (grounded : Grounded scope catalog first k)
    (le : k.Le lead) (confirmed : ∀ l, scope.Confirmed catalog first l r)
    (onward : ∀ c p, Progress.Onward p (runFrom (r c) p).2) {t : Table}
    (own : catalog.table t.name = .ok t)
    (relevant : ∀ o, lead.outcomes.find? t.name = some o → k.outcomes.find? t.name = some o)
    (along : ∀ c ∈ t.subjects, (trailing first lead).Tracks (r c) (s c)) :
    (trailing first lead).Tracks (t.decideOnce r) (t.decideOnce s) := by
  intro q p trails
  have fresh : p.memo.outcomes.find? t.name = none → lead.outcomes.find? t.name = none :=
    trails.led.outcome_none
  refine Tracking.ends_decideOnce (trailing first lead) rfl rfl trails trails.computing
    (fun o known => ?_) trails.known.outcome_none (fun unknown _ => ?_) (fun inside => inside.leaving t.name)
    fun unknown _ inside => (inside.leaving t.name).knowing before (fresh unknown) _
  · rcases trails.among.outcomes known with caught | led
    · rw [Table.runFrom_decideOnce_known caught]
      exact .value o trails
    · have within : Within first k p.known q := trails.within le
      exact trails.ends (grounded.confirms_table (confirmed p.known) (le.trans trails.led) own
        (relevant o led) within) (t.onward_decideOnce onward q)
  · exact Tracking.tracks_decide along _ _ (trails.entering (fresh unknown))

/-- A named condition of which one side knows beforehand what is grounded is evaluated alike. -/
theorem trailing_condition (coherent : scope.Coherent) (before : first.Le lead)
    (grounded : Grounded scope catalog first k) (le : k.Le lead)
    (confirmed : ∀ l, scope.Confirmed catalog first l r)
    (onward : ∀ c p, Progress.Onward p (runFrom (r c) p).2) {key : Scalar} {id : SourceId}
    {source : Source} (found : Assoc.find? scope key = some (id, source))
    {named : Assoc String Condition} (content : source.content = .conditions named) {name : String}
    {c : Condition} (registered : named.find? name = some c)
    (relevant : ∀ text, lead.verdicts.find? (id, name) = some text →
      k.verdicts.find? (id, name) = some text)
    (along : (trailing first lead).Tracks (r c.subject) (s c.subject)) :
    (trailing first lead).Tracks (c.decideOnce r id name) (c.decideOnce s id name) := by
  intro q p trails
  refine Tracking.ends_conditionOnce (fun text known => ?_) trails.known.verdict_none
    (Condition.respected_evaluate (trailing first lead).respected along _ _ trails)
    fun unknown _ after => after.judged before (trails.led.verdict_none unknown) _
  rcases trails.among.verdicts known with caught | led
  · rw [Condition.runFrom_decideOnce_known caught]
    exact .value text trails
  · have within : Within first k p.known q := trails.within le
    exact trails.ends (grounded.confirms_condition coherent (confirmed p.known)
      (le.trans trails.led) found content registered (relevant text led) within)
      (c.along_decideOnce Progress.along_onward onward id name
        (fun _ _ text unknown onward => onward.judged unknown text) q)

/-! ## What a coordinate comes to -/

namespace Scope

/-- The coordinates that a coordinate comes to: itself, and the subjects of the tables and of the
named conditions that it comes to. -/
inductive Comes (scope : Scope) (c : Coordinate) : Coordinate → Prop where
  | self : Comes scope c c
  | table {d next id source t} (earlier : Comes scope c d)
      (found : Assoc.find? scope (.text d.source) = some (id, source))
      (content : source.content = .table t) (member : next ∈ t.subjects) : Comes scope c next
  | condition {d next} (earlier : Comes scope c d) (follows : scope.follow d = some next) :
      Comes scope c next

/-- What is known beforehand of all that a coordinate comes to is grounded in what was known at
first. -/
structure Founded (scope : Scope) (catalog : Catalog) (c : Coordinate) (first k lead : Knowledge) :
    Prop where
  before : first.Le lead
  grounded : Grounded scope catalog first k
  le : k.Le lead
  outcomes : ∀ {d id source t}, scope.Comes c d →
    Assoc.find? scope (.text d.source) = some (id, source) → source.content = .table t →
    ∀ o, lead.outcomes.find? t.name = some o → k.outcomes.find? t.name = some o
  verdicts : ∀ {d id source named condition}, scope.Comes c d →
    Assoc.find? scope (.text d.source) = some (id, source) → source.content = .conditions named →
    named.find? d.fragment = some condition → ∀ text, lead.verdicts.find? (id, d.fragment) = some text →
      k.verdicts.find? (id, d.fragment) = some text

theorem onward_below (scope : Scope) (d : Nat) (source : Source) (room : Option Nat) (c : Coordinate)
    (p : Progress) : p.Onward (runFrom (scope.below .all d source room c) p).2 := by
  rw [below]
  cases roomBelow source room with
  | none => exact Progress.along_onward.refl p
  | some left =>
      simp only [resolveBy_all]
      exact scope.onward_resolveWithin d left c p

theorem trailing_below (source : Source) (room : Option Nat) {d : Nat} {c : Coordinate}
    (along : ∀ room, (trailing first lead).Tracks (scope.resolveBy .all d room c)
      (scope.resolveBy .all d room c)) :
    (trailing first lead).Tracks (scope.below .all d source room c)
      (scope.below .all d source room c) := by
  rw [below]
  cases roomBelow source room with
  | some left => exact along left
  | none => exact Tracking.tracks_throw _

/-- Whatever the coordinate comes to, both sides come to the same text of it. -/
theorem Founded.tracks {c : Coordinate} (founded : scope.Founded catalog c first k lead)
    (coherent : scope.Coherent) (owned : scope.Owned catalog) (d : Nat) (room : Option Nat)
    {e : Coordinate} (comes : scope.Comes c e) :
    (trailing first lead).Tracks (scope.resolveBy .all d room e) (scope.resolveBy .all d room e) := by
  induction d generalizing room e with
  | zero => exact Tracking.tracks_throw _
  | succ d ih =>
      intro q p trails
      cases found : Assoc.find? scope (.text e.source) with
      | none =>
          rw [runFrom_resolveBy_missing found, runFrom_resolveBy_missing found]
          exact .fault _ trails
      | some entry =>
          obtain ⟨id, source⟩ := entry
          have confirmed : ∀ l, scope.Confirmed catalog first l (scope.below .all d source room) :=
            fun l => confirmed_below (confirmed_resolveBy coherent owned l (Retention.spares_all first) d)
          have onward := scope.onward_below d source room
          rw [runFrom_resolveBy found, runFrom_resolveBy found, q.retained_all, p.retained_all]
          rcases source.direct_or_computed e.fragment with
            ⟨result, direct⟩ | ⟨t, content⟩ | ⟨named, condition, content, registered⟩
          · rw [Source.runFrom_read_direct direct, Source.runFrom_read_direct direct]
            cases result with
            | ok text => exact .value text trails
            | error f => exact .fault f trails
          · obtain ⟨_, _, member⟩ := Assoc.exists_mem_of_find? found
            have decided := trailing_table founded.before founded.grounded founded.le confirmed onward
              (owned _ member t content) (founded.outcomes comes found content)
              fun next member => trailing_below source room fun room => ih room (.table comes found content member)
            obtain ⟨name, _⟩ := source
            cases content
            exact Tracking.tracks_read_table decided id id e.fragment q p trails
          · have next := trailing_below source room fun room =>
              ih room (.condition comes (follow_of_condition found content registered))
            have evaluated := trailing_condition coherent founded.before founded.grounded founded.le
              confirmed onward found content registered (founded.verdicts comes found content registered) next
            obtain ⟨name, _⟩ := source
            cases content
            exact Tracking.tracks_read_condition registered registered evaluated q p trails

/-- A coordinate of which one side knows beforehand what is grounded is resolved alike. -/
theorem Founded.tracks_resolve {c : Coordinate} (founded : scope.Founded catalog c first k lead)
    (coherent : scope.Coherent) (owned : scope.Owned catalog) (room : Option Nat) :
    (trailing first lead).Tracks (scope.resolve room c) (scope.resolve room c) := by
  rw [resolve, ← resolveBy_all]
  exact founded.tracks coherent owned scope.depth room .self

end Scope

end

end DecisionTables
