import Mathlib
import DecisionTables.Proofs.Circling

/-!
# Fronts answer for their own tables

A context keeps outcomes, and marks the tables that are being computed, by the names of the
tables, while its sources may front tables of one name that are different.  Where tables are
told apart by what they are, every source answers for its own table and a cycle is a cycle of
that table.  The engine does the same as long as different tables have different names.
-/

namespace DecisionTables

/-- A condition has an error that it does not raise itself exactly where its subject has it. -/
theorem Condition.resultBy_eq_error_iff {text : Coordinate → Except Fault String} {c : Condition}
    {f : Fault} (passed : f.Passed) : c.resultBy text = .error f ↔ text c.subject = .error f :=
  passed.unjudged.failsWith_evaluate c

namespace Scope

/-- The tables that the sources in scope front. -/
def tables (scope : Scope) : List Table :=
  scope.filterMap fun entry =>
    match entry.2.2.content with
    | .table t => some t
    | _ => none

/-- Tables of one name are the same. -/
def Consistent (scope : Scope) : Prop :=
  ∀ t ∈ scope.tables, ∀ u ∈ scope.tables, u.name = t.name → u = t

/-- The text of a coordinate while some tables are being computed, through at most `depth` further
coordinates, where every table has an outcome of its own whatever its name is. -/
def ownText (scope : Scope) : Nat → List Table → Coordinate → Except Fault String
  | 0, _, _ => .error .tooDeep
  | depth + 1, busy, c =>
    match Assoc.find? scope (.text c.source) with
    | none => .error (.engine (.unknownSource c.source))
    | some (_, source) =>
      match source.content with
      | .table t =>
        if t ∈ busy then .error (.engine (.cyclicTable t.name))
        else (t.outcomeBy (ownText scope depth (t :: busy))).bind (Source.pick t c.fragment)
      | .conditions named =>
        match named.find? c.fragment with
        | some condition => (condition.resultBy (ownText scope depth busy)).map Condition.verdict
        | none => (source.direct? c.fragment).getD (.error .notProvided)
      | _ => (source.direct? c.fragment).getD (.error .notProvided)

/-- The references that are followed from a coordinate come to a table again while it is being
computed. -/
inductive Revisits (scope : Scope) : Nat → List Table → Coordinate → Table → Prop where
  | again {d busy c id source t} (found : Assoc.find? scope (.text c.source) = some (id, source))
      (content : source.content = .table t) (computing : t ∈ busy) : Revisits scope (d + 1) busy c t
  | table {d busy c id source t next u}
      (found : Assoc.find? scope (.text c.source) = some (id, source))
      (content : source.content = .table t) (fresh : t ∉ busy)
      (followed : next ∈ t.follows (scope.ownText d (t :: busy)))
      (later : Revisits scope d (t :: busy) next u) : Revisits scope (d + 1) busy c u
  | condition {d busy c id source named condition u}
      (found : Assoc.find? scope (.text c.source) = some (id, source))
      (content : source.content = .conditions named)
      (registered : named.find? c.fragment = some condition)
      (later : Revisits scope d busy condition.subject u) : Revisits scope (d + 1) busy c u

variable {scope : Scope} {catalog owner : Catalog}

section

variable {d : Nat} {busy : List Table} {c : Coordinate} {id : SourceId} {source : Source}

theorem ownText_missing (missing : Assoc.find? scope (.text c.source) = none) :
    scope.ownText (d + 1) busy c = .error (.engine (.unknownSource c.source)) := by
  rw [ownText, missing]

theorem ownText_direct (found : Assoc.find? scope (.text c.source) = some (id, source))
    {result : Except Fault String} (direct : source.direct? c.fragment = some result) :
    scope.ownText (d + 1) busy c = result := by
  rw [ownText, found]
  simp only [direct, Option.getD_some]
  cases content : source.content with
  | table t =>
      rw [Source.direct?, content] at direct
      cases direct
  | conditions named =>
      cases registered : named.find? c.fragment with
      | none => simp only [registered]
      | some condition =>
          rw [Source.direct?, content] at direct
          simp only [registered] at direct
          cases direct
  | _ => rfl

theorem ownText_table (found : Assoc.find? scope (.text c.source) = some (id, source)) {t : Table}
    (content : source.content = .table t) :
    scope.ownText (d + 1) busy c =
      if t ∈ busy then .error (.engine (.cyclicTable t.name))
      else (t.outcomeBy (scope.ownText d (t :: busy))).bind (Source.pick t c.fragment) := by
  rw [ownText, found]
  simp only [content]

theorem ownText_condition (found : Assoc.find? scope (.text c.source) = some (id, source))
    {named : Assoc String Condition} (content : source.content = .conditions named)
    {condition : Condition} (registered : named.find? c.fragment = some condition) :
    scope.ownText (d + 1) busy c =
      (condition.resultBy (scope.ownText d busy)).map Condition.verdict := by
  rw [ownText, found]
  simp only [content, registered]

/-- A table is reported as circular exactly where the references that are followed come to it again
while it is being computed. -/
theorem ownText_eq_cyclic_iff {name : String} :
    scope.ownText d busy c = .error (.engine (.cyclicTable name)) ↔
      ∃ u, u.name = name ∧ scope.Revisits d busy c u := by
  have passed := Fault.passed_cyclicTable name
  constructor
  · intro circular
    induction d generalizing busy c with
    | zero => cases circular
    | succ d ih =>
        cases scope.lookup c with
        | missing found =>
            rw [ownText_missing found] at circular
            cases circular
        | @direct _ source _ found direct =>
            rw [ownText_direct found direct] at circular
            have told : (source.direct? c.fragment).getD (.error .notProvided) ≠
                .error (.engine (.cyclicTable name)) := Source.direct_not_cyclicTable
            rw [direct] at told
            exact (told circular).elim
        | @table _ _ t found content =>
            rw [ownText_table found content] at circular
            split at circular
            case isTrue computing =>
              cases circular
              exact ⟨t, rfl, .again found content computing⟩
            case isFalse fresh =>
              cases decided : t.outcomeBy (scope.ownText d (t :: busy)) with
              | ok o =>
                  rw [decided] at circular
                  exact (Source.pick_not_cyclicTable circular).elim
              | error f =>
                  rw [decided] at circular
                  cases circular
                  obtain ⟨next, followed, circular⟩ := (t.outcomeBy_eq_error_iff passed).mp decided
                  obtain ⟨u, same, later⟩ := ih circular
                  exact ⟨u, same, .table found content fresh followed later⟩
        | @condition _ _ _ condition found content registered =>
            rw [ownText_condition found content registered] at circular
            cases evaluated : condition.resultBy (scope.ownText d busy) with
            | ok result =>
                rw [evaluated] at circular
                cases circular
            | error f =>
                rw [evaluated] at circular
                cases circular
                obtain ⟨u, same, later⟩ := ih ((Condition.resultBy_eq_error_iff passed).mp evaluated)
                exact ⟨u, same, .condition found content registered later⟩
  · rintro ⟨u, rfl, revisits⟩
    induction revisits with
    | again found content computing => rw [ownText_table found content, if_pos computing]
    | @table d busy c id source t next u found content fresh followed later ih =>
        have decided := (t.outcomeBy_eq_error_iff passed).mpr ⟨next, followed, ih passed⟩
        rw [ownText_table found content, if_neg fresh, decided]
        rfl
    | condition found content registered later ih =>
        rw [ownText_condition found content registered,
          (Condition.resultBy_eq_error_iff passed).mpr (ih passed)]
        rfl

/-- A source that fronts a table gives an outcome that the table has of its own. -/
theorem ownText_front (found : Assoc.find? scope (.text c.source) = some (id, source)) {t : Table}
    (content : source.content = .table t) :
    scope.ownText scope.depth [] c =
      (t.outcomeBy (scope.ownText (scope.depth - 1) [t])).bind (Source.pick t c.fragment) := by
  have positive : 0 < scope.depth := Nat.mul_pos (Nat.succ_pos _) (Nat.succ_pos _)
  have step : scope.ownText (scope.depth - 1 + 1) [] c =
      if t ∈ [] then .error (.engine (.cyclicTable t.name))
      else (t.outcomeBy (scope.ownText (scope.depth - 1) [t])).bind (Source.pick t c.fragment) :=
    ownText_table found content
  rw [Nat.sub_add_cancel positive, if_neg List.not_mem_nil] at step
  exact step

theorem outcome_eq_cyclic_iff {t : Table} {fragment name : String} :
    (t.outcomeBy (scope.ownText d (t :: busy))).bind (Source.pick t fragment) =
        .error (.engine (.cyclicTable name)) ↔
      ∃ u, u.name = name ∧ ∃ next ∈ t.follows (scope.ownText d (t :: busy)),
        scope.Revisits d (t :: busy) next u := by
  have decided : t.outcomeBy (scope.ownText d (t :: busy)) = .error (.engine (.cyclicTable name)) ↔
      ∃ next ∈ t.follows (scope.ownText d (t :: busy)),
        scope.ownText d (t :: busy) next = .error (.engine (.cyclicTable name)) :=
    t.outcomeBy_eq_error_iff (Fault.passed_cyclicTable name)
  simp only [ownText_eq_cyclic_iff] at decided
  have arranged : (∃ next ∈ t.follows (scope.ownText d (t :: busy)), ∃ u, u.name = name ∧
        scope.Revisits d (t :: busy) next u) ↔
      ∃ u, u.name = name ∧ ∃ next ∈ t.follows (scope.ownText d (t :: busy)),
        scope.Revisits d (t :: busy) next u := by
    constructor
    · rintro ⟨next, followed, u, same, later⟩
      exact ⟨u, same, next, followed, later⟩
    · rintro ⟨u, same, next, followed, later⟩
      exact ⟨next, followed, u, same, later⟩
  rw [← arranged, ← decided]
  cases t.outcomeBy (scope.ownText d (t :: busy)) with
  | error f => exact ⟨fun failed => by cases failed; rfl, fun failed => by cases failed; rfl⟩
  | ok o =>
      refine ⟨fun circular => (Source.pick_not_cyclicTable circular).elim, ?_⟩
      exact fun impossible => by cases impossible

end

/-! ## Where different tables have different names -/

theorem mem_tables {entry : Scalar × SourceId × Source} (member : entry ∈ scope) {t : Table}
    (content : entry.2.2.content = .table t) : t ∈ scope.tables := by
  refine List.mem_filterMap.mpr ⟨entry, member, ?_⟩
  simp only [content]

theorem find?_tables {tables : List Table} {t : Table} (member : t ∈ tables)
    (single : ∀ u ∈ tables, u.name = t.name → u = t) :
    Assoc.find? (tables.map fun u => (u.name, u)) t.name = some t := by
  induction tables with
  | nil => exact absurd member List.not_mem_nil
  | cons u rest ih =>
      rw [List.map_cons, Assoc.find?]
      split
      · rename_i same
        rw [single u List.mem_cons_self (eq_of_beq same)]
      · rename_i differ
        rcases List.mem_cons.mp member with rfl | later
        · exact absurd (beq_self_eq_true t.name) differ
        · exact ih later fun v inside => single v (List.mem_cons_of_mem _ inside)

/-- Tables of which each name means one are those of a catalog. -/
theorem table_of_single {tables : List Table}
    (single : ∀ t ∈ tables, ∀ u ∈ tables, u.name = t.name → u = t) {t : Table} (member : t ∈ tables) :
    Catalog.table ⟨tables.map fun u => (u.name, u)⟩ t.name = .ok t := by
  rw [Catalog.table, find?_tables member (single t member)]

theorem Consistent.exists_owned (consistent : scope.Consistent) : ∃ catalog, scope.Owned catalog :=
  ⟨⟨scope.tables.map fun t => (t.name, t)⟩, fun _ member _ content =>
    table_of_single consistent (mem_tables member content)⟩

/-- Where every table in scope is the one of its name, marking tables by their names marks no other
tables. -/
theorem answer_eq_ownText (owned : scope.Owned owner) (d : Nat) {busy : List Table}
    (known : ∀ t ∈ busy, owner.table t.name = .ok t) (c : Coordinate) :
    scope.answer d (busy.map Table.name) c = scope.ownText d busy c := by
  induction d generalizing busy c with
  | zero => rfl
  | succ d ih =>
      cases scope.lookup c with
      | missing found => rw [answer_missing found, ownText_missing found]
      | direct found direct =>
          rw [answer_direct found direct, ownText_direct found direct]
      | @table _ _ t found content =>
          obtain ⟨_, _, member⟩ := Assoc.exists_mem_of_find? found
          have own : owner.table t.name = .ok t := owned _ member t content
          have marked : (busy.map Table.name).contains t.name ↔ t ∈ busy := by
            rw [List.contains_iff_mem, List.mem_map]
            constructor
            · rintro ⟨u, inside, same⟩
              have other := known u inside
              rw [same, own] at other
              cases other
              exact inside
            · exact fun inside => ⟨t, inside, rfl⟩
          have below : scope.answer d (t.name :: busy.map Table.name) = scope.ownText d (t :: busy) :=
            funext fun next => ih (List.forall_mem_cons.mpr ⟨own, known⟩) next
          rw [answer_table found content, ownText_table found content, below]
          exact if_congr marked rfl rfl
      | condition found content registered =>
          rw [answer_condition found content registered, ownText_condition found content registered,
            funext (ih known)]

/-- Whatever a context has computed before, a coordinate has its own text, unless it runs too deep:
without a memory, or with one where chains of named conditions end. -/
theorem resolve_eq_ownText (coherent : scope.Coherent) (owned : scope.Owned owner)
    (room : Option Nat) {p : Progress} (refreshes : Refreshes scope owner .start p) (c : Coordinate) :
    ((runFrom (scope.resolveBy .nothing scope.depth room c) .start).1 = .error .tooDeep ∨
        (runFrom (scope.resolve room c) p).1 = scope.ownText scope.depth [] c) ∧
      ((∀ c, ¬ scope.Endless c) → (runFrom (scope.resolve room c) p).1 = .error .tooDeep ∨
        (runFrom (scope.resolve room c) p).1 = scope.ownText scope.depth [] c) := by
  have afresh : ∀ room, (runFrom (scope.resolveBy .nothing scope.depth room c) .start).1 =
        .error .tooDeep ∨
      (runFrom (scope.resolve room c) p).1 = scope.ownText scope.depth [] c := by
    intro room
    have refreshed := (refreshing_resolveBy coherent owned .nothing scope.depth room c .start p
      refreshes).tooDeep_or_eq (fun _ => id) fun _ => id
    have meant := (scope.meaning_answer scope.depth room [] c .start .start rfl).tooDeep_or_eq
      (fun _ impossible => impossible) fun _ deep => deep
    have told : scope.answer scope.depth [] c = scope.ownText scope.depth [] c :=
      answer_eq_ownText owned scope.depth (fun _ impossible => absurd impossible List.not_mem_nil) c
    rw [← told, resolve, ← resolveBy_all]
    rcases refreshed with deep | same
    · exact .inl deep
    · exact meant.imp_right fun means => same.trans means.symm
  refine ⟨afresh room, fun ends => ?_⟩
  have limited := (scope.limiting_resolveWithin scope.depth room c p p rfl).tooDeep_or_eq
    (fun _ => id) fun _ => id
  refine limited.imp_right fun same => ?_
  rw [resolve, ← same]
  exact (afresh none).resolve_left (not_cutOff_of_ends (ample_none _) ends c .start)

end Scope

theorem Catalog.mem_of_table {catalog : Catalog} {name : String} {t : Table}
    (found : catalog.table name = .ok t) : t ∈ catalog.tables := by
  unfold table at found
  split at found
  · rename_i u known
    cases found
    exact List.mem_map_of_mem (Assoc.mem_of_find? known)
  · cases found

/-! ## Reads -/

namespace Store

variable {σ : Store} {ctx : ContextId}

theorem withProgress_withProgress (inside : ctx.index < σ.contexts.size) (p q : Progress) :
    (σ.withProgress ctx p).withProgress ctx q = σ.withProgress ctx q := by
  rw [withProgress, context_withProgress inside]
  simp only [withProgress, setTrace, setContext, Array.setIfInBounds_setIfInBounds]

end Store

/-- What every read keeps of the progress of a context, any number of reads keeps. -/
theorem ContextId.exists_afterReads {σ : Store} {ctx : ContextId} {catalog : Catalog}
    (inside : ctx.index < σ.contexts.size) (traced : (σ.context ctx).trace.index < σ.traces.size)
    (found : (σ.context ctx).catalog = some catalog) {kept : Progress → Prop}
    (keeps : ∀ (read : Read) p, kept p → kept (runFrom (read.step catalog (σ.resolver ctx)) p).2)
    (before : List Read) {p : Progress} (start : kept p) :
    ∃ q, kept q ∧ ctx.afterReads before (σ.withProgress ctx p) = σ.withProgress ctx q := by
  induction before generalizing p with
  | nil => exact ⟨p, start, rfl⟩
  | cons read rest ih =>
      have found' : ((σ.withProgress ctx p).context ctx).catalog = some catalog := by
        rw [Store.context_withProgress inside]
        exact found
      rw [afterReads, runFrom_read found', Store.resolver_withProgress inside,
        Store.progress_withProgress inside traced, Store.withProgress_withProgress inside]
      exact ih (keeps read p start)

/-- Whatever was read in a context before, a coordinate has its own text there, unless it runs too
deep. -/
theorem Store.Opened.read_eq_ownText {σ : Store} {ctx : ContextId} {catalog owner : Catalog}
    (opened : σ.Opened owner.Owns ctx catalog)
    (own : ∀ name t, catalog.table name = .ok t → owner.table t.name = .ok t) (before : List Read)
    (c : Coordinate) :
    let scope := σ.scope (σ.context ctx).registry
    let text := scope.ownText scope.depth [] c
    let later := (runFrom (ctx.read c) (ctx.afterReads before σ)).1
    ((runFrom (scope.resolveBy .nothing scope.depth σ.room c) .start).1 = .error .tooDeep ∨
        later = text) ∧
      ((∀ c, ¬ scope.Endless c) → later = .error .tooDeep ∨ later = text) ∧
      (Scope.Ample scope.depth σ.room → (∀ c, ¬ scope.Endless c) → later = text) := by
  intro scope text later
  have coherent : scope.Coherent := σ.coherent_scope _
  have owned : scope.Owned owner := opened.all.owned
  have start : Refreshes scope owner .start (σ.progress ctx) := by
    rw [opened.progress]
    exact refreshes_start scope owner
  have keeps : ∀ (read : Read) p, Refreshes scope owner .start p →
      Refreshes scope owner .start (runFrom (read.step catalog (σ.resolver ctx)) p).2 := by
    intro read p refreshes
    have records := read.settling coherent owned own σ.room refreshes.settling
    exact ⟨refreshes.known.trans records.le, refreshes.computing.trans records.computing.symm,
      records.settling⟩
  obtain ⟨p, refreshes, after⟩ := ContextId.exists_afterReads opened.inside opened.traced
    opened.catalog keeps before start
  have later_eq : later = (runFrom (scope.resolve σ.room c) p).1 := by
    have resolver : (σ.withProgress ctx p).resolver ctx = scope.resolve σ.room :=
      Store.resolver_withProgress opened.inside p
    change (runFrom (ctx.evaluate fun resolve => resolve c) (ctx.afterReads before σ)).1 = _
    rw [σ.withProgress_progress ctx] at after
    rw [after, ctx.runFrom_evaluate, resolver,
      Store.progress_withProgress opened.inside opened.traced]
  obtain ⟨afresh, limited⟩ := Scope.resolve_eq_ownText coherent owned σ.room refreshes c
  rw [← later_eq] at afresh limited
  refine ⟨afresh, limited, fun ample ends => (limited ends).resolve_left ?_⟩
  rw [later_eq, Scope.resolve, ← scope.resolveBy_all]
  exact Scope.not_cutOff_of_ends ample ends c p

/-- Where tables of one name are the same, every source that fronts a table answers for this table,
whatever was read before and however it ended, unless it runs too deep: it gives the outcome that the
table has of its own, and reports a cycle exactly where the references that are followed from it come
to a table again while this is being computed. -/
theorem ContextId.fronts_answer_for_their_tables (σ : Store) {state : StateId} (tables : List Table)
    {request : Source} (requested : ∀ t, request.content ≠ .table t)
    (single : ∀ t ∈ (Catalog.ofList tables).tables ++ (σ.scope (σ.state state)).tables,
      ∀ u ∈ (Catalog.ofList tables).tables ++ (σ.scope (σ.state state)).tables,
        u.name = t.name → u = t) (backend : Option Backend) :
    ∃ ctx opened, runFrom (ContextId.open state (some (.ofList tables)) request backend) σ =
        (.ok ctx, opened) ∧
      ∀ (before : List Read) (c : Coordinate) (id : SourceId) (source : Source) (t : Table),
        let scope := opened.scope (opened.context ctx).registry
        Assoc.find? scope (.text c.source) = some (id, source) → source.content = .table t →
          let own := (t.outcomeBy (scope.ownText (scope.depth - 1) [t])).bind (Source.pick t c.fragment)
          let later := (runFrom (ctx.read c) (ctx.afterReads before opened)).1
          ((runFrom (scope.resolveBy .nothing scope.depth σ.room c) .start).1 = .error .tooDeep ∨
              later = own) ∧
            ((∀ c, ¬ scope.Endless c) → later = .error .tooDeep ∨ later = own) ∧
            (Scope.Ample scope.depth σ.room → (∀ c, ¬ scope.Endless c) → later = own) ∧
            ∀ name, own = .error (.engine (.cyclicTable name)) ↔ ∃ u, u.name = name ∧
              ∃ next ∈ t.follows (scope.ownText (scope.depth - 1) [t]),
                scope.Revisits (scope.depth - 1) [t] next u := by
  let known := (Catalog.ofList tables).tables ++ (σ.scope (σ.state state)).tables
  let owner : Catalog := ⟨known.map fun u => (u.name, u)⟩
  have fronted : ∀ t ∈ known, owner.table t.name = .ok t := fun t => Scope.table_of_single single
  have listed : ∀ t ∈ (Catalog.ofList tables).tables, owner.table t.name = .ok t :=
    fun t member => fronted t (List.mem_append_left _ member)
  have stored : σ.All owner.Owns (σ.state state) := by
    intro entry member t content
    have inside : (entry.1, entry.2, σ.source entry.2) ∈ σ.scope (σ.state state) :=
      List.mem_map_of_mem member
    exact fronted t (List.mem_append_right _ (Scope.mem_tables inside content))
  have constant : owner.Owns .constant := fun _ impossible => by cases impossible
  have sources : ∀ t ∈ (Catalog.ofList tables).tables, owner.Owns (.ofTable t) := by
    intro t member u same
    cases same
    exact listed t member
  obtain ⟨ctx, opened, ran, room, open'⟩ := exists_open constant sources
    (fun t same => (requested t same).elim) stored backend
  refine ⟨ctx, opened, ran, fun before c id source t => ?_⟩
  intro scope found content own later
  have text_eq : scope.ownText scope.depth [] c = own := Scope.ownText_front found content
  have named : ∀ name t, (Catalog.ofList tables).table name = .ok t → owner.table t.name = .ok t :=
    fun name t known => listed t (Catalog.mem_of_table known)
  obtain ⟨afresh, limited, ended⟩ := open'.read_eq_ownText named before c
  rw [text_eq] at afresh limited ended
  rw [room] at afresh ended
  exact ⟨afresh, limited, ended, fun name => Scope.outcome_eq_cyclic_iff⟩

namespace ContextId

/-- A table whose outcome depends on a stored value. -/
def plain : Table :=
  .make "T" [⟨"1", [⟨.row .condition, "x::n", "1"⟩, ⟨.row .outcome, "outcome", "one"⟩]⟩] none

/-- A table with one rule without conditions. -/
def constantly (name outcome : String) : Table :=
  .make name [⟨"1", [⟨.row .outcome, "outcome", outcome⟩]⟩] none

/-- A table that reads another one. -/
def reading (name : String) : Table :=
  .make name [⟨"1", [⟨.row .condition, "b::outcome", "other"⟩, ⟨.row .outcome, "outcome", "deep"⟩]⟩] none

/-- A stored state of a value and of three tables, of which the last reads the one before. -/
def storing (second third : Table) : Store :=
  { Store.empty with
    sources := #[.stored (.text "x") [(.text "n", .scalar (.int 0))] [], .ofTable plain,
      .ofTable second, .ofTable third]
    states := #[[(.text "x", ⟨0⟩), (.text "a", ⟨1⟩), (.text "b", ⟨2⟩), (.text "c", ⟨3⟩)]] }

/-- The store with a context over that state. -/
def overStoring (second third : Table) : Store :=
  (runFrom (ContextId.open ⟨0⟩ (some (.ofList [plain])) (.requestOf []) none) (storing second third)).2

/-- Tables of different names answer each for itself. -/
theorem table_reads_another :
    (runFrom ((⟨0⟩ : ContextId).read ⟨"c", "outcome"⟩) (afterReads ⟨0⟩
      [.value ⟨"a", "outcome"⟩, .outcome "T"] (overStoring (constantly "U" "other") (reading "V")))).1 =
        .ok "deep" := by
  let σ := storing (constantly "U" "other") (reading "V")
  have requested : ∀ t, (Source.requestOf []).content ≠ .table t :=
    fun _ impossible => by cases impossible
  have known : (Catalog.ofList [plain]).tables ++ (σ.scope (σ.state ⟨0⟩)).tables =
      [plain, plain, constantly "U" "other", reading "V"] := by cbv
  have single : ∀ t ∈ (Catalog.ofList [plain]).tables ++ (σ.scope (σ.state ⟨0⟩)).tables,
      ∀ u ∈ (Catalog.ofList [plain]).tables ++ (σ.scope (σ.state ⟨0⟩)).tables,
        u.name = t.name → u = t := by
    rw [known]
    decide +kernel
  have opens : (runFrom (ContextId.open ⟨0⟩ (some (.ofList [plain])) (.requestOf []) none) σ).1 =
      .ok ⟨0⟩ := by cbv
  obtain ⟨ctx, opened, ran, answers⟩ := fronts_answer_for_their_tables σ [plain] requested single none
  obtain rfl : ContextId.mk 0 = ctx := Except.ok.inj (opens.symm.trans (congrArg Prod.fst ran))
  obtain rfl : overStoring (constantly "U" "other") (reading "V") = opened := congrArg Prod.snd ran
  obtain ⟨_, _, ended, _⟩ := answers [.value ⟨"a", "outcome"⟩, .outcome "T"] ⟨"c", "outcome"⟩ ⟨3⟩
    (.ofTable (reading "V")) (reading "V") (by cbv) rfl
  have kinds : ∀ entry ∈ (overStoring (constantly "U" "other") (reading "V")).scope
      ((overStoring (constantly "U" "other") (reading "V")).context ⟨0⟩).registry,
        entry.2.2.kindName ≠ (Source.ofConditions []).kindName := by decide +kernel
  have unconditional : ((overStoring (constantly "U" "other") (reading "V")).scope
      ((overStoring (constantly "U" "other") (reading "V")).context ⟨0⟩).registry).Unconditional := by
    intro entry member named content
    refine kinds entry member ?_
    rw [Source.kindName, content]
    rfl
  refine (ended (Scope.ample_none _) unconditional.not_endless).trans ?_
  cbv

/-- Of two tables of one name the first that is read answers for both, and a table that reads its
namesake is reported as circular. -/
theorem namesakes_are_mistaken :
    let σ := overStoring (constantly "T" "other") (reading "T")
    let scope := σ.scope (σ.context ⟨0⟩).registry
    (runFrom ((⟨0⟩ : ContextId).read ⟨"b", "outcome"⟩) (afterReads ⟨0⟩ [.value ⟨"a", "outcome"⟩] σ)).1 =
        .ok "else" ∧
      scope.ownText scope.depth [] ⟨"b", "outcome"⟩ = .ok "other" ∧
      (runFrom ((⟨0⟩ : ContextId).read ⟨"c", "outcome"⟩) σ).1 = .error (.engine (.cyclicTable "T")) ∧
      scope.ownText scope.depth [] ⟨"c", "outcome"⟩ = .ok "deep" := by
  refine ⟨?_, ?_, ?_, ?_⟩ <;> cbv

end ContextId

end DecisionTables
