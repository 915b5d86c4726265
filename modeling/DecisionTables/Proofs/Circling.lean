import Mathlib
import DecisionTables.Proofs.Afresh
import DecisionTables.Proofs.Concluding
import DecisionTables.Proofs.Reads

/-!
# Circular tables

A table that needs its own outcome is reported.  The report is exact: it comes where the
references that are followed, rule by rule and up to the first condition that does not
hold, lead back to a table that is still being computed, and nowhere else.  The marks of
the tables that are being computed are what lies on the stack of the evaluation.
-/

namespace DecisionTables

/-! ## Leading back -/

namespace Cell

variable {cell : Cell} {text : String} {error : EngineError}

theorem notNumeric_of_number (failed : cell.number text = .error error) :
    ∃ s c, error = .notNumeric s c := by
  unfold number at failed
  split at failed
  · cases failed
  · cases failed
    exact ⟨_, _, rfl⟩

/-- A comparison of numbers fails only where one of them is no number. -/
theorem notNumeric_of_compare {other : String} {compare : Binary64 → Binary64 → Bool}
    (failed : (do
      let left ← cell.number text
      let right ← cell.number other
      return compare left right) = Except.error error) : ∃ s c, error = .notNumeric s c := by
  cases left : cell.number text with
  | error e =>
      rw [left] at failed
      cases failed
      exact notNumeric_of_number left
  | ok x =>
      rw [left] at failed
      cases right : cell.number other with
      | error e =>
          rw [right] at failed
          cases failed
          exact notNumeric_of_number right
      | ok y =>
          rw [right] at failed
          cases failed

theorem notNumeric_of_accepts (failed : cell.accepts text = .error error) :
    ∃ s c, error = .notNumeric s c := by
  have failed : cell.holds text = .error error := by
    unfold accepts at failed
    cases held : cell.holds text with
    | ok b =>
        rw [held] at failed
        cases failed
    | error e =>
        rw [held] at failed
        cases failed
        rfl
  unfold holds at failed
  split at failed
  · cases failed
  · cases failed
  · exact notNumeric_of_compare failed
  · exact notNumeric_of_compare failed

end Cell

theorem Fault.passed_cyclicTable (name : String) : Fault.Passed (.engine (.cyclicTable name)) where
  not_accepts cell text error failed same := by
    obtain ⟨_, _, rfl⟩ := Cell.notNumeric_of_accepts failed
    cases same
  not_ambiguous _ _ impossible := by cases impossible

theorem Source.direct_not_cyclicTable {source : Source} {fragment name : String} :
    (source.direct? fragment).getD (.error .notProvided) ≠ .error (.engine (.cyclicTable name)) := by
  intro circular
  unfold direct? at circular
  split at circular
  · rw [Option.getD_some] at circular
    split at circular <;> cases circular
  · cases circular
  · cases circular
  · split at circular <;> cases circular
  · cases circular

theorem Source.pick_not_cyclicTable {t : Table} {fragment name : String} {o : Outcome} :
    Source.pick t fragment o ≠ .error (.engine (.cyclicTable name)) := by
  intro circular
  unfold pick at circular
  split at circular <;> cases circular

namespace Scope

/-- The references that are followed from a coordinate lead back to a table that is being
computed. -/
inductive LeadsBack (scope : Scope) : List String → Coordinate → String → Prop where
  | again {busy c id source t} (found : Assoc.find? scope (.text c.source) = some (id, source))
      (content : source.content = .table t) (computing : t.name ∈ busy) :
      LeadsBack scope busy c t.name
  | further {busy c id source t next name}
      (found : Assoc.find? scope (.text c.source) = some (id, source))
      (content : source.content = .table t) (fresh : t.name ∉ busy)
      (followed : next ∈ t.follows (scope.text (t.name :: busy)))
      (later : LeadsBack scope (t.name :: busy) next name) : LeadsBack scope busy c name

variable {scope : Scope} {busy : List String} {c : Coordinate} {name : String}

theorem text_of_leadsBack (leads : scope.LeadsBack busy c name) :
    scope.text busy c = .error (.engine (.cyclicTable name)) := by
  induction leads with
  | again found content computing =>
      rw [text_table found content, if_pos (List.contains_iff_mem.mpr computing)]
  | @further busy c id source t next name found content fresh followed later circular =>
      have decided := (t.outcomeBy_eq_error_iff (Fault.passed_cyclicTable name)).mpr
        ⟨next, followed, circular⟩
      rw [text_table found content, if_neg (mt List.contains_iff_mem.mp fresh), decided]
      rfl

theorem leadsBack_of_text (circular : scope.text busy c = .error (.engine (.cyclicTable name))) :
    scope.LeadsBack busy c name := by
  generalize idle : scope.idle busy = n
  induction n using Nat.strong_induction_on generalizing busy c with
  | _ n ih =>
      cases found : Assoc.find? scope (.text c.source) with
      | none =>
          rw [text_missing found] at circular
          cases circular
      | some entry =>
          obtain ⟨id, source⟩ := entry
          by_cases tabled : ∃ t, source.content = .table t
          · obtain ⟨t, content⟩ := tabled
            rw [text_table found content] at circular
            cases computing : busy.contains t.name with
            | true =>
                rw [computing] at circular
                cases circular
                exact .again found content (List.contains_iff_mem.mp computing)
            | false =>
                have fresh : t.name ∉ busy := fun inside => by
                  rw [List.contains_iff_mem.mpr inside] at computing
                  cases computing
                rw [computing, if_neg Bool.false_ne_true] at circular
                cases decided : t.outcomeBy (scope.text (t.name :: busy)) with
                | ok o =>
                    rw [decided] at circular
                    exact (Source.pick_not_cyclicTable circular).elim
                | error f =>
                    rw [decided] at circular
                    cases circular
                    obtain ⟨next, followed, circular⟩ :=
                      (t.outcomeBy_eq_error_iff (Fault.passed_cyclicTable name)).mp decided
                    have fewer := idle_lt (mem_tableNames found content) computing
                    rw [idle] at fewer
                    exact .further found content fresh followed (ih _ fewer circular rfl)
          · rw [text_direct found fun t content => tabled ⟨t, content⟩] at circular
            exact (Source.direct_not_cyclicTable circular).elim

/-- A coordinate is reported as circular exactly where the references that are followed from it
lead back to a table that is being computed. -/
theorem text_eq_cyclic_iff :
    scope.text busy c = .error (.engine (.cyclicTable name)) ↔ scope.LeadsBack busy c name :=
  ⟨leadsBack_of_text, text_of_leadsBack⟩

/-! ## The stack of tables -/

/-- On the way to the outcome of a table a coordinate is resolved below the tables of a stack. -/
inductive ResolvedBelow (scope : Scope) (room : Option Nat) (t : Table) (p : Progress) :
    List Table → Nat → Option Nat → Progress → Coordinate → Prop where
  | table {a} (unknown : p.memo.outcomes.find? t.name = none)
      (free : p.memo.computing.contains t.name = false)
      (asked : a ∈ t.asked (scope.resolve room) (p.entering t.name)) :
      ResolvedBelow scope room t p [t] scope.depth room a.2 a.1
  | further {stack d left left' q c id source u a}
      (resolved : ResolvedBelow scope room t p stack (d + 1) left q c)
      (found : Assoc.find? scope (.text c.source) = some (id, source))
      (content : source.content = .table u) (unknown : q.memo.outcomes.find? u.name = none)
      (free : q.memo.computing.contains u.name = false)
      (enough : roomBelow source left = some left')
      (asked : a ∈ u.asked (scope.resolveWithin d left') (q.entering u.name)) :
      ResolvedBelow scope room t p (u :: stack) d left' a.2 a.1
  | condition {stack d left left' q c id source named condition}
      (resolved : ResolvedBelow scope room t p stack (d + 1) left q c)
      (found : Assoc.find? scope (.text c.source) = some (id, source))
      (content : source.content = .conditions named)
      (registered : named.find? c.fragment = some condition)
      (unknown : q.memo.verdicts.find? (id, c.fragment) = none)
      (enough : roomBelow source left = some left') :
      ResolvedBelow scope room t p stack d left' q condition.subject

theorem computing_of_asked {d : Nat} {room : Option Nat} {t : Table} {p : Progress}
    {a : Coordinate × Progress} (asked : a ∈ t.asked (scope.resolveWithin d room) (p.entering t.name)) :
    a.2.memo.computing = t.name :: p.memo.computing := by
  rw [← resolveBy_all] at asked
  exact t.along_asked along_sameComputing (fun c q => computing_resolveBy room c q) _ a asked

/-- The marks of the tables that are being computed are those of the stack, and no table is on it
twice. -/
theorem ResolvedBelow.stacked {room : Option Nat} {t : Table} {p : Progress} {stack : List Table}
    {d : Nat} {left : Option Nat} {q : Progress} (idle : p.memo.computing = [])
    (resolved : scope.ResolvedBelow room t p stack d left q c) :
    q.memo.computing = stack.map Table.name ∧ (stack.map Table.name).Nodup := by
  induction resolved with
  | table unknown free asked =>
      rw [computing_of_asked asked, idle]
      exact ⟨rfl, List.nodup_singleton _⟩
  | @further stack d left left' q c id source u a _ found content unknown free enough asked ih =>
      obtain ⟨computing, distinct⟩ := ih
      rw [computing_of_asked asked, computing]
      refine ⟨rfl, List.nodup_cons.mpr ⟨fun inside => ?_, distinct⟩⟩
      rw [computing, List.contains_iff_mem.mpr inside] at free
      cases free
  | condition _ _ _ _ _ _ ih => exact ih

/-! ## Outcomes -/

/-- Without named conditions no chain of them is endless. -/
theorem Unconditional.not_endless (unconditional : scope.Unconditional) (c : Coordinate) :
    ¬ scope.Endless c := by
  intro endless
  have goes := endless 1
  rw [chain] at goes
  cases follows : scope.follow c with
  | none => exact goes (by rw [follows]; rfl)
  | some next =>
      obtain ⟨id, source, named, _, found, content, _, _⟩ := condition_of_follow follows
      obtain ⟨_, _, member⟩ := Assoc.exists_mem_of_find? found
      exact unconditional _ member named content

/-- Whatever a context has computed before, the outcome of a table is the one that its texts give,
unless it runs too deep. -/
theorem decideOnce_eq_outcomeBy {catalog : Catalog} (coherent : scope.Coherent)
    (owned : scope.Owned catalog) (unconditional : scope.Unconditional) {t : Table}
    (own : catalog.table t.name = .ok t) (room : Option Nat) {p : Progress}
    (refreshes : Refreshes scope catalog .start p) :
    (runFrom (t.decideOnce (scope.resolve room)) p).1 = .error .tooDeep ∨
      (runFrom (t.decideOnce (scope.resolve room)) p).1 = t.outcomeBy (scope.text [t.name]) := by
  obtain ⟨shallow, limited⟩ := decideOnce_afresh coherent owned unconditional.not_endless own room refreshes
  have meant := (meaning_table (meaning_resolveBy unconditional scope.depth none [t.name]) rfl rfl
    rfl).resolve_left shallow
  rw [← meant]
  exact limited

/-- The outcome of a table is reported as circular exactly where its references lead back. -/
theorem circular_iff {catalog : Catalog} (coherent : scope.Coherent) (owned : scope.Owned catalog)
    (unconditional : scope.Unconditional) {t : Table} (own : catalog.table t.name = .ok t)
    (room : Option Nat) {p : Progress} (refreshes : Refreshes scope catalog .start p) (name : String) :
    (runFrom (t.decideOnce (scope.resolve room)) p).1 = .error (.engine (.cyclicTable name)) ↔
      (runFrom (t.decideOnce (scope.resolve room)) p).1 ≠ .error .tooDeep ∧
        ∃ c ∈ t.follows (scope.text [t.name]), scope.LeadsBack [t.name] c name := by
  have leads : t.outcomeBy (scope.text [t.name]) = .error (.engine (.cyclicTable name)) ↔
      ∃ c ∈ t.follows (scope.text [t.name]), scope.LeadsBack [t.name] c name := by
    rw [Table.outcomeBy_eq_error_iff (Fault.passed_cyclicTable name)]
    exact exists_congr fun c => and_congr_right fun _ => text_eq_cyclic_iff
  rw [← leads]
  rcases decideOnce_eq_outcomeBy coherent owned unconditional own room refreshes with deep | same
  · rw [deep]
    constructor
    · intro impossible
      cases impossible
    · exact fun shallow => (shallow.1 rfl).elim
  · rw [same]
    constructor
    · intro circular
      refine ⟨fun deep => ?_, circular⟩
      rw [circular] at deep
      cases deep
    · exact And.right

end Scope

/-- A source of stored values or the payload of a request. -/
def Source.InMemory (s : Source) : Prop :=
  ∃ kind values defaults, s.content = .memory kind values defaults

namespace Catalog

/-- A source that is in memory, a constant, or a table of the catalog. -/
def Plain (catalog : Catalog) (s : Source) : Prop :=
  catalog.Owns s ∧ ∀ named, s.content ≠ .conditions named

theorem plain_of_inMemory {catalog : Catalog} {s : Source} (inMemory : s.InMemory) :
    catalog.Plain s := by
  obtain ⟨_, _, _, content⟩ := inMemory
  constructor
  · intro t same
    rw [content] at same
    cases same
  · intro named same
    rw [content] at same
    cases same

theorem unknownTable_of_table {catalog : Catalog} {name : String} {error : EngineError}
    (failed : catalog.table name = .error error) : error = .unknownTable name := by
  unfold table at failed
  split at failed <;> cases failed
  rfl

end Catalog

namespace Store

variable {σ : Store} {ctx : ContextId} {scope : Scope} {catalog : Catalog} {room : Option Nat}

theorem Opened.unconditional (opened : σ.Opened catalog.Plain ctx catalog) :
    (σ.scope (σ.context ctx).registry).Unconditional := by
  intro entry member
  obtain ⟨registered, inside, rfl⟩ := List.mem_map.mp member
  exact (opened.all registered inside).2

namespace Reading

variable (reading : σ.Reading ctx scope catalog room) {table : String}

include reading

theorem outcome_missing {error : EngineError} (missing : catalog.table table = .error error) :
    (runFrom (ctx.outcome table) σ).1 = .error (.engine error) := by
  rw [Decisions.runFrom_outcome reading.catalog_eq table, missing]

theorem outcome_table {t : Table} (found : catalog.table table = .ok t) :
    (runFrom (ctx.outcome table) σ).1 =
      (runFrom (t.decideOnce (scope.resolve room)) (σ.progress ctx)).1 := by
  rw [Decisions.runFrom_outcome reading.catalog_eq table, found, ← reading.scope_eq,
    ← reading.room_eq]
  rfl

/-- An outcome is reported as circular exactly where there is such a table and it leads back. -/
theorem outcome_circular_iff (coherent : scope.Coherent) (owned : scope.Owned catalog)
    (named : catalog.Named) (unconditional : scope.Unconditional) (name : String) :
    (runFrom (ctx.outcome table) σ).1 = .error (.engine (.cyclicTable name)) ↔
      (runFrom (ctx.outcome table) σ).1 ≠ .error .tooDeep ∧ ∃ t, catalog.table table = .ok t ∧
        ∃ c ∈ t.follows (scope.text [t.name]), scope.LeadsBack [t.name] c name := by
  cases found : catalog.table table with
  | error error =>
      rw [reading.outcome_missing found]
      obtain rfl := Catalog.unknownTable_of_table found
      constructor
      · exact fun impossible => by cases impossible
      · rintro ⟨_, _, impossible, _⟩
        cases impossible
  | ok t =>
      rw [reading.outcome_table found,
        Scope.circular_iff coherent owned unconditional (named.own found) room reading.refreshes name]
      refine and_congr_right fun _ => ⟨fun leads => ⟨t, rfl, leads⟩, ?_⟩
      rintro ⟨_, same, leads⟩
      cases same
      exact leads

/-- Without named conditions the tables alone ask for no more than an ample room for nesting. -/
theorem outcome_ne_tooDeep (unconditional : scope.Unconditional)
    (ample : Scope.Ample scope.depth room) :
    (runFrom (ctx.outcome table) σ).1 ≠ .error .tooDeep := by
  cases found : catalog.table table with
  | error error =>
      rw [reading.outcome_missing found]
      exact fun impossible => by cases impossible
  | ok t =>
      rw [reading.outcome_table found]
      simp only [Scope.resolve, ← scope.resolveBy_all]
      exact Scope.not_cutOff_table ample unconditional.not_endless t _

theorem computing_outcome (coherent : scope.Coherent) (owned : scope.Owned catalog)
    (named : catalog.Named) (table : String) :
    ((runFrom (ctx.outcome table) σ).2.progress ctx).memo.computing = [] := by
  have later := reading.read coherent owned named (.outcome table)
  have same : (runFrom (ctx.outcome table) σ).2 =
      (runFrom (Session.onContext ctx (Read.outcome table).operation) σ).2 := by
    rw [Read.operation, Session.onContext, runFrom_return]
  rw [same]
  exact later.refreshes.computing.symm

end Reading

end Store

namespace ContextId

variable {σ : Store}

/-- Opening a context over sources in memory succeeds, and it is over nothing else. -/
theorem exists_open_plain {state : StateId} (tables : List Table) {request : Source}
    (requested : request.InMemory) (stored : σ.All Source.InMemory (σ.state state))
    (backend : Option Backend) :
    ∃ ctx opened, runFrom (ContextId.open state (some (.ofList tables)) request backend) σ =
        (.ok ctx, opened) ∧
      opened.room = σ.room ∧ opened.Opened (Catalog.ofList tables).Plain ctx (.ofList tables) := by
  refine exists_open ?constant ?tables (Catalog.plain_of_inMemory requested)
    (fun entry member => Catalog.plain_of_inMemory (stored entry member)) backend
  case constant =>
    constructor
    · exact fun _ impossible => by cases impossible
    · exact fun _ impossible => by cases impossible
  case tables =>
    intro t member
    constructor
    · intro u same
      cases same
      exact Catalog.table_of_mem member
    · exact fun _ impossible => by cases impossible

/-- Over sources in memory, a table is reported as circular exactly where the references that are
followed for its outcome lead from some table back to it while it is being computed; what was read
before makes no difference.  The tables on the stack of the evaluation are those that are marked
as being computed, each of them once, and afterwards none is.  Nothing else keeps the outcome from
being found but a lack of room for nesting. -/
theorem circularity_is_exact (σ : Store) {state : StateId} (tables : List Table) {request : Source}
    (requested : request.InMemory) (stored : σ.All Source.InMemory (σ.state state))
    (backend : Option Backend) :
    ∃ ctx opened, runFrom (ContextId.open state (some (.ofList tables)) request backend) σ =
        (.ok ctx, opened) ∧
      ∀ (before : List Read) (table : String),
        let scope := opened.scope (opened.context ctx).registry
        let current := ctx.afterReads before opened
        let ran := runFrom (ctx.outcome table) current
        (Scope.Ample scope.depth σ.room → ran.1 ≠ .error .tooDeep) ∧
          (∀ name, ran.1 = .error (.engine (.cyclicTable name)) ↔
            ran.1 ≠ .error .tooDeep ∧ ∃ t, (Catalog.ofList tables).table table = .ok t ∧
              ∃ c ∈ t.follows (scope.text [t.name]), scope.LeadsBack [t.name] c name) ∧
          (∀ t, (Catalog.ofList tables).table table = .ok t →
            (ran.1 = .error .tooDeep ∨ ran.1 = t.outcomeBy (scope.text [t.name])) ∧
              ∀ stack d left q c,
                scope.ResolvedBelow σ.room t (current.progress ctx) stack d left q c →
                  q.memo.computing = stack.map Table.name ∧ (stack.map Table.name).Nodup) ∧
          (ran.2.progress ctx).memo.computing = [] := by
  obtain ⟨ctx, opened, ran, room, open'⟩ := exists_open_plain tables requested stored backend
  refine ⟨ctx, opened, ran, fun before table => ?_⟩
  intro scope current ran
  have coherent : scope.Coherent := opened.coherent_scope _
  have named := Catalog.named_ofList tables
  have owned : scope.Owned (.ofList tables) :=
    Store.All.owned fun entry member => (open'.all entry member).1
  have unconditional : scope.Unconditional := open'.unconditional
  have reading : current.Reading ctx scope (.ofList tables) σ.room :=
    (open'.reading room).afterReads coherent owned named before
  refine ⟨fun ample => reading.outcome_ne_tooDeep unconditional ample,
    reading.outcome_circular_iff coherent owned named unconditional,
    fun t found => ⟨?outcome, ?stacked⟩, reading.computing_outcome coherent owned named table⟩
  case outcome =>
    have own := named.own found
    rw [reading.outcome_table found]
    exact Scope.decideOnce_eq_outcomeBy coherent owned unconditional own σ.room reading.refreshes
  case stacked =>
    exact fun stack d left q c => Scope.ResolvedBelow.stacked reading.refreshes.computing.symm

/-- A stored state of one value. -/
def tallied (n : Int) : Store :=
  { Store.empty with
    sources := #[.stored (.text "counter") [(.text "n", .scalar (.int n))] []]
    states := #[[(.text "counter", ⟨0⟩)]] }

/-- Two tables that read each other, the first only where a value is positive. -/
def looping : List Table :=
  [.make "left" [⟨"1", [⟨.row .condition, "counter::n", ">0"⟩,
      ⟨.row .condition, "right::outcome", "~"⟩]⟩] none,
    .make "right" [⟨"1", [⟨.row .condition, "left::outcome", "~"⟩]⟩] none]

/-- The store with a context over these tables and that state. -/
def overTallied (n : Int) : Store :=
  (runFrom (ContextId.open ⟨0⟩ (some (.ofList looping)) (.requestOf []) none) (tallied n)).2

/-- The references lead back where the value is positive, and nowhere where it is not. -/
theorem left_leads_back :
    (∃ t, (Catalog.ofList looping).table "left" = .ok t ∧
      ∃ c ∈ t.follows (((overTallied 1).scope ((overTallied 1).context ⟨0⟩).registry).text [t.name]),
        ((overTallied 1).scope ((overTallied 1).context ⟨0⟩).registry).LeadsBack [t.name] c "left") ∧
    ¬ ∃ t, (Catalog.ofList looping).table "left" = .ok t ∧
      ∃ c ∈ t.follows (((overTallied 0).scope ((overTallied 0).context ⟨0⟩).registry).text [t.name]),
        ((overTallied 0).scope ((overTallied 0).context ⟨0⟩).registry).LeadsBack [t.name] c "left" := by
  have requested : (Source.requestOf []).InMemory := ⟨_, _, _, rfl⟩
  have stored : ∀ n, (tallied n).All Source.InMemory ((tallied n).state ⟨0⟩) := by
    intro n entry member
    obtain rfl := List.mem_singleton.mp member
    exact ⟨_, _, _, rfl⟩
  have opens : ∀ n, (runFrom (ContextId.open ⟨0⟩ (some (.ofList looping)) (.requestOf []) none)
      (tallied n)).1 = .ok ⟨0⟩ := by
    intro n
    cbv
  have positive : fault? (runFrom (ContextId.outcome ⟨0⟩ "left") (overTallied 1)).1 =
      some (.engine (.cyclicTable "left")) := by decide +kernel
  have zero : fault? (runFrom (ContextId.outcome ⟨0⟩ "left") (overTallied 0)).1 = none := by
    decide +kernel
  have ended : ∀ n, (runFrom (ContextId.outcome ⟨0⟩ "left") (overTallied n)).1 ≠ .error .tooDeep ∧
      ((runFrom (ContextId.outcome ⟨0⟩ "left") (overTallied n)).1 =
          .error (.engine (.cyclicTable "left")) ↔
        (runFrom (ContextId.outcome ⟨0⟩ "left") (overTallied n)).1 ≠ .error .tooDeep ∧
          ∃ t, (Catalog.ofList looping).table "left" = .ok t ∧
            ∃ c ∈ t.follows
                (((overTallied n).scope ((overTallied n).context ⟨0⟩).registry).text [t.name]),
              ((overTallied n).scope ((overTallied n).context ⟨0⟩).registry).LeadsBack
                [t.name] c "left") := by
    intro n
    obtain ⟨ctx, opened, ran, exact'⟩ :=
      circularity_is_exact (tallied n) looping requested (stored n) none
    obtain rfl : ContextId.mk 0 = ctx := Except.ok.inj ((opens n).symm.trans (congrArg Prod.fst ran))
    obtain rfl : overTallied n = opened := congrArg Prod.snd ran
    obtain ⟨ends, circular, _⟩ := exact' [] "left"
    exact ⟨ends (Scope.ample_none _), circular "left"⟩
  constructor
  · refine ((ended 1).2.mp ?_).2
    revert positive
    generalize (runFrom (ContextId.outcome ⟨0⟩ "left") (overTallied 1)).1 = result
    intro positive
    cases result with
    | ok o => cases positive
    | error f => rw [Option.some.inj positive]
  · intro leads
    rw [(ended 0).2.mpr ⟨(ended 0).1, leads⟩] at zero
    cases zero

end ContextId

end DecisionTables
