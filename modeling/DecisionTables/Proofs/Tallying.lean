import Mathlib
import DecisionTables.Proofs.Isolation
import DecisionTables.Proofs.Testing
import DecisionTables.Proofs.Transposing

/-!
# What a report tells

A run of tests tests every rule in one context, one after the other.  A test works on a reset
copy, and the next reset copy is made of the same names, kinds and defaults; so each rule is
told of as if it was tested alone.  The report is what the rules give one by one: those that
pass are listed, and of those with one name that fail, or cannot be tested, the last one
counts.
-/

namespace DecisionTables

/-! ## One context and many tests -/

/-- A context is in two stores with the trace that it reports to, and its sources differ at most in
values. -/
inductive Store.Likens (σ τ : Store) (ctx : ContextId) : Prop where
  | alike {c d : Context} {t u : Trace} (room : σ.room = τ.room)
      (left : σ.contexts[ctx.index]? = some c) (right : τ.contexts[ctx.index]? = some d)
      (shown : σ.traces[c.trace.index]? = some t) (shown' : τ.traces[d.trace.index]? = some u)
      (contexts : ContextsAlike σ τ c d)

/-- What the test of a rule gives in a context. -/
def Rule.testedIn (ctx : ContextId) (σ : Store) (r : Rule) : Except Fault (List Failure) :=
  (runFrom (r.test ctx) σ).1

/-- The store that the tests of some rules lead to, one after the other. -/
def ContextId.afterTests (ctx : ContextId) : List Rule → Store → Store
  | [], σ => σ
  | r :: rest, σ => afterTests ctx rest (runFrom (r.test ctx) σ).2

namespace Store.Likens

variable {σ τ : Store} {ctx : ContextId}

/-- A test gives the same in both stores. -/
theorem testedIn_eq (likens : σ.Likens τ ctx) (r : Rule) : r.testedIn ctx τ = r.testedIn ctx σ := by
  obtain ⟨room, left, right, shown, shown', contexts⟩ := likens
  obtain ⟨Q, _, results⟩ := pairsAt_test (Session.mirrors_tracesOnly room shown shown')
    (Session.testable_tracesOnly left right contexts) r
  exact results.eq.symm

/-- A test changes nothing that another test could tell. -/
theorem test (likens : σ.Likens τ ctx) (r : Rule) : σ.Likens (runFrom (r.test ctx) τ).2 ctx := by
  obtain ⟨room, left, right, shown, shown', contexts⟩ := likens
  obtain ⟨Q, advance, _⟩ := pairsAt_test (Session.mirrors_tracesOnly room shown shown')
    (Session.testable_tracesOnly left right contexts) r
  obtain ⟨_, right', _, same⟩ := advance.right.contexts _ _ right
  obtain ⟨_, shown'', _⟩ := advance.right.traces _ _ shown'
  cases same fun ⟨_, impossible⟩ => impossible
  have still : Keeps Owned.nothing σ σ := .refl σ
  exact .alike (room.trans advance.right.room.symm) left right' shown shown''
    (contexts.keep still advance.right)

theorem afterTests (likens : σ.Likens τ ctx) (rules : List Rule) :
    σ.Likens (ctx.afterTests rules τ) ctx := by
  induction rules generalizing τ with
  | nil => exact likens
  | cons r rest ih => exact ih (likens.test r)

end Store.Likens

/-- A context of a session that was reached can be tested in as often as one likes. -/
theorem Session.Reached.likens {room : Option Nat} {s : Session} (reached : s.Reached room) {k : Nat}
    {ctx : ContextId} (opened : s.contexts[k]? = some ctx) : s.store.Likens s.store ctx := by
  obtain ⟨P, twins⟩ := reached.exists_twins
  obtain ⟨found, t, shown⟩ := exists_context twins opened
  have pair := List.forall₂_same.mp twins.contexts ctx (List.mem_of_getElem? opened)
  exact .alike rfl found found shown shown (twins.mirrors.contextsAlike (twins.mirrors.context_rel pair))

/-! ## Entries -/

namespace Assoc

variable {κ : Type u} {ν : Type v} [BEq κ] [LawfulBEq κ]

/-- A key has a value exactly where one was written under it. -/
theorem contains_ofList_iff {entries : List (κ × ν)} {key : κ} :
    (ofList entries).contains key = true ↔ ∃ value, (key, value) ∈ entries := by
  rw [contains, find?_ofList, Option.isSome_map, List.find?_isSome]
  constructor
  · rintro ⟨⟨k, value⟩, member, same⟩
    obtain rfl : k = key := eq_of_beq same
    exact ⟨value, List.mem_reverse.mp member⟩
  · rintro ⟨value, member⟩
    exact ⟨(key, value), List.mem_reverse.mpr member, BEq.rfl⟩

theorem isEmpty_ofList_iff {entries : List (κ × ν)} :
    (ofList entries).isEmpty = true ↔ entries = [] := by
  rw [List.isEmpty_iff]
  refine ⟨fun blank => ?_, fun none => by rw [none]; rfl⟩
  cases entries with
  | nil => rfl
  | cons entry rest =>
      have found := contains_ofList_iff.mpr ⟨entry.2, List.mem_cons_self (a := entry) (l := rest)⟩
      rw [blank] at found
      cases found

end Assoc

namespace Report

/-- The test of a rule found nothing. -/
def passes : Except Fault (List Failure) → Bool
  | .ok [] => true
  | _ => false

/-- What the test of a rule found, if it found anything. -/
def findings? : Except Fault (List Failure) → Option (List Failure)
  | .ok (failure :: more) => some (failure :: more)
  | _ => none

/-- The message of the error that a test ended with. -/
def message? : Except Fault (List Failure) → Option String
  | .error (.engine error) => some error.message
  | _ => none

/-- A test ends with a list of failures or with an error of the engine. -/
def Recordable (told : Except Fault (List Failure)) : Prop :=
  ∀ f, told = .error f → ∃ error, f = .engine error

theorem Recordable.exists_result {told : Except Fault (List Failure)} (recordable : Recordable told) :
    ∃ result : Except EngineError (List Failure), told = result.mapError .engine := by
  cases told with
  | ok found => exact ⟨.ok found, rfl⟩
  | error f =>
      obtain ⟨error, rfl⟩ := recordable f rfl
      exact ⟨.error error, rfl⟩

theorem Recordable.of_ok {told : Except Fault (List Failure)} {found : List Failure}
    (same : told = .ok found) : Recordable told := by
  intro f failed
  cases same.symm.trans failed

theorem Recordable.of_engine {told : Except Fault (List Failure)} {error : EngineError}
    (same : told = .error (.engine error)) : Recordable told := by
  intro f failed
  cases same.symm.trans failed
  exact ⟨error, rfl⟩

/-- What is told of some rules by their names. -/
def named {α : Type} (told : Rule → Option α) (rules : List Rule) : Assoc String α :=
  rules.filterMap fun r => (told r).map (r.name, ·)

/-- The report on tables whose rules are tested one by one: all tables and all rules count, the rules
that pass are listed in order, and of the rules with one name that fail, or end with an error, the last
one is told of. -/
def of (tables : List Table) (tested : Rule → Except Fault (List Failure)) : Report :=
  let rules := tables.flatMap Table.rules
  { tables := tables.length
    rules := rules.length
    passed := (rules.filter fun r => passes (tested r)).map Rule.name
    failures := .ofList (named (fun r => findings? (tested r)) rules)
    errors := .ofList (named (fun r => message? (tested r)) rules) }

/-- A report to which rules are added that are tested one by one. -/
def tallied (report : Report) (tested : Rule → Except Fault (List Failure)) (rules : List Rule) : Report :=
  { report with
    rules := report.rules + rules.length
    passed := report.passed ++ (rules.filter fun r => passes (tested r)).map Rule.name
    failures := report.failures.insertAll (named (fun r => findings? (tested r)) rules)
    errors := report.errors.insertAll (named (fun r => message? (tested r)) rules) }

section

variable {tested : Rule → Except Fault (List Failure)} {r : Rule} {rest rules more : List Rule}

theorem tallied_nil (report : Report) : report.tallied tested [] = report := by
  rw [tallied, List.filter_nil, List.map_nil, List.append_nil]
  exact congrArg (fun rules => { report with rules }) (Int.add_zero report.rules)

/-- A rule is added with what its test gives. -/
theorem tallied_cons {result : Except EngineError (List Failure)}
    (told : tested r = result.mapError .engine) (report : Report) :
    report.tallied tested (r :: rest) = (report.addRule r.name result).tallied tested rest := by
  have count : report.rules + ((r :: rest).length : Int) = report.rules + 1 + (rest.length : Int) := by
    rw [List.length_cons]
    omega
  have named_cons : ∀ {α : Type} (tell : Rule → Option α),
      named tell (r :: rest) = (tell r).toList.map (r.name, ·) ++ named tell rest := by
    intro α tell
    rw [named, List.filterMap_cons]
    cases tell r <;> rfl
  rw [tallied, count, named_cons, named_cons, List.filter_cons, told]
  rcases result with error | _ | ⟨failure, others⟩
  · rfl
  · have passed : passes (Except.mapError Fault.engine (.ok [])) = true := rfl
    rw [if_pos passed, List.map_cons, List.append_cons]
    rfl
  · rfl

theorem named_append {α : Type} (tell : Rule → Option α) (rules more : List Rule) :
    named tell (rules ++ more) = named tell rules ++ named tell more :=
  List.filterMap_append

theorem tallied_append (report : Report) :
    report.tallied tested (rules ++ more) = (report.tallied tested rules).tallied tested more := by
  have count : report.rules + ((rules ++ more).length : Int) =
      report.rules + (rules.length : Int) + (more.length : Int) := by
    rw [List.length_append]
    omega
  have insertAll_append : ∀ {α : Type} (a : Assoc String α) (entries others : List (String × α)),
      a.insertAll (entries ++ others) = (a.insertAll entries).insertAll others :=
    fun _ _ _ => List.foldl_append
  rw [tallied, count, named_append, named_append, insertAll_append, insertAll_append, List.filter_append,
    List.map_append, ← List.append_assoc]
  rfl

end

/-! ## The run -/

section

variable {σ τ : Store} {ctx : ContextId} {r : Rule} {rest : List Rule}

/-- A rule is tested and recorded, and then the others are. -/
theorem runFrom_addRules_cons {result : Except EngineError (List Failure)}
    (told : r.testedIn ctx σ = result.mapError .engine) (report : Report) :
    runFrom (addRules ctx report (r :: rest)) σ =
      runFrom (addRules ctx (report.addRule r.name result) rest) (runFrom (r.test ctx) σ).2 := by
  rw [Rule.testedIn] at told
  rw [addRules, runFrom_bind, runFrom_tryCatch, map_eq_pure_bind, runFrom_return]
  revert told
  rcases runFrom (r.test ctx) σ with ⟨gave, σ'⟩
  rintro rfl
  cases result <;> rfl

/-- Rules are recorded as if each was tested alone. -/
theorem runFrom_addRules (likens : σ.Likens τ ctx) {rules : List Rule}
    (recordable : ∀ r ∈ rules, Recordable (r.testedIn ctx σ)) (report : Report) :
    runFrom (addRules ctx report rules) τ =
      (.ok (report.tallied (Rule.testedIn ctx σ) rules), ctx.afterTests rules τ) := by
  induction rules generalizing τ report with
  | nil =>
      rw [tallied_nil]
      rfl
  | cons r rest ih =>
      obtain ⟨first, recordable⟩ := List.forall_mem_cons.mp recordable
      obtain ⟨result, told⟩ := first.exists_result
      rw [runFrom_addRules_cons ((likens.testedIn_eq r).trans told), ih (likens.test r) recordable,
        tallied_cons told]
      rfl

theorem afterTests_append (ctx : ContextId) (rules more : List Rule) (σ : Store) :
    ctx.afterTests (rules ++ more) σ = ctx.afterTests more (ctx.afterTests rules σ) := by
  induction rules generalizing σ with
  | nil => rfl
  | cons r rest ih => exact ih _

/-- Tables are recorded as if each of their rules was tested alone. -/
theorem runFrom_addTables (likens : σ.Likens τ ctx) {tables : List Table}
    (recordable : ∀ r ∈ tables.flatMap Table.rules, Recordable (r.testedIn ctx σ)) (report : Report) :
    runFrom (addTables ctx report tables) τ =
      (.ok { report.tallied (Rule.testedIn ctx σ) (tables.flatMap Table.rules) with
          tables := report.tables + tables.length },
        ctx.afterTests (tables.flatMap Table.rules) τ) := by
  induction tables generalizing τ report with
  | nil =>
      rw [List.flatMap_nil, tallied_nil, List.length_nil, Nat.cast_zero, Int.add_zero]
      rfl
  | cons t rest ih =>
      rw [List.flatMap_cons, List.forall_mem_append] at recordable
      have count : report.tables + ((t :: rest).length : Int) = report.tables + 1 + (rest.length : Int) := by
        rw [List.length_cons]
        omega
      rw [addTables, runFrom_bind_ok (runFrom_addRules likens recordable.1 _),
        ih (likens.afterTests t.rules) recordable.2, List.flatMap_cons, tallied_append, afterTests_append, count]
      rfl

end

/-! ## What is told of a name -/

section

variable {tested : Rule → Except Fault (List Failure)} {tables tables' : List Table} {rules rules' : List Rule}

theorem tallied_empty (tables : List Table) (tested : Rule → Except Fault (List Failure)) :
    { empty.tallied tested (tables.flatMap Table.rules) with tables := empty.tables + tables.length } =
      of tables tested := by
  simp only [tallied, empty, Int.zero_add, List.nil_append]
  rfl

/-- Of the rules with one name of which anything is told, the last one is told of. -/
theorem find?_named {α : Type} (tell : Rule → Option α) (rules : List Rule) (name : String) :
    (Assoc.ofList (named tell rules)).find? name =
      ((rules.filter fun r => r.name = name).filterMap tell).getLast? := by
  have entries : ((named tell rules).filter fun entry => entry.1 == name).map Prod.snd =
      (rules.filter fun r => r.name = name).filterMap tell := by
    rw [named, List.filter_filterMap, List.map_filterMap, List.filterMap_filter]
    refine List.filterMap_congr fun r _ => ?_
    by_cases same : r.name = name
    · cases tell r <;> simp [same]
    · cases tell r <;> simp [same]
  rw [Assoc.find?_ofList, ← entries, List.getLast?_map, List.getLast?_eq_head?_reverse,
    ← List.filter_reverse, List.head?_filter]

/-- Where no two rules have one name, every rule has an entry of its own. -/
theorem distinct_named {α : Type} (tell : Rule → Option α) (apart : (rules.map Rule.name).Nodup) :
    (named tell rules).Distinct := by
  refine List.Pairwise.filterMap _ (fun r r' differ => ?_) (List.pairwise_map.mp apart)
  intro entry told entry' told'
  obtain ⟨_, _, rfl⟩ := Option.map_eq_some_iff.mp told
  obtain ⟨_, _, rfl⟩ := Option.map_eq_some_iff.mp told'
  exact beq_eq_false_iff_ne.mpr differ

theorem named_eq_nil_iff {α : Type} {tell : Rule → Option α} :
    named tell rules = [] ↔ ∀ r ∈ rules, tell r = none := by
  simp only [named, List.filterMap_eq_nil_iff, Option.map_eq_none_iff]

/-- A report is passed exactly where every rule passes. -/
theorem isPassed_of_iff (recordable : ∀ r ∈ tables.flatMap Table.rules, Recordable (tested r)) :
    (of tables tested).isPassed = true ↔ ∀ r ∈ tables.flatMap Table.rules, tested r = .ok [] := by
  rw [isPassed, Bool.and_eq_true, of, Assoc.isEmpty_ofList_iff, Assoc.isEmpty_ofList_iff, named_eq_nil_iff,
    named_eq_nil_iff]
  constructor
  · rintro ⟨sound, ended⟩ r member
    obtain ⟨result, told⟩ := (recordable r member).exists_result
    have sound := sound r member
    have ended := ended r member
    rw [told] at sound ended ⊢
    rcases result with error | _ | ⟨failure, more⟩
    · cases ended
    · rfl
    · cases sound
  · intro pass
    exact ⟨fun r member => by rw [pass r member]; rfl, fun r member => by rw [pass r member]; rfl⟩

/-! ## Another order -/

/-- A report with the same counts and the same entries in another order. -/
structure Reordered (report report' : Report) : Prop where
  tables : report'.tables = report.tables
  rules : report'.rules = report.rules
  passed : report.passed.Perm report'.passed
  failures : report.failures.Perm report'.failures
  errors : report.errors.Perm report'.errors

theorem perm_ofList_named {α : Type} (tell : Rule → Option α) (apart : (rules.map Rule.name).Nodup)
    (perm : rules.Perm rules') :
    (Assoc.ofList (named tell rules)).Perm (Assoc.ofList (named tell rules')) := by
  have apart' := (perm.map Rule.name).nodup_iff.mp apart
  rw [(distinct_named tell apart).ofList_eq, (distinct_named tell apart').ofList_eq]
  exact perm.filterMap _

theorem of_reordered (count : tables.length = tables'.length)
    (perm : (tables.flatMap Table.rules).Perm (tables'.flatMap Table.rules))
    (apart : ((tables.flatMap Table.rules).map Rule.name).Nodup) :
    Reordered (of tables tested) (of tables' tested) where
  tables := congrArg Nat.cast count.symm
  rules := congrArg Nat.cast perm.length_eq.symm
  passed := (perm.filter _).map _
  failures := perm_ofList_named _ apart perm
  errors := perm_ofList_named _ apart perm

end

end Report

/-- Tables in another order, each with its rules in another order. -/
def Table.Shuffled (tables tables' : List Table) : Prop :=
  ∃ between, tables.Perm between ∧ List.Forall₂ (fun t u => t.rules.Perm u.rules) between tables'

theorem Table.Shuffled.perm_rules {tables tables' : List Table} (shuffled : Table.Shuffled tables tables') :
    (tables.flatMap Table.rules).Perm (tables'.flatMap Table.rules) := by
  obtain ⟨between, perm, alike⟩ := shuffled
  refine (perm.flatMap_right _).trans ?_
  clear perm
  induction alike with
  | nil => exact .refl _
  | cons rules _ ih => exact rules.append ih

theorem Table.Shuffled.length_eq {tables tables' : List Table} (shuffled : Table.Shuffled tables tables') :
    tables.length = tables'.length := by
  obtain ⟨between, perm, alike⟩ := shuffled
  exact perm.length_eq.trans alike.length_eq

namespace Session

/-- What the test of a rule gives in a context does not depend on the rules that were tested before.  So if
no test ends with another fault than an error of the engine, testing tables gives a report, and this tells
of every rule what its test gives alone: all tables and all rules count, the rules that find nothing are
listed in order, and under every name there is what the last rule of the name found, and the message of
the last one that ended with an error.  All is passed exactly where every rule finds nothing; and if no two
rules have one name, the order of the tables and of their rules tells in the order of the entries alone. -/
theorem reports_are_pointwise {room : Option Nat} {s : Session} (reached : s.Reached room) {k : Nat}
    {ctx : ContextId} (opened : s.contexts[k]? = some ctx) :
    (∀ (before : List Rule) (r : Rule), r.testedIn ctx (ctx.afterTests before s.store) = r.testedIn ctx s.store) ∧
    ∀ tables : List Table,
      let rules := tables.flatMap Table.rules
      let report := Report.of tables (Rule.testedIn ctx s.store)
      (∀ r ∈ rules, Report.Recordable (r.testedIn ctx s.store)) →
      (runFrom (Report.addTables ctx .empty tables) s.store).1 = .ok report ∧
      (∀ name, report.failures.find? name = ((rules.filter fun r => r.name = name).filterMap
        fun r => Report.findings? (r.testedIn ctx s.store)).getLast?) ∧
      (∀ name, report.errors.find? name = ((rules.filter fun r => r.name = name).filterMap
        fun r => Report.message? (r.testedIn ctx s.store)).getLast?) ∧
      (report.isPassed = true ↔ ∀ r ∈ rules, r.testedIn ctx s.store = .ok []) ∧
      ((rules.map Rule.name).Nodup → ∀ tables', Table.Shuffled tables tables' →
        ∃ report', (runFrom (Report.addTables ctx .empty tables') s.store).1 = .ok report' ∧
          report.Reordered report') := by
  have likens := reached.likens opened
  have run : ∀ tables : List Table,
      (∀ r ∈ tables.flatMap Table.rules, Report.Recordable (r.testedIn ctx s.store)) →
      (runFrom (Report.addTables ctx .empty tables) s.store).1 =
        .ok (Report.of tables (Rule.testedIn ctx s.store)) := by
    intro tables recordable
    rw [Report.runFrom_addTables likens recordable, Report.tallied_empty]
  refine ⟨fun before r => (likens.afterTests before).testedIn_eq r, fun tables => ?_⟩
  intro rules report recordable
  refine ⟨run tables recordable, Report.find?_named _ rules, Report.find?_named _ rules,
    Report.isPassed_of_iff recordable, fun apart tables' shuffled => ?_⟩
  have perm := shuffled.perm_rules
  exact ⟨_, run tables' fun r member => recordable r (perm.mem_iff.mpr member),
    Report.of_reordered shuffled.length_eq perm apart⟩

/-- A rule that asks whether the fragment is one where it is zero. -/
def unmet : Rule := ⟨"u", [⟨.row .condition, "x::n", "1"⟩]⟩

/-- Tables with a rule that passes, one whose command finds no rule, and one that does not hold. -/
def inspected : List Table :=
  [.make "first" [going] none, .make "second" [{ asking with name := "s" }, unmet] none]

theorem inspected_backwards : ∃ report,
    (runFrom (Report.addTables ⟨0⟩ .empty inspected.reverse) watching.store).1 = .ok report ∧
    report.passed.Perm ["r"] ∧ report.failures.Perm [("u", [⟨"x::n 1", "0"⟩])] ∧
    report.errors.Perm [("s", "No rule of command 'go' is satisfied")] := by
  have reached : watching.Reached none := ⟨_, rfl⟩
  have opened : watching.contexts[0]? = some ⟨0⟩ := by cbv
  have recordable : ∀ r ∈ inspected.flatMap Table.rules,
      Report.Recordable (r.testedIn ⟨0⟩ watching.store) := by
    have passes : going.testedIn ⟨0⟩ watching.store = .ok [] := by cbv
    have ends : Rule.testedIn ⟨0⟩ watching.store { asking with name := "s" } =
        .error (.engine (.noRuleSatisfied "go")) := by cbv
    have fails : unmet.testedIn ⟨0⟩ watching.store = .ok [⟨"x::n 1", "0"⟩] := by cbv
    exact List.forall_mem_cons.mpr ⟨.of_ok passes, List.forall_mem_cons.mpr
      ⟨.of_engine ends, List.forall_mem_singleton.mpr (.of_ok fails)⟩⟩
  have told : Report.of inspected (Rule.testedIn ⟨0⟩ watching.store) =
      ⟨2, 3, ["r"], [("u", [⟨"x::n 1", "0"⟩])], [("s", "No rule of command 'go' is satisfied")]⟩ := by
    decide +kernel
  have backwards : Table.Shuffled inspected inspected.reverse :=
    ⟨inspected.reverse, (List.reverse_perm _).symm, List.forall₂_same.mpr fun _ _ => .refl _⟩
  obtain ⟨_, _, _, _, reorder⟩ := (reports_are_pointwise reached opened).2 inspected recordable
  obtain ⟨report, ran, reordered⟩ := reorder (by decide) inspected.reverse backwards
  rw [told] at reordered
  exact ⟨report, ran, reordered.passed.symm, reordered.failures.symm, reordered.errors.symm⟩

end Session

end DecisionTables
