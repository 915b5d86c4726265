import Mathlib
import DecisionTables.Proofs.Isolation
import DecisionTables.Proofs.Retaining
import DecisionTables.Proofs.Selecting

/-!
# What a selection leaves in the trace

Where the subjects of all conditions are found as they are, how each condition is judged does not
depend on what was evaluated before.  Then the events of a selection are known from these judgements
alone: those of the conditions that are evaluated, after them that of their rule, and at the end that
of the table.  A failure cuts this list off, and what was in the trace before stays in front of it.
-/

namespace DecisionTables

/-- All members of a list have a property, or there is a first that has it not. -/
theorem forall_or_first {α : Type} (P : α → Prop) (xs : List α) :
    (∀ x ∈ xs, P x) ∨ ∃ before x after, xs = before ++ x :: after ∧ (∀ y ∈ before, P y) ∧ ¬ P x := by
  induction xs with
  | nil => exact .inl fun _ impossible => absurd impossible List.not_mem_nil
  | cons x rest ih =>
      by_cases first : P x
      · rcases ih with all | ⟨before, y, after, rfl, fine, other⟩
        · exact .inl (List.forall_mem_cons.mpr ⟨first, all⟩)
        · exact .inr ⟨x :: before, y, after, rfl, List.forall_mem_cons.mpr ⟨first, fine⟩, other⟩
      · exact .inr ⟨[], x, rest, rfl, fun _ impossible => absurd impossible List.not_mem_nil, first⟩

/-! ## Events at the end of a trace -/

namespace Progress

/-- The progress with more events behind those that there are. -/
def reportedAll (p : Progress) (events : List Event) : Progress :=
  { p with trace := p.trace ++ events.toArray }

variable {p : Progress}

@[simp] theorem reportedAll_nil : p.reportedAll [] = p := by
  simp [reportedAll]

@[simp] theorem reportedAll_reportedAll (events more : List Event) :
    (p.reportedAll events).reportedAll more = p.reportedAll (events ++ more) := by
  simp [reportedAll]

@[simp] theorem reported_eq_reportedAll (e : Event) : p.reported e = p.reportedAll [e] := by
  simp [reportedAll, reported]

theorem reportedAll_inj {events events' : List Event}
    (same : p.reportedAll events = p.reportedAll events') : events = events' := by
  have traces := congrArg (fun q : Progress => q.trace.toList) same
  simpa [reportedAll] using traces

end Progress

/-! ## Conditions -/

namespace Condition

/-- What is reported of a condition with a result: nothing where it fails. -/
def events (c : Condition) : Except Fault Bool → List Event
  | .ok holds => [.condition c.text holds]
  | .error _ => []

/-- A condition has one result, whatever was evaluated before. -/
def Reports (resolve : Resolver) (c : Condition) (result : Except Fault Bool) : Prop :=
  ∀ p, c.Judged resolve p result (p.reportedAll (c.events result))

/-- A condition is judged to hold. -/
def heldBy (judge : Condition → Except Fault Bool) (c : Condition) : Bool :=
  match judge c with
  | .ok holds => holds
  | .error _ => false

/-- The conditions of a list that are evaluated: up to the first that does not hold, and with it. -/
def evaluated (judge : Condition → Except Fault Bool) : List Condition → List Condition
  | [] => []
  | c :: rest => if c.heldBy judge then c :: evaluated judge rest else [c]

variable {resolve : Resolver} {judge : Condition → Except Fault Bool} {c : Condition}
  {cs : List Condition} {p : Progress}

theorem heldBy_of_eq {holds : Bool} (judged : judge c = .ok holds) : c.heldBy judge = holds := by
  rw [heldBy, judged]

/-- A condition on a text that is found as it is has one result. -/
theorem reports_of_direct {found : Except Fault String}
    (direct : ∀ p, runFrom (resolve c.subject) p = (found, p)) :
    ∃ result, c.Reports resolve result := by
  have ran : ∀ p, runFrom (c.evaluate resolve) p =
      match found with
      | .ok actual => runFrom (do
          let holds ← Evaluation.ofExcept (c.cell.accepts actual)
          Evaluation.report (.condition c.text holds)
          return (holds, actual)) p
      | .error f => (.error f, p) := by
    intro p
    rw [Condition.evaluate, runFrom_bind, direct p]
    cases found <;> rfl
  cases found with
  | error f =>
      refine ⟨.error f, fun p => ?_⟩
      rw [Judged, runFrom_return, ran, events, Progress.reportedAll_nil]
      rfl
  | ok actual =>
      cases accepted : c.cell.accepts actual with
      | error e =>
          refine ⟨.error (.engine e), fun p => ?_⟩
          rw [Judged, runFrom_return, ran, events, Progress.reportedAll_nil]
          simp only [accepted]
          rfl
      | ok holds =>
          refine ⟨.ok holds, fun p => ?_⟩
          rw [Judged, runFrom_return, ran, events, ← Progress.reported_eq_reportedAll]
          simp only [accepted]
          rfl

theorem evaluated_of_held (held : ∀ c ∈ cs, judge c = .ok true) : evaluated judge cs = cs := by
  induction cs with
  | nil => rfl
  | cons c rest ih =>
      obtain ⟨first, others⟩ := List.forall_mem_cons.mp held
      rw [evaluated, if_pos (heldBy_of_eq first), ih others]

theorem evaluated_of_first (held : ∀ c ∈ cs, judge c = .ok true) (other : c.heldBy judge = false)
    (after : List Condition) : evaluated judge (cs ++ c :: after) = cs ++ [c] := by
  induction cs with
  | nil =>
      rw [List.nil_append, evaluated, other]
      rfl
  | cons c rest ih =>
      obtain ⟨first, others⟩ := List.forall_mem_cons.mp held
      rw [List.cons_append, evaluated, if_pos (heldBy_of_eq first), ih others]
      rfl

/-- Conditions that hold in turn report so one after the other. -/
theorem hold_of_held (reports : ∀ c ∈ cs, c.Reports resolve (judge c))
    (held : ∀ c ∈ cs, judge c = .ok true) :
    Hold resolve cs p (p.reportedAll (cs.map fun c => .condition c.text true)) := by
  induction cs generalizing p with
  | nil =>
      refine ⟨[], ?_, fun _ impossible => absurd impossible List.not_mem_nil⟩
      rw [List.map_nil, Progress.reportedAll_nil]
      exact .nil p
  | cons c rest ih =>
      obtain ⟨reported, reports⟩ := List.forall_mem_cons.mp reports
      obtain ⟨first, others⟩ := List.forall_mem_cons.mp held
      obtain ⟨verdicts, later, kinds⟩ := ih (p := p.reportedAll (c.events (.ok true))) reports others
      refine ⟨true :: verdicts, .cons (first ▸ reported p) ?_, List.forall_mem_cons.mpr ⟨rfl, kinds⟩⟩
      rw [Progress.reportedAll_reportedAll] at later
      exact later

end Condition

/-! ## Rules -/

namespace Rule

variable {resolve : Resolver} {judge : Condition → Except Fault Bool} {r : Rule} {p : Progress}

/-- None of the conditions that are evaluated fails. -/
def Settled (judge : Condition → Except Fault Bool) (r : Rule) : Prop :=
  ∀ c ∈ Condition.evaluated judge r.conditions, ∃ holds, judge c = .ok holds

/-- All conditions are judged to hold. -/
def heldBy (judge : Condition → Except Fault Bool) (r : Rule) : Bool :=
  r.conditions.all (Condition.heldBy judge)

/-- The events of a rule without a failure: those of the conditions that are evaluated, and its own. -/
def events (judge : Condition → Except Fault Bool) (r : Rule) : List Event :=
  (Condition.evaluated judge r.conditions).map (fun c => .condition c.text (c.heldBy judge)) ++
    [.rule r.name (r.heldBy judge)]

/-- How the conditions of a rule are judged: all hold, or there is a first that does not hold or fails. -/
theorem judged_cases (judge : Condition → Except Fault Bool) (r : Rule) :
    (∀ c ∈ r.conditions, judge c = .ok true) ∨
    (∃ before c after, r.conditions = before ++ c :: after ∧ (∀ c ∈ before, judge c = .ok true) ∧
      judge c = .ok false) ∨
    ∃ before c after f, r.conditions = before ++ c :: after ∧ (∀ c ∈ before, judge c = .ok true) ∧
      judge c = .error f := by
  rcases forall_or_first (fun c => judge c = .ok true) r.conditions with
    held | ⟨before, c, after, declared, held, other⟩
  · exact .inl held
  · match judged : judge c with
    | .ok true => exact (other judged).elim
    | .ok false => exact .inr (.inl ⟨before, c, after, declared, held, judged⟩)
    | .error f => exact .inr (.inr ⟨before, c, after, f, declared, held, judged⟩)

theorem heldBy_of_held (held : ∀ c ∈ r.conditions, judge c = .ok true) : r.heldBy judge = true :=
  List.all_eq_true.mpr fun c member => Condition.heldBy_of_eq (held c member)

theorem events_of_held (held : ∀ c ∈ r.conditions, judge c = .ok true) :
    r.events judge = r.conditions.map (fun c => .condition c.text true) ++ [.rule r.name true] := by
  rw [events, Condition.evaluated_of_held held, heldBy_of_held held]
  refine congrArg (· ++ _) (List.map_congr_left fun c member => ?_)
  rw [Condition.heldBy_of_eq (held c member)]

section

variable {before after : List Condition} {c : Condition}

theorem heldBy_of_first (declared : r.conditions = before ++ c :: after)
    (broken : judge c = .ok false) : r.heldBy judge = false := by
  rw [heldBy, declared, List.all_append, List.all_cons, Condition.heldBy_of_eq broken, Bool.false_and,
    Bool.and_false]

theorem events_of_first (declared : r.conditions = before ++ c :: after)
    (held : ∀ c ∈ before, judge c = .ok true) (broken : judge c = .ok false) :
    r.events judge = before.map (fun c => .condition c.text true) ++ [.condition c.text false] ++
      [.rule r.name false] := by
  have stops := Condition.heldBy_of_eq broken
  rw [events, declared, Condition.evaluated_of_first held stops, heldBy_of_first declared broken,
    List.map_append, List.map_singleton, stops]
  refine congrArg (· ++ _ ++ _) (List.map_congr_left fun c member => ?_)
  rw [Condition.heldBy_of_eq (held c member)]

end

/-- A rule is settled, or one of its conditions fails where it is evaluated. -/
theorem settled_or_fails (judge : Condition → Except Fault Bool) (r : Rule) :
    r.Settled judge ∨ ∃ before c after f, r.conditions = before ++ c :: after ∧
      (∀ c ∈ before, judge c = .ok true) ∧ judge c = .error f := by
  rcases r.judged_cases judge with held | ⟨before, c, after, declared, held, broken⟩ | fails
  · refine .inl fun c member => ⟨true, held c ?_⟩
    rw [Condition.evaluated_of_held held] at member
    exact member
  · refine .inl fun d member => ?_
    rw [declared, Condition.evaluated_of_first held (Condition.heldBy_of_eq broken)] at member
    rcases List.mem_append.mp member with inside | last
    · exact ⟨true, held d inside⟩
    · exact ⟨false, List.mem_singleton.mp last ▸ broken⟩
  · exact .inr fails

/-- A settled rule is checked as its conditions are judged, and that is what it reports. -/
theorem Settled.checked (reports : ∀ c ∈ r.conditions, c.Reports resolve (judge c))
    (settled : r.Settled judge) :
    r.Checked resolve p (.ok (r.heldBy judge)) (p.reportedAll (r.events judge)) := by
  rcases r.judged_cases judge with
    held | ⟨before, c, after, declared, held, broken⟩ | ⟨before, c, after, f, declared, held, failed⟩
  · rw [heldBy_of_held held, events_of_held held, ← Progress.reportedAll_reportedAll,
      ← Progress.reported_eq_reportedAll]
    exact .holds (Condition.hold_of_held reports held)
  · have inFront := Condition.hold_of_held (p := p)
      (fun d member => reports d (declared ▸ List.mem_append_left _ member)) held
    have breaks := reports c (declared ▸ List.mem_append_right _ List.mem_cons_self)
      (p.reportedAll (before.map fun c => .condition c.text true))
    rw [broken] at breaks
    rw [heldBy_of_first declared broken, events_of_first declared held broken,
      ← Progress.reportedAll_reportedAll, ← Progress.reportedAll_reportedAll,
      ← Progress.reported_eq_reportedAll]
    exact .stops declared inFront breaks
  · -- the condition that fails would be evaluated
    obtain ⟨holds, judged⟩ := settled c (by
      rw [declared, Condition.evaluated_of_first held (by rw [Condition.heldBy, failed])]
      exact List.mem_append_right _ (List.mem_singleton_self c))
    rw [failed] at judged
    cases judged

end Rule

/-! ## Tables -/

/-- What the selection from a table gives and reports, told by how its conditions are judged. -/
inductive Table.Replays (judge : Condition → Except Fault Bool) (t : Table) :
    Except Fault Rule → List Event → Prop
  /-- Nothing fails, and the only satisfied rule or the fallback is selected. -/
  | selected {r : Rule} (settled : ∀ r ∈ t.rules, r.Settled judge)
      (chosen : t.rules.filter (Rule.heldBy judge) = [r] ∨
        t.rules.filter (Rule.heldBy judge) = [] ∧ r = t.otherwise) :
      Replays judge t (.ok r) (t.rules.flatMap (Rule.events judge) ++ [.table t.name r.name])
  /-- Nothing fails, but several rules are satisfied: the table reports nothing. -/
  | ambiguous (settled : ∀ r ∈ t.rules, r.Settled judge)
      (several : 2 ≤ (t.rules.filter (Rule.heldBy judge)).length) :
      Replays judge t (.error (.engine (.ambiguousRules t.name
        ((t.rules.filter (Rule.heldBy judge)).map Rule.name)))) (t.rules.flatMap (Rule.events judge))
  /-- A condition fails: neither it nor its rule reports anything. -/
  | raised {before after : List Rule} {r : Rule} {cs cs' : List Condition} {c : Condition} {f : Fault}
      (declared : t.rules = before ++ r :: after) (settled : ∀ r ∈ before, r.Settled judge)
      (conditions : r.conditions = cs ++ c :: cs') (held : ∀ c ∈ cs, judge c = .ok true)
      (failed : judge c = .error f) :
      Replays judge t (.error f)
        (before.flatMap (Rule.events judge) ++ cs.map fun c => .condition c.text true)

namespace Table

variable {resolve : Resolver} {judge : Condition → Except Fault Bool} {t : Table} {p : Progress}

theorem exists_replays (judge : Condition → Except Fault Bool) (t : Table) :
    ∃ result events, t.Replays judge result events := by
  rcases forall_or_first (Rule.Settled judge) t.rules with
    settled | ⟨before, r, after, declared, settled, fails⟩
  · match chosen : t.rules.filter (Rule.heldBy judge) with
    | [] => exact ⟨_, _, .selected settled (.inr ⟨chosen, rfl⟩)⟩
    | [r] => exact ⟨_, _, .selected settled (.inl chosen)⟩
    | _ :: _ :: _ => exact ⟨_, _, .ambiguous settled (by rw [chosen]; exact Nat.le_add_left 2 _)⟩
  · obtain ⟨cs, c, cs', f, conditions, held, failed⟩ := (r.settled_or_fails judge).resolve_left fails
    exact ⟨_, _, .raised declared settled conditions held failed⟩

/-- Settled rules are checked one after the other, and report one after the other. -/
theorem checked_of_settled {rules : List Rule}
    (reports : ∀ r ∈ rules, ∀ c ∈ r.conditions, c.Reports resolve (judge c))
    (settled : ∀ r ∈ rules, r.Settled judge) :
    InTurn (fun r => r.Checked resolve) rules p (rules.map (Rule.heldBy judge))
      (p.reportedAll (rules.flatMap (Rule.events judge))) := by
  induction rules generalizing p with
  | nil =>
      rw [List.flatMap_nil, Progress.reportedAll_nil]
      exact .nil p
  | cons r rest ih =>
      obtain ⟨own, reports⟩ := List.forall_mem_cons.mp reports
      obtain ⟨first, settled⟩ := List.forall_mem_cons.mp settled
      have later := ih (p := p.reportedAll (r.events judge)) reports settled
      rw [Progress.reportedAll_reportedAll] at later
      exact .cons (first.checked own) later

theorem withVerdict_map (judge : Condition → Except Fault Bool) (rules : List Rule) :
    Rule.withVerdict rules (rules.map (Rule.heldBy judge)) = rules.filter (Rule.heldBy judge) := by
  induction rules with
  | nil => rfl
  | cons r rest ih => rw [List.map_cons, Rule.withVerdict_cons, ih, List.filter_cons]

/-- What is told by judgements is what is selected and reported. -/
theorem Replays.selects {result : Except Fault Rule} {events : List Event}
    (reports : ∀ r ∈ t.rules, ∀ c ∈ r.conditions, c.Reports resolve (judge c))
    (replays : t.Replays judge result events) :
    t.Selected resolve p result (p.reportedAll events) := by
  cases replays with
  | selected settled chosen =>
      have checked := checked_of_settled (p := p) reports settled
      rw [← Progress.reportedAll_reportedAll, ← Progress.reported_eq_reportedAll]
      rcases chosen with one | ⟨none, rfl⟩
      · exact .single checked ((withVerdict_map judge t.rules).trans one)
      · exact .fallback checked ((withVerdict_map judge t.rules).trans none)
  | ambiguous settled several =>
      rw [← withVerdict_map] at several ⊢
      exact .ambiguous (checked_of_settled reports settled) several
  | @raised before after r cs cs' c f declared settled conditions held failed =>
      have own := reports r (declared ▸ List.mem_append_right _ List.mem_cons_self)
      have inFront := checked_of_settled (p := p)
        (fun r member => reports r (declared ▸ List.mem_append_left _ member)) settled
      have fails := own c (conditions ▸ List.mem_append_right _ List.mem_cons_self)
        ((p.reportedAll (before.flatMap (Rule.events judge))).reportedAll
          (cs.map fun c => .condition c.text true))
      rw [failed, Condition.events, Progress.reportedAll_nil] at fails
      rw [← Progress.reportedAll_reportedAll]
      refine .fails declared inFront (.fails conditions (Condition.hold_of_held ?_ held) fails)
      exact fun d member => own d (conditions ▸ List.mem_append_left _ member)

/-- The judgements tell exactly what is selected and reported. -/
theorem runFrom_select_reports
    (reports : ∀ r ∈ t.rules, ∀ c ∈ r.conditions, c.Reports resolve (judge c)) (p : Progress) :
    ∃ result events, runFrom (t.select resolve) p = (result, p.reportedAll events) ∧
      ∀ result' events', t.Replays judge result' events' ↔ result' = result ∧ events' = events := by
  obtain ⟨result, events, replays⟩ := t.exists_replays judge
  have ran := (replays.selects (p := p) reports).runFrom_select
  refine ⟨result, events, ran, fun result' events' => ⟨fun replays' => ?_, ?_⟩⟩
  · have both := ((replays'.selects (p := p) reports).runFrom_select).symm.trans ran
    exact ⟨(Prod.mk.inj both).1, Progress.reportedAll_inj (Prod.mk.inj both).2⟩
  · rintro ⟨rfl, rfl⟩
    exact replays

end Table

/-! ## Contexts -/

/-- The result of a condition that is evaluated by itself in a context. -/
def Store.judged (σ : Store) (ctx : ContextId) (c : Condition) : Except Fault Bool :=
  (runFrom (ctx.evaluate fun resolve => do return (← c.evaluate resolve).1) σ).1

section

variable {σ : Store} {ctx : ContextId}

theorem Store.reports_judged {c : Condition} {found : Except Fault String}
    (direct : (σ.scope (σ.context ctx).registry).direct? c.subject = some found) :
    c.Reports (σ.resolver ctx) (σ.judged ctx c) := by
  have resolved : ∀ p, runFrom (σ.resolver ctx c.subject) p = (found, p) :=
    fun p => Scope.runFrom_resolve_direct direct σ.room p
  obtain ⟨result, reports⟩ := Condition.reports_of_direct resolved
  have same : σ.judged ctx c = result := by
    rw [judged, ctx.runFrom_evaluate]
    exact congrArg Prod.fst (reports (σ.progress ctx))
  exact same ▸ reports

/-- Progress that only reports leaves all of the store but the trace. -/
theorem Store.withProgress_reportedAll (σ : Store) (ctx : ContextId) (events : List Event) :
    σ.withProgress ctx ((σ.progress ctx).reportedAll events) =
      σ.setTrace (σ.context ctx).trace (σ.trace (σ.context ctx).trace ++ events.toArray) := by
  change (σ.setContext ctx (σ.context ctx)).setTrace (σ.context ctx).trace _ = _
  rw [setContext_context]
  rfl

end

namespace Session

/-- Where the subjects of all conditions of a table are found as they are, the trace replays its selection.
The events are put behind those that were there, nothing else in the store changes, and from the results
that the conditions have by themselves there is one way to tell what is selected and reported.  Each rule
reports the conditions that are evaluated, with their results, and then itself; at the end the table reports
what is selected.  If several rules are satisfied, only the event of the table is missing; and if a condition
fails, so are the events from this condition on. -/
theorem selection_is_traced {room : Option Nat} {s : Session} (reached : s.Reached room) {k : Nat}
    {ctx : ContextId} (opened : s.contexts[k]? = some ctx) {t : Table}
    (direct : ∀ r ∈ t.rules, ∀ c ∈ r.conditions, ∃ found,
      (s.store.scope (s.store.context ctx).registry).direct? c.subject = some found) :
    ∃ trace result events σ, runFrom ctx.trace s.store = (.ok trace, s.store) ∧
      runFrom (ctx.evaluate fun resolve => t.select resolve) s.store = (result, σ) ∧
      runFrom ctx.trace σ = (.ok (trace ++ events.toArray), σ) ∧
      σ = s.store.setTrace (s.store.context ctx).trace (trace ++ events.toArray) ∧
      ∀ result' events', t.Replays (s.store.judged ctx) result' events' ↔
        result' = result ∧ events' = events := by
  have reports : ∀ r ∈ t.rules, ∀ c ∈ r.conditions,
      c.Reports (s.store.resolver ctx) (s.store.judged ctx c) := fun r member c inside => by
    obtain ⟨found, direct⟩ := direct r member c inside
    exact Store.reports_judged direct
  obtain ⟨result, events, ran, exactly⟩ := t.runFrom_select_reports reports (s.store.progress ctx)
  obtain ⟨P, twins⟩ := reached.exists_twins
  obtain ⟨_, before, shown⟩ := exists_context twins opened
  have traced : (s.store.context ctx).trace.index < s.store.traces.size :=
    (Array.getElem?_eq_some_iff.mp shown).1
  let σ := s.store.setTrace (s.store.context ctx).trace
    (s.store.trace (s.store.context ctx).trace ++ events.toArray)
  have left : σ.trace (σ.context ctx).trace = s.store.trace (s.store.context ctx).trace ++ events.toArray := by
    change σ.trace (s.store.context ctx).trace = _
    rw [show σ = _ from (Store.withProgress_reportedAll s.store ctx events).symm]
    exact Store.trace_withProgress traced _
  refine ⟨_, result, events, σ, rfl, ?_, ?_, rfl, exactly⟩
  · rw [ctx.runFrom_evaluate, ran]
    exact congrArg (Prod.mk result) (Store.withProgress_reportedAll s.store ctx events)
  · exact congrArg (fun trace => (Except.ok trace, σ)) left

/-- A context on a state with one fragment. -/
def zeroed : Session :=
  (start none).after
    [.build (.ofList []) (.ofList []) (.sources [(.text "x", .stored (.text "x") [(.text "n", .text "0")] [])]),
      .computation 0 (.open .null)]

/-- A table with a rule that is satisfied, one that is not, and one with a condition on a source that is not
there. -/
def lost : Table :=
  .make "t" [⟨"t::low", [⟨.row .condition, "x::n", "0"⟩]⟩,
    ⟨"t::high", [⟨.row .condition, "x::n", "~"⟩, ⟨.row .condition, "x::n", ">1"⟩,
      ⟨.row .condition, "x::n", "2"⟩]⟩,
    ⟨"t::lost", [⟨.row .condition, "x::n", "<1"⟩, ⟨.row .condition, "y::n", "0"⟩,
      ⟨.row .condition, "x::n", "0"⟩]⟩] none

/-- The trace ends in front of the condition that fails, and the last rule is not in it. -/
theorem lost_is_traced : ∃ σ,
    runFrom (ContextId.evaluate ⟨0⟩ fun resolve => lost.select resolve) zeroed.store =
      (.error (.engine (.unknownSource "y")), σ) ∧
    runFrom (ContextId.trace ⟨0⟩) σ = (.ok #[.condition "x::n 0" true, .rule "t::low" true,
      .condition "x::n ~" true, .condition "x::n >1" false, .rule "t::high" false,
      .condition "x::n <1" true], σ) := by
  have reached : zeroed.Reached none := ⟨_, rfl⟩
  have opened : zeroed.contexts[0]? = some ⟨0⟩ := by cbv
  have direct : ∀ r ∈ lost.rules, ∀ c ∈ r.conditions, ∃ found,
      (zeroed.store.scope (zeroed.store.context ⟨0⟩).registry).direct? c.subject = some found := by
    have found : ∀ r ∈ lost.rules, ∀ c ∈ r.conditions,
        ((zeroed.store.scope (zeroed.store.context ⟨0⟩).registry).direct? c.subject).isSome = true := by
      decide +kernel
    exact fun r member c inside => Option.isSome_iff_exists.mp (found r member c inside)
  obtain ⟨trace, result, events, σ, before, ran, after, _, exactly⟩ :=
    selection_is_traced reached opened direct
  have empty : runFrom (ContextId.trace ⟨0⟩) zeroed.store = (.ok #[], zeroed.store) :=
    congrArg (fun t => (Except.ok t, zeroed.store)) (by decide +kernel)
  cases before.symm.trans empty
  let judge := zeroed.store.judged ⟨0⟩
  let first : Condition := .parse "x::n" "<1"
  have replays : lost.Replays judge (.error (.engine (.unknownSource "y")))
      ((lost.rules.take 2).flatMap (Rule.events judge) ++ [first].map fun c => .condition c.text true) := by
    have declared : lost.rules = lost.rules.take 2 ++ lost.rules.drop 2 := rfl
    have settled : ∀ r ∈ lost.rules.take 2, r.Settled judge := by
      unfold Rule.Settled
      decide +kernel
    have held : ∀ c ∈ [first], judge c = .ok true := by decide +kernel
    exact .raised declared settled rfl held (by decide +kernel)
  obtain ⟨rfl, rfl⟩ := (exactly _ _).mp replays
  refine ⟨σ, ran, after.trans (congrArg (fun t => (Except.ok t, σ)) ?_)⟩
  decide +kernel

end Session

end DecisionTables
