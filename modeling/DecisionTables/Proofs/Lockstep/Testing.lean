import DecisionTables.Proofs.Lockstep.Opening

/-!
# Self-tests in lockstep

A rule is tested on a reset copy.  So the contexts that tests are run from need not
stand for each other: it is enough that they differ in values alone, and that the
tests cannot name them.
-/

namespace DecisionTables

/-- Contexts that tests may be run from on two linked stores. -/
inductive Testable (P : Pairing) (σ τ : Store) (ctx ctx' : ContextId) : Prop where
  | paired (pair : P.contexts ctx.index ctx'.index)
  | alike {c d : Context} (left : σ.contexts[ctx.index]? = some c)
      (right : τ.contexts[ctx'.index]? = some d)
      (free : ¬ ∃ j, P.contexts ctx.index j) (free' : ¬ ∃ i, P.contexts i ctx'.index)
      (contexts : ContextsAlike σ τ c d) (traces : P.traces c.trace.index d.trace.index)

namespace Testable

variable {P Q : Pairing} {σ τ σ' τ' : Store} {ctx ctx' : ContextId}

theorem contextsAlike (testable : Testable P σ τ ctx ctx') (mirrors : P.Mirrors σ τ) :
    ContextsAlike σ τ (σ.context ctx) (τ.context ctx') ∧
      P.traces (σ.context ctx).trace.index (τ.context ctx').trace.index := by
  cases testable with
  | paired pair =>
      have contexts := mirrors.context_rel pair
      exact ⟨mirrors.contextsAlike contexts, contexts.trace⟩
  | alike left right _ _ contexts traces =>
      rw [Store.context, Store.context, Array.getD_eq_getD_getElem?, Array.getD_eq_getD_getElem?,
        left, right]
      exact ⟨contexts, traces⟩

/-- What cannot be named stays as it is, and is not named by anything that is added. -/
theorem advance (testable : Testable P σ τ ctx ctx') (advance : P.Advance Q σ τ σ' τ') :
    Testable Q σ' τ' ctx ctx' := by
  cases testable with
  | paired pair => exact .paired (advance.le.contexts pair)
  | @alike c d left right free free' contexts traces =>
      obtain ⟨c', now, _, same⟩ := advance.left.contexts _ c left
      obtain ⟨d', now', _, same'⟩ := advance.right.contexts _ d right
      rw [same free] at now
      rw [same' free'] at now'
      have inside := (Array.getElem?_eq_some_iff.mp left).1
      have inside' := (Array.getElem?_eq_some_iff.mp right).1
      refine .alike now now' ?_ ?_ (contexts.keep advance.left advance.right)
        (advance.le.traces traces)
      · exact fun later => free (advance.fresh.contexts.left_old _ inside later)
      · exact fun later => free' (advance.fresh.contexts.right_old _ inside' later)

end Testable

section

variable {α β : Type} {P : Pairing} {σ τ : Store} {ctx ctx' : ContextId}

/-! ## Opening contexts to test from -/

/-- Contexts that differ in values are added without standing for each other. -/
theorem pairsAt_addTestable {S : Pairing → α → β → Prop} {f : ContextId → Engine α}
    {g : ContextId → Engine β} (mirrors : P.Mirrors σ τ) {c d : Context}
    (alike : ContextsAlike σ τ c d) (traces : P.traces c.trace.index d.trace.index)
    (rest : ∀ Q σ' τ' ctx ctx', P.Advance Q σ τ σ' τ' → Testable Q σ' τ' ctx ctx' →
      PairsAt Q S σ' τ' (f ctx) (g ctx')) :
    PairsAt P S σ τ (Engine.addContext c >>= f) (Engine.addContext d >>= g) := by
  have left : Keeps Owned.nothing σ { σ with contexts := σ.contexts.push c } :=
    { Keeps.refl σ with contexts := .push (fun _ => trivial) _ _ }
  have right : Keeps Owned.nothing τ { τ with contexts := τ.contexts.push d } :=
    { Keeps.refl τ with contexts := .push (fun _ => trivial) _ _ }
  have advance := Pairing.Advance.of_keeps mirrors left right
  have testable : Testable P { σ with contexts := σ.contexts.push c }
      { τ with contexts := τ.contexts.push d } ⟨σ.contexts.size⟩ ⟨τ.contexts.size⟩ := by
    refine .alike Array.getElem?_push_size Array.getElem?_push_size ?_ ?_ (alike.keep left right)
      traces
    · rintro ⟨j, pair⟩
      exact Nat.lt_irrefl _ (mirrors.contexts.left_lt pair)
    · rintro ⟨i, pair⟩
      exact Nat.lt_irrefl _ (mirrors.contexts.right_lt pair)
  obtain ⟨Q, later, results⟩ := rest P _ _ _ _ advance testable
  rw [PairsAt, runFrom_bind, runFrom_bind]
  exact ⟨Q, advance.trans later, results⟩

/-- Contexts on states that differ at most in values can be tested from alike. -/
theorem pairsAt_openTestable {S : Pairing → α → β → Prop} {f : ContextId → Engine α}
    {g : ContextId → Engine β} (mirrors : P.Mirrors σ τ) {state state' : StateId}
    (alike : StatesAlike σ τ state state') (catalog : Option Catalog) (request : Source)
    (backend : Option Backend)
    (rest : ∀ Q σ' τ' ctx ctx', P.Advance Q σ τ σ' τ' → Testable Q σ' τ' ctx ctx' →
      PairsAt Q S σ' τ' (f ctx) (g ctx')) :
    PairsAt P S σ τ (ContextId.open state catalog request backend >>= f)
      (ContextId.open state' catalog request backend >>= g) := by
  simp only [ContextId.open, ContextId.openTraced, bind_assoc]
  apply pairsAt_bind (pairsAt_addTrace mirrors)
  intro Q₁ σ₁ τ₁ trace trace' advance₁ traces
  apply pairsAt_bind (pairsAt_addAllRegistered advance₁.mirrors .nil _)
  intro Q₂ σ₂ τ₂ constants constants' advance₂ registries₂
  apply pairsAt_bind (pairsAt_addSource advance₂.mirrors request)
  intro Q₃ σ₃ τ₃ i j advance₃ pair
  have registered := (registries₂.mono advance₃.le).insert request.name pair
  apply pairsAt_bind (pairsAt_addAllRegistered advance₃.mirrors registered _)
  intro Q₄ σ₄ τ₄ own own' advance₄ registries₄
  have advance := ((advance₁.trans advance₂).trans advance₃).trans advance₄
  have alike₄ := alike.keep advance.left advance.right
  have mirrors₄ := advance₄.mirrors
  apply pairsAt_get
  refine pairsAt_addTestable mirrors₄ ⟨rfl, rfl, alike₄, ?_, ?_⟩ ?_ ?_
  · exact mirrors₄.sourcesAlike (advance₄.le.sources pair)
  · exact (mirrors₄.registriesAlike registries₄).insertAll alike₄.registries
  · exact advance₄.le.traces (advance₃.le.traces (advance₂.le.traces traces))
  · intro Q σ' τ' ctx ctx' later testable
    exact rest Q σ' τ' ctx ctx' (advance.trans later) testable

/-! ## Tests -/

theorem pairsAt_prepare (mirrors : P.Mirrors σ τ) (pair : P.contexts ctx.index ctx'.index)
    (r : Rule) : PairsAt P Same σ τ (r.prepare ctx) (r.prepare ctx') := by
  apply pairsAt_bind (pairsAt_performRule mirrors pair r)
  intro Q σ' τ' _ _ advance _
  have pair' := advance.le.contexts pair
  cases r.outcome.find? Rule.executeOutcome with
  | none => exact pairsAt_reload advance.mirrors pair'
  | some command =>
      apply pairsAt_bind (pairsAt_perform advance.mirrors pair' command)
      intro Q' σ'' τ'' _ _ advance' _
      exact pairsAt_reload advance'.mirrors (advance'.le.contexts pair')

theorem pairsAt_test (mirrors : P.Mirrors σ τ) (testable : Testable P σ τ ctx ctx') (r : Rule) :
    PairsAt P Same σ τ (r.test ctx) (r.test ctx') := by
  obtain ⟨alike, traces⟩ := testable.contextsAlike mirrors
  apply pairsAt_bind (pairsAt_copyReset mirrors alike traces)
  intro Q σ' τ' copy copy' advance pair
  apply pairsAt_bind (pairsAt_prepare advance.mirrors pair r)
  intro Q' σ'' τ'' _ _ advance' _
  exact pairsAt_uniform advance'.mirrors (advance'.le.contexts pair)
    (Condition.uniform_failures r.conditions)

namespace Report

theorem pairsAt_addRules (mirrors : P.Mirrors σ τ) (testable : Testable P σ τ ctx ctx')
    (report : Report) (rules : List Rule) :
    PairsAt P Same σ τ (addRules ctx report rules) (addRules ctx' report rules) := by
  induction rules generalizing P σ τ report with
  | nil => exact pairsAt_pure mirrors rfl
  | cons r rest ih =>
      have tested : PairsAt P Same σ τ (Except.ok (ε := EngineError) <$> r.test ctx)
          (Except.ok <$> r.test ctx') :=
        pairsAt_map (pairsAt_test mirrors testable r) fun _ _ _ _ same => congrArg Except.ok same
      refine pairsAt_bind (pairsAt_tryCatch tested ?caught) ?later
      case caught =>
        intro Q σ' τ' f advance
        cases f with
        | engine error => exact pairsAt_pure advance.mirrors rfl
        | _ => exact pairsAt_throw advance.mirrors _
      case later =>
        rintro Q σ' τ' result _ advance rfl
        exact ih advance.mirrors (testable.advance advance) _

theorem pairsAt_addTables (mirrors : P.Mirrors σ τ) (testable : Testable P σ τ ctx ctx')
    (report : Report) (tables : List Table) :
    PairsAt P Same σ τ (addTables ctx report tables) (addTables ctx' report tables) := by
  induction tables generalizing P σ τ report with
  | nil => exact pairsAt_pure mirrors rfl
  | cons t rest ih =>
      apply pairsAt_bind (pairsAt_addRules mirrors testable _ t.rules)
      rintro Q σ' τ' report' _ advance rfl
      exact ih advance.mirrors (testable.advance advance) report'

theorem pairsAt_ofCatalog (mirrors : P.Mirrors σ τ) (testable : Testable P σ τ ctx ctx')
    (c : Catalog) : PairsAt P Same σ τ (ofCatalog ctx c) (ofCatalog ctx' c) :=
  pairsAt_addTables mirrors testable .empty c.tables

end Report

end

end DecisionTables
