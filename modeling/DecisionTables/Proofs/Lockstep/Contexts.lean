import DecisionTables.Proofs.Lockstep

/-!
# Contexts in lockstep

Everything that a context does on its own sources, in lockstep with a context that
stands for it: reads, evaluations, assignments and commands.
-/

namespace DecisionTables

/-- Writing changes nothing of a source but its values. -/
theorem Source.alike_of_write {s t : Source} {fragment : String} {value : Value}
    (written : s.write fragment value = .ok t) : s.Alike t := by
  obtain ⟨name, content⟩ := s
  cases content with
  | memory kind values defaults =>
      cases written
      rfl
  | _ => cases written

section

variable {α β : Type} {P : Pairing} {σ τ : Store} {ctx ctx' : ContextId}

/-! ## Replacing objects -/

theorem pairsAt_modify {f g : Store → Store} (advance : P.Advance P σ τ (f σ) (g τ)) :
    PairsAt P Same σ τ (modify f : Engine PUnit) (modify g) :=
  ⟨P, advance, .value rfl⟩

namespace Pairing.Mirrors

theorem setSource (mirrors : P.Mirrors σ τ) {i j : SourceId} (pair : P.sources i.index j.index)
    {s : Source} (alike : (σ.source i).Alike s) :
    P.Advance P σ τ (σ.setSource i s) (τ.setSource j s) := by
  have left : Keeps P.left σ (σ.setSource i s) := by
    refine { Keeps.refl σ with sources := .set Source.Alike.refl ⟨_, pair⟩ ?_ }
    intro t found
    rwa [Store.source, Array.getD_eq_getD_getElem?, found] at alike
  refine ⟨.refl P, .refl P σ τ, ?_, left, ?_⟩
  · exact ⟨mirrors.room, mirrors.sources.set pair rfl, mirrors.states, mirrors.contexts,
      mirrors.traces, mirrors.keepTidy left⟩
  · refine { Keeps.refl τ with sources := .set Source.Alike.refl ⟨_, pair⟩ ?_ }
    intro t found
    rwa [mirrors.source_eq pair, Store.source, Array.getD_eq_getD_getElem?, found] at alike

theorem setContext (mirrors : P.Mirrors σ τ) {i j : ContextId}
    (pair : P.contexts i.index j.index) {c d : Context} (contexts : P.Contexts c d) :
    P.Advance P σ τ (σ.setContext i c) (τ.setContext j d) := by
  have left : Keeps P.left σ (σ.setContext i c) :=
    { Keeps.refl σ with contexts := .set (fun _ => trivial) ⟨_, pair⟩ fun _ _ => trivial }
  refine ⟨.refl P, .refl P σ τ, ?_, left, ?_⟩
  · exact ⟨mirrors.room, mirrors.sources, mirrors.states, mirrors.contexts.set pair contexts,
      mirrors.traces, mirrors.keepTidy left⟩
  · exact { Keeps.refl τ with contexts := .set (fun _ => trivial) ⟨_, pair⟩ fun _ _ => trivial }

theorem setTrace (mirrors : P.Mirrors σ τ) {i j : TraceId} (pair : P.traces i.index j.index)
    {t u : Trace} (shown : P.shown t u) :
    P.Advance P σ τ (σ.setTrace i t) (τ.setTrace j u) := by
  have left : Keeps P.left σ (σ.setTrace i t) :=
    { Keeps.refl σ with traces := .set (fun _ => trivial) ⟨_, pair⟩ fun _ _ => trivial }
  refine ⟨.refl P, .refl P σ τ, ?_, left, ?_⟩
  · exact ⟨mirrors.room, mirrors.sources, mirrors.states, mirrors.contexts,
      mirrors.traces.set pair shown, mirrors.keepTidy left⟩
  · exact { Keeps.refl τ with traces := .set (fun _ => trivial) ⟨_, pair⟩ fun _ _ => trivial }

theorem scopes (mirrors : P.Mirrors σ τ) {r s : Registry} (registries : P.Registries r s) :
    P.Scopes (σ.scope r) (τ.scope s) := by
  induction registries with
  | nil => exact .nil
  | cons head _ ih => exact .cons ⟨head.1, head.2, mirrors.source_eq head.2⟩ ih

theorem find_rel (mirrors : P.Mirrors σ τ) (pair : P.contexts ctx.index ctx'.index)
    (name : Scalar) :
    Option.Rel (fun i j => P.sources i.index j.index) ((σ.context ctx).registry.find? name)
      ((τ.context ctx').registry.find? name) :=
  Assoc.find?_rel (mirrors.context_rel pair).registry fun _ _ same => by rw [same]

end Pairing.Mirrors

/-! ## Evaluations -/

theorem pairsAt_evaluate (mirrors : P.Mirrors σ τ) (pair : P.contexts ctx.index ctx'.index)
    {step step' : Resolver → Evaluation α}
    (along : ∀ r s, (∀ c, P.tracking.Tracks (r c) (s c)) →
      P.tracking.Tracks (step r) (step' s)) :
    PairsAt P Same σ τ (ctx.evaluate step) (ctx'.evaluate step') := by
  have contexts := mirrors.context_rel pair
  have resolvers : ∀ c, P.tracking.Tracks (σ.resolver ctx c) (τ.resolver ctx' c) := by
    intro c
    rw [Store.resolver, Store.resolver, ← mirrors.room]
    exact Pairing.tracks_resolve mirrors.sources.single (mirrors.scopes contexts.registry) _ c
  have ends := along _ _ resolvers (σ.progress ctx) (τ.progress ctx')
    ⟨contexts.memo, mirrors.trace_rel contexts.trace⟩
  have after : ∀ p q : Progress, P.tracking.rel p q →
      P.Advance P σ τ (σ.withProgress ctx p) (τ.withProgress ctx' q) := by
    rintro p q ⟨memos, shown⟩
    have remembered := mirrors.setContext pair (contexts.withMemo memos)
    exact remembered.trans (remembered.mirrors.setTrace contexts.trace shown)
  rw [PairsAt, ContextId.runFrom_evaluate, ContextId.runFrom_evaluate]
  revert ends
  generalize runFrom (step (σ.resolver ctx)) (σ.progress ctx) = left
  generalize runFrom (step' (τ.resolver ctx')) (τ.progress ctx') = right
  intro ends
  cases ends with
  | gap gap => exact gap.elim
  | slip slip => exact slip.elim
  | @value p q a related => exact ⟨P, after p q related, .value rfl⟩
  | @fault p q f related => exact ⟨P, after p q related, .fault f⟩

theorem pairsAt_uniform (mirrors : P.Mirrors σ τ) (pair : P.contexts ctx.index ctx'.index)
    {step : Resolver → Evaluation α} (uniform : Uniform step) :
    PairsAt P Same σ τ (ctx.evaluate step) (ctx'.evaluate step) :=
  pairsAt_evaluate mirrors pair fun _ _ along => uniform.tracks along

theorem pairsAt_read (mirrors : P.Mirrors σ τ) (pair : P.contexts ctx.index ctx'.index)
    (c : Coordinate) : PairsAt P Same σ τ (ctx.read c) (ctx'.read c) :=
  pairsAt_uniform mirrors pair (uniform_resolve c)

theorem pairsAt_readFrom (mirrors : P.Mirrors σ τ) (pair : P.contexts ctx.index ctx'.index)
    {i j : SourceId} (sources : P.sources i.index j.index) (source : Source) (fragment : String) :
    PairsAt P Same σ τ (ctx.readFrom i source fragment) (ctx'.readFrom j source fragment) := by
  apply pairsAt_get
  rw [← mirrors.room]
  have registries := (mirrors.context_rel pair).registry
  exact pairsAt_evaluate mirrors pair fun _ _ _ =>
    Pairing.tracks_readFrom mirrors.sources.single (mirrors.scopes registries) σ.room sources source fragment

theorem pairsAt_report (mirrors : P.Mirrors σ τ) (pair : P.contexts ctx.index ctx'.index)
    (e : Event) : PairsAt P Same σ τ (ctx.report e) (ctx'.report e) :=
  pairsAt_evaluate mirrors pair fun _ _ _ => Tracking.tracks_report e

/-! ## Sources of a context -/

theorem pairsAt_find (mirrors : P.Mirrors σ τ) (pair : P.contexts ctx.index ctx'.index)
    (name : String) :
    PairsAt P (fun _ i j => P.sources i.index j.index) σ τ (ctx.find name) (ctx'.find name) := by
  apply pairsAt_get
  have found := mirrors.find_rel pair (.text name)
  revert found
  generalize (σ.context ctx).registry.find? (.text name) = left
  generalize (τ.context ctx').registry.find? (.text name) = right
  intro found
  cases found with
  | none => exact pairsAt_throw mirrors _
  | some related => exact pairsAt_pure mirrors related

theorem pairsAt_findSource (mirrors : P.Mirrors σ τ) (pair : P.contexts ctx.index ctx'.index)
    (name : String) : PairsAt P Same σ τ (ctx.findSource name) (ctx'.findSource name) := by
  apply pairsAt_get
  apply pairsAt_bind (pairsAt_find mirrors pair name)
  intro Q σ' τ' i j advance related
  exact pairsAt_pure advance.mirrors (mirrors.source_eq related)

/-- Writing to a source of the store, by identities that stand for each other. -/
theorem pairsAt_writeSource (mirrors : P.Mirrors σ τ) {i j : SourceId}
    (pair : P.sources i.index j.index) (fragment : String) (value : Value) :
    PairsAt P Same σ τ
      (do
        let source ← Engine.ofEngine (((← get).source i).write fragment value)
        modify fun σ => σ.setSource i source : Engine PUnit)
      (do
        let source ← Engine.ofEngine (((← get).source j).write fragment value)
        modify fun σ => σ.setSource j source) := by
  apply pairsAt_get
  rw [← mirrors.source_eq pair]
  cases written : (σ.source i).write fragment value with
  | error error => exact pairsAt_throw mirrors _
  | ok source =>
      exact pairsAt_modify (mirrors.setSource pair (Source.alike_of_write written))

theorem pairsAt_write (mirrors : P.Mirrors σ τ) (pair : P.contexts ctx.index ctx'.index)
    (c : Coordinate) (value : Value) :
    PairsAt P Same σ τ (ctx.write c value) (ctx'.write c value) := by
  apply pairsAt_bind (pairsAt_find mirrors pair c.source)
  intro Q σ' τ' i j advance related
  exact pairsAt_writeSource advance.mirrors (advance.le.sources related) c.fragment value

theorem pairsAt_reload (mirrors : P.Mirrors σ τ) (pair : P.contexts ctx.index ctx'.index) :
    PairsAt P Same σ τ ctx.reload ctx'.reload := by
  have contexts := mirrors.context_rel pair
  apply pairsAt_modify
  exact mirrors.setContext pair (contexts.withMemo ⟨rfl, .nil, contexts.memo.computing⟩)

theorem pairsAt_catalog (mirrors : P.Mirrors σ τ) (pair : P.contexts ctx.index ctx'.index) :
    PairsAt P Same σ τ ctx.catalog ctx'.catalog := by
  apply pairsAt_get
  rw [(mirrors.context_rel pair).catalog]
  cases (τ.context ctx').catalog with
  | none => exact pairsAt_throw mirrors _
  | some c => exact pairsAt_pure mirrors rfl

theorem pairsAt_table (mirrors : P.Mirrors σ τ) (pair : P.contexts ctx.index ctx'.index)
    (name : String) : PairsAt P Same σ τ (ctx.table name) (ctx'.table name) := by
  apply pairsAt_bind (pairsAt_catalog mirrors pair)
  rintro Q σ' τ' c _ advance rfl
  exact pairsAt_ofEngine advance.mirrors _

theorem pairsAt_outcome (mirrors : P.Mirrors σ τ) (pair : P.contexts ctx.index ctx'.index)
    (name : String) : PairsAt P Same σ τ (ctx.outcome name) (ctx'.outcome name) := by
  apply pairsAt_bind (pairsAt_table mirrors pair name)
  rintro Q σ' τ' t _ advance rfl
  exact pairsAt_evaluate advance.mirrors (advance.le.contexts pair)
    fun r s along => Tracking.tracks_decideOnce (Pairing.remembers _) along t

/-! ## Assignments and commands -/

theorem pairsAt_assign (mirrors : P.Mirrors σ τ) (pair : P.contexts ctx.index ctx'.index)
    (a : Assignment) : PairsAt P Same σ τ (ctx.assign a) (ctx'.assign a) := by
  apply pairsAt_bind (pairsAt_read mirrors pair a.source)
  rintro Q σ' τ' resolved _ advance rfl
  exact pairsAt_write advance.mirrors (advance.le.contexts pair) a.target _

theorem pairsAt_assignAll (mirrors : P.Mirrors σ τ) (pair : P.contexts ctx.index ctx'.index)
    (as : List Assignment) : PairsAt P Same σ τ (ctx.assignAll as) (ctx'.assignAll as) := by
  induction as generalizing P σ τ with
  | nil => exact pairsAt_pure mirrors rfl
  | cons a rest ih =>
      apply pairsAt_bind (pairsAt_assign mirrors pair a)
      intro Q σ' τ' _ _ advance _
      exact ih advance.mirrors (advance.le.contexts pair)

theorem pairsAt_performRule (mirrors : P.Mirrors σ τ) (pair : P.contexts ctx.index ctx'.index)
    (r : Rule) : PairsAt P Same σ τ (ctx.performRule r) (ctx'.performRule r) :=
  pairsAt_assignAll mirrors pair r.assignments

theorem pairsAt_execute (mirrors : P.Mirrors σ τ) (pair : P.contexts ctx.index ctx'.index)
    (command : String) (backend : Backend) :
    PairsAt P Same σ τ (ctx.execute command backend) (ctx'.execute command backend) := by
  cases backend with
  | bare => exact pairsAt_throw mirrors _
  | tables commands =>
      apply pairsAt_bind (pairsAt_ofEngine mirrors (commands.table command))
      rintro Q σ' τ' t _ advance rfl
      have pair' := advance.le.contexts pair
      apply pairsAt_bind (pairsAt_uniform advance.mirrors pair' t.uniform_satisfiedRule?)
      rintro Q' σ'' τ'' rule _ advance' rfl
      cases rule with
      | none => exact pairsAt_throw advance'.mirrors _
      | some r => exact pairsAt_performRule advance'.mirrors (advance'.le.contexts pair') r

theorem pairsAt_perform (mirrors : P.Mirrors σ τ) (pair : P.contexts ctx.index ctx'.index)
    (command : String) : PairsAt P Same σ τ (ctx.perform command) (ctx'.perform command) := by
  apply pairsAt_get
  rw [(mirrors.context_rel pair).backend]
  cases (τ.context ctx').backend with
  | none => exact pairsAt_throw mirrors _
  | some backend =>
      apply pairsAt_bind (pairsAt_report mirrors pair (.command command))
      intro Q σ' τ' _ _ advance _
      exact pairsAt_execute advance.mirrors (advance.le.contexts pair) command backend

end

end DecisionTables
