import DecisionTables.Proofs.Mirroring

/-!
# Steps in lockstep

`PairsAt` says that one step, carried out on two linked stores, gives results that
stand for each other and advances the stores together.  This module has the rules to
combine such steps and the steps that add, read and replace single objects.
-/

namespace DecisionTables

/-- Two results that stand for each other: related values, or the same fault. -/
inductive Matches {α β : Type} (R : α → β → Prop) : Except Fault α → Except Fault β → Prop where
  | value {a b} (related : R a b) : Matches R (.ok a) (.ok b)
  | fault (f : Fault) : Matches R (.error f) (.error f)

/-- The same result on both sides. -/
abbrev Same {α : Type} : Pairing → α → α → Prop :=
  fun _ a b => a = b

theorem Matches.eq {α : Type} {x y : Except Fault α} (same : Matches (fun a b => a = b) x y) :
    x = y := by
  cases same with
  | value related => rw [related]
  | fault f => rfl

/-- Two steps that advance two stores together, with results that stand for each other. -/
def PairsAt {α β : Type} (P : Pairing) (R : Pairing → α → β → Prop) (σ τ : Store)
    (x : Engine α) (y : Engine β) : Prop :=
  ∃ Q, P.Advance Q σ τ (runFrom x σ).2 (runFrom y τ).2 ∧
    Matches (R Q) (runFrom x σ).1 (runFrom y τ).1

section

variable {α β γ δ : Type} {P : Pairing} {σ τ : Store}

theorem pairsAt_pure {R : Pairing → α → β → Prop} (mirrors : P.Mirrors σ τ) {a : α} {b : β}
    (related : R P a b) : PairsAt P R σ τ (pure a) (pure b) :=
  ⟨P, .refl mirrors, .value related⟩

theorem pairsAt_throw {R : Pairing → α → β → Prop} (mirrors : P.Mirrors σ τ) (f : Fault) :
    PairsAt P R σ τ (throw f) (throw f) :=
  ⟨P, .refl mirrors, .fault f⟩

/-- Two steps in lockstep end with the same fault or with related values. -/
theorem PairsAt.run {R : Pairing → α → β → Prop} {x : Engine α} {y : Engine β}
    (pairs : PairsAt P R σ τ x y) :
    ∃ Q σ' τ', P.Advance Q σ τ σ' τ' ∧
      ((∃ f, runFrom x σ = (.error f, σ') ∧ runFrom y τ = (.error f, τ')) ∨
        ∃ a b, runFrom x σ = (.ok a, σ') ∧ runFrom y τ = (.ok b, τ') ∧ R Q a b) := by
  obtain ⟨Q, advance, results⟩ := pairs
  refine ⟨Q, _, _, advance, ?_⟩
  revert advance results
  generalize runFrom x σ = left
  generalize runFrom y τ = right
  obtain ⟨left, σ'⟩ := left
  obtain ⟨right, τ'⟩ := right
  intro advance results
  cases results with
  | fault f => exact .inl ⟨f, rfl, rfl⟩
  | @value a b related => exact .inr ⟨a, b, rfl, rfl, related⟩

/-- What the first part does to the first store may be used in the rest. -/
theorem pairsAt_bind_of_run {R : Pairing → α → β → Prop} {S : Pairing → γ → δ → Prop}
    {x : Engine α} {y : Engine β} {f : α → Engine γ} {g : β → Engine δ}
    (first : PairsAt P R σ τ x y)
    (rest : ∀ Q σ' τ' a b, P.Advance Q σ τ σ' τ' → R Q a b → runFrom x σ = (.ok a, σ') →
      PairsAt Q S σ' τ' (f a) (g b)) :
    PairsAt P S σ τ (x >>= f) (y >>= g) := by
  obtain ⟨Q, σ', τ', advance, ⟨f, left, right⟩ | ⟨a, b, left, right, related⟩⟩ := first.run
  · rw [PairsAt, runFrom_bind, runFrom_bind, left, right]
    exact ⟨Q, advance, .fault f⟩
  · rw [PairsAt, runFrom_bind, runFrom_bind, left, right]
    obtain ⟨Q', advance', results'⟩ := rest Q σ' τ' a b advance related left
    exact ⟨Q', advance.trans advance', results'⟩

theorem pairsAt_bind {R : Pairing → α → β → Prop} {S : Pairing → γ → δ → Prop}
    {x : Engine α} {y : Engine β} {f : α → Engine γ} {g : β → Engine δ}
    (first : PairsAt P R σ τ x y)
    (rest : ∀ Q σ' τ' a b, P.Advance Q σ τ σ' τ' → R Q a b → PairsAt Q S σ' τ' (f a) (g b)) :
    PairsAt P S σ τ (x >>= f) (y >>= g) :=
  pairsAt_bind_of_run first fun Q σ' τ' a b advance related _ =>
    rest Q σ' τ' a b advance related

/-- What is read from the stores themselves may be used in the rest of a step. -/
theorem pairsAt_get {R : Pairing → α → β → Prop} {f : Store → Engine α} {g : Store → Engine β}
    (rest : PairsAt P R σ τ (f σ) (g τ)) : PairsAt P R σ τ (get >>= f) (get >>= g) := by
  rw [PairsAt, runFrom_bind, runFrom_bind]
  exact rest

theorem pairsAt_map {R : Pairing → α → β → Prop} {S : Pairing → γ → δ → Prop} {x : Engine α}
    {y : Engine β} {f : α → γ} {g : β → δ} (pairs : PairsAt P R σ τ x y)
    (maps : ∀ Q a b, P.Le Q → R Q a b → S Q (f a) (g b)) :
    PairsAt P S σ τ (f <$> x) (g <$> y) := by
  rw [← bind_pure_comp, ← bind_pure_comp]
  apply pairsAt_bind pairs
  intro Q σ' τ' a b advance related
  exact pairsAt_pure advance.mirrors (maps Q a b advance.le related)

theorem pairsAt_tryCatch {R : Pairing → α → β → Prop} {x : Engine α} {y : Engine β}
    {handle : Fault → Engine α} {handle' : Fault → Engine β} (first : PairsAt P R σ τ x y)
    (rest : ∀ Q σ' τ' f, P.Advance Q σ τ σ' τ' → PairsAt Q R σ' τ' (handle f) (handle' f)) :
    PairsAt P R σ τ (tryCatch x handle) (tryCatch y handle') := by
  obtain ⟨Q, σ', τ', advance, ⟨f, left, right⟩ | ⟨a, b, left, right, related⟩⟩ := first.run
  · rw [PairsAt, runFrom_tryCatch, runFrom_tryCatch, left, right]
    obtain ⟨Q', advance', results'⟩ := rest Q σ' τ' f advance
    exact ⟨Q', advance.trans advance', results'⟩
  · rw [PairsAt, runFrom_tryCatch, runFrom_tryCatch, left, right]
    exact ⟨Q, advance, .value related⟩

theorem pairsAt_ofExcept (mirrors : P.Mirrors σ τ) (r : Except Fault α) :
    PairsAt P Same σ τ (Engine.ofExcept r) (Engine.ofExcept r) := by
  cases r with
  | ok a => exact pairsAt_pure mirrors rfl
  | error f => exact pairsAt_throw mirrors f

theorem pairsAt_ofEngine (mirrors : P.Mirrors σ τ) (r : Except EngineError α) :
    PairsAt P Same σ τ (Engine.ofEngine r) (Engine.ofEngine r) := by
  cases r with
  | ok a => exact pairsAt_pure mirrors rfl
  | error error => exact pairsAt_throw mirrors _

/-! ## Reading single objects -/

namespace Pairing.Mirrors

theorem source_eq (mirrors : P.Mirrors σ τ) {i j : SourceId}
    (pair : P.sources i.index j.index) : σ.source i = τ.source j := by
  obtain ⟨s, t, left, right, same⟩ := mirrors.sources.content pair
  rw [Store.source, Store.source, Array.getD_eq_getD_getElem?, Array.getD_eq_getD_getElem?, left,
    right, same]

theorem state_rel (mirrors : P.Mirrors σ τ) {i j : StateId} (pair : P.states i.index j.index) :
    P.Registries (σ.state i) (τ.state j) := by
  obtain ⟨r, s, left, right, related⟩ := mirrors.states.content pair
  rw [Store.state, Store.state, Array.getD_eq_getD_getElem?, Array.getD_eq_getD_getElem?, left,
    right]
  exact related

theorem state_tidy (mirrors : P.Mirrors σ τ) {i j : StateId} (pair : P.states i.index j.index) :
    σ.Tidy (σ.state i) := by
  obtain ⟨r, _, found, _⟩ := mirrors.states.content pair
  rw [Store.state, Array.getD_eq_getD_getElem?, found]
  exact mirrors.tidy pair found

theorem context_rel (mirrors : P.Mirrors σ τ) {i j : ContextId}
    (pair : P.contexts i.index j.index) : P.Contexts (σ.context i) (τ.context j) := by
  obtain ⟨c, d, left, right, related⟩ := mirrors.contexts.content pair
  rw [Store.context, Store.context, Array.getD_eq_getD_getElem?, Array.getD_eq_getD_getElem?, left,
    right]
  exact related

theorem trace_rel (mirrors : P.Mirrors σ τ) {i j : TraceId} (pair : P.traces i.index j.index) :
    P.shown (σ.trace i) (τ.trace j) := by
  obtain ⟨t, u, left, right, related⟩ := mirrors.traces.content pair
  rw [Store.trace, Store.trace, Array.getD_eq_getD_getElem?, Array.getD_eq_getD_getElem?, left,
    right]
  exact related

end Pairing.Mirrors

/-! ## Adding objects -/

theorem pairsAt_addSource (mirrors : P.Mirrors σ τ) (s : Source) :
    PairsAt P (fun Q a b => Q.sources a.index b.index) σ τ (Engine.addSource s)
      (Engine.addSource s) := by
  let Q : Pairing := { P with sources := orPair P.sources σ.sources.size τ.sources.size }
  have le : P.Le Q := ⟨.inl, id, id, id, rfl⟩
  have left : Keeps P.left σ { σ with sources := σ.sources.push s } :=
    { Keeps.refl σ with sources := .push Source.Alike.refl _ _ }
  refine ⟨Q, ⟨le, ⟨.orPair _ _ _, .refl _ _ _, .refl _ _ _, .refl _ _ _⟩, ?_, left, ?_⟩,
    .value (.inr ⟨rfl, rfl⟩)⟩
  · exact ⟨mirrors.room, mirrors.sources.push rfl, mirrors.states.mono (.mono le),
      mirrors.contexts.mono (.mono le), mirrors.traces, mirrors.keepTidy left⟩
  · exact { Keeps.refl τ with sources := .push Source.Alike.refl _ _ }

theorem pairsAt_addState (mirrors : P.Mirrors σ τ) {r s : Registry}
    (registries : P.Registries r s) (tidy : σ.Tidy r) :
    PairsAt P (fun Q a b => Q.states a.index b.index) σ τ (Engine.addState r)
      (Engine.addState s) := by
  let Q : Pairing := { P with states := orPair P.states σ.states.size τ.states.size }
  have le : P.Le Q := ⟨id, .inl, id, id, rfl⟩
  have left : Keeps P.left σ { σ with states := σ.states.push r } :=
    { Keeps.refl σ with states := .push (fun _ => trivial) _ _ }
  refine ⟨Q, ⟨le, ⟨.refl _ _ _, .orPair _ _ _, .refl _ _ _, .refl _ _ _⟩, ?_, left, ?_⟩,
    .value (.inr ⟨rfl, rfl⟩)⟩
  · refine ⟨mirrors.room, mirrors.sources, (mirrors.states.push registries).mono (.mono le),
      mirrors.contexts.mono (.mono le), mirrors.traces, ?_⟩
    rintro i j r' (pair | ⟨rfl, rfl⟩) found
    · exact mirrors.keepTidy left pair found
    · change (σ.states.push r)[σ.states.size]? = some r' at found
      rw [Array.getElem?_push_size] at found
      rw [← Option.some.inj found]
      exact tidy.keep left
  · exact { Keeps.refl τ with states := .push (fun _ => trivial) _ _ }

theorem pairsAt_addContext (mirrors : P.Mirrors σ τ) {c d : Context}
    (contexts : P.Contexts c d) :
    PairsAt P (fun Q a b => Q.contexts a.index b.index) σ τ (Engine.addContext c)
      (Engine.addContext d) := by
  let Q : Pairing := { P with contexts := orPair P.contexts σ.contexts.size τ.contexts.size }
  have le : P.Le Q := ⟨id, id, .inl, id, rfl⟩
  have left : Keeps P.left σ { σ with contexts := σ.contexts.push c } :=
    { Keeps.refl σ with contexts := .push (fun _ => trivial) _ _ }
  refine ⟨Q, ⟨le, ⟨.refl _ _ _, .refl _ _ _, .orPair _ _ _, .refl _ _ _⟩, ?_, left, ?_⟩,
    .value (.inr ⟨rfl, rfl⟩)⟩
  · exact ⟨mirrors.room, mirrors.sources, mirrors.states.mono (.mono le),
      (mirrors.contexts.push contexts).mono (.mono le), mirrors.traces, mirrors.keepTidy left⟩
  · exact { Keeps.refl τ with contexts := .push (fun _ => trivial) _ _ }

theorem pairsAt_addTrace (mirrors : P.Mirrors σ τ) :
    PairsAt P (fun Q a b => Q.traces a.index b.index) σ τ Engine.addTrace Engine.addTrace := by
  let Q : Pairing := { P with traces := orPair P.traces σ.traces.size τ.traces.size }
  have le : P.Le Q := ⟨id, id, id, .inl, rfl⟩
  have left : Keeps P.left σ { σ with traces := σ.traces.push #[] } :=
    { Keeps.refl σ with traces := .push (fun _ => trivial) _ _ }
  refine ⟨Q, ⟨le, ⟨.refl _ _ _, .refl _ _ _, .refl _ _ _, .orPair _ _ _⟩, ?_, left, ?_⟩,
    .value (.inr ⟨rfl, rfl⟩)⟩
  · exact ⟨mirrors.room, mirrors.sources, mirrors.states.mono (.mono le),
      mirrors.contexts.mono (.mono le), mirrors.traces.push P.shown_empty, mirrors.keepTidy left⟩
  · exact { Keeps.refl τ with traces := .push (fun _ => trivial) _ _ }

end

end DecisionTables
