import DecisionTables.Proofs.Linking
import DecisionTables.Proofs.Running

/-!
# Steps on linked stores

A step that is given objects that stand for each other gives the same result on two
linked stores and leaves them linked, with pairs for what it has added.  It changes
nothing that the pairing does not name, and of a source only the values.
-/

namespace DecisionTables

/-- Two sources that differ at most in values that a reset drops. -/
def Source.Alike (s t : Source) : Prop :=
  s.reset = t.reset

theorem Source.Alike.refl (s : Source) : s.Alike s := rfl

theorem Source.Alike.trans (s t u : Source) (first : s.Alike t) (second : t.Alike u) :
    s.Alike u :=
  Eq.trans first second

theorem Source.Alike.name_eq {s t : Source} (alike : s.Alike t) : s.name = t.name := by
  rw [← Source.name_reset s, ← Source.name_reset t, alike]

/-- A source that takes no name from the key it is stored under. -/
def Source.Settled (name : Scalar) (s : Source) : Prop :=
  s.name.isBlank = true → s.name = name

theorem Source.settled_nameIfBlank (name : Scalar) (s : Source) :
    (s.nameIfBlank name).Settled name := by
  unfold Source.Settled Source.nameIfBlank
  split
  · exact fun _ => rfl
  · exact fun blank => absurd blank ‹_›

theorem Source.Settled.nameIfBlank_eq {name : Scalar} {s : Source} (settled : s.Settled name) :
    s.nameIfBlank name = s := by
  rw [Source.nameIfBlank]
  split
  · rename_i blank
    rw [← settled blank]
  · rfl

/-- The registry of a stored state: distinct names for distinct sources that take none of them. -/
structure Store.Tidy (σ : Store) (r : Registry) : Prop where
  distinct : Assoc.Distinct r
  apart : r.values.Nodup
  settled : ∀ entry ∈ r, ∃ s, σ.sources[entry.2.index]? = some s ∧ s.Settled entry.1

/-- Which identities of two stores stand for each other, and how their traces are related. -/
structure Pairing where
  sources : Nat → Nat → Prop
  states : Nat → Nat → Prop
  contexts : Nat → Nat → Prop
  traces : Nat → Nat → Prop
  shown : Trace → Trace → Prop
  shown_empty : shown #[] #[]
  shown_push : ∀ {t u : Trace} (e : Event), shown t u → shown (t.push e) (u.push e)

/-- The objects that a step may change. -/
structure Owned where
  sources : Nat → Prop
  contexts : Nat → Prop
  traces : Nat → Prop

/-- No object at all. -/
def Owned.nothing : Owned := ⟨fun _ => False, fun _ => False, fun _ => False⟩

/-- A store after a step that changes only what it owns, and of its sources only the values. -/
structure Keeps (owned : Owned) (σ σ' : Store) : Prop where
  room : σ'.room = σ.room
  sources : Kept owned.sources Source.Alike σ.sources σ'.sources
  states : Kept (fun _ => False) (fun _ _ => True) σ.states σ'.states
  contexts : Kept owned.contexts (fun _ _ => True) σ.contexts σ'.contexts
  traces : Kept owned.traces (fun _ _ => True) σ.traces σ'.traces

/-- A store after a step that may also replace some states. -/
structure KeepsRest (owned : Owned) (replaced : Nat → Prop) (σ σ' : Store) : Prop where
  room : σ'.room = σ.room
  sources : Kept owned.sources Source.Alike σ.sources σ'.sources
  states : Kept replaced (fun _ _ => True) σ.states σ'.states
  contexts : Kept owned.contexts (fun _ _ => True) σ.contexts σ'.contexts
  traces : Kept owned.traces (fun _ _ => True) σ.traces σ'.traces

namespace Pairing

/-- The objects of the first store that stand for something. -/
def left (P : Pairing) : Owned :=
  ⟨fun i => ∃ j, P.sources i j, fun i => ∃ j, P.contexts i j, fun i => ∃ j, P.traces i j⟩

/-- The objects of the second store that something stands for. -/
def right (P : Pairing) : Owned :=
  ⟨fun j => ∃ i, P.sources i j, fun j => ∃ i, P.contexts i j, fun j => ∃ i, P.traces i j⟩

/-- The second pairing has all pairs of the first. -/
structure Le (P Q : Pairing) : Prop where
  sources : ∀ {i j}, P.sources i j → Q.sources i j
  states : ∀ {i j}, P.states i j → Q.states i j
  contexts : ∀ {i j}, P.contexts i j → Q.contexts i j
  traces : ∀ {i j}, P.traces i j → Q.traces i j
  shown : Q.shown = P.shown

namespace Le

theorem refl (P : Pairing) : P.Le P := ⟨id, id, id, id, rfl⟩

theorem trans {P Q R : Pairing} (first : P.Le Q) (second : Q.Le R) : P.Le R :=
  ⟨fun pair => second.sources (first.sources pair), fun pair => second.states (first.states pair),
    fun pair => second.contexts (first.contexts pair),
    fun pair => second.traces (first.traces pair), second.shown.trans first.shown⟩

end Le

/-! ## Contents that stand for each other -/

/-- Registries with the same names for sources that stand for each other. -/
def Registries (P : Pairing) : Registry → Registry → Prop :=
  List.Forall₂ fun e f => e.1 = f.1 ∧ P.sources e.2.index f.2.index

/-- The same results of named conditions, by sources that stand for each other. -/
def Verdicts (P : Pairing) :
    Assoc (SourceId × String) String → Assoc (SourceId × String) String → Prop :=
  List.Forall₂ fun e f =>
    P.sources e.1.1.index f.1.1.index ∧ e.1.2 = f.1.2 ∧ e.2 = f.2

/-- Two contexts that remember the same. -/
structure Memos (P : Pairing) (m n : Memo) : Prop where
  outcomes : m.outcomes = n.outcomes
  verdicts : P.Verdicts m.verdicts n.verdicts
  computing : m.computing = n.computing

/-- Contexts on sources, states and traces that stand for each other. -/
structure Contexts (P : Pairing) (c d : Context) : Prop where
  state : P.states c.state.index d.state.index
  catalog : c.catalog = d.catalog
  backend : c.backend = d.backend
  request : P.sources c.request.index d.request.index
  registry : P.Registries c.registry d.registry
  memo : P.Memos c.memo d.memo
  trace : P.traces c.trace.index d.trace.index

theorem Registries.mono {P Q : Pairing} (le : P.Le Q) {r s : Registry}
    (registries : P.Registries r s) : Q.Registries r s :=
  List.Forall₂.imp (fun _ _ pair => ⟨pair.1, le.sources pair.2⟩) registries

theorem Verdicts.mono {P Q : Pairing} (le : P.Le Q) {v w : Assoc (SourceId × String) String}
    (verdicts : P.Verdicts v w) : Q.Verdicts v w :=
  List.Forall₂.imp (fun _ _ pair => ⟨le.sources pair.1, pair.2⟩) verdicts

theorem Memos.mono {P Q : Pairing} (le : P.Le Q) {m n : Memo} (memos : P.Memos m n) :
    Q.Memos m n :=
  ⟨memos.outcomes, memos.verdicts.mono le, memos.computing⟩

theorem Contexts.mono {P Q : Pairing} (le : P.Le Q) {c d : Context} (contexts : P.Contexts c d) :
    Q.Contexts c d :=
  ⟨le.states contexts.state, contexts.catalog, contexts.backend, le.sources contexts.request,
    contexts.registry.mono le, contexts.memo.mono le, le.traces contexts.trace⟩

theorem Contexts.withMemo {P : Pairing} {c d : Context} (contexts : P.Contexts c d) {m n : Memo}
    (memos : P.Memos m n) : P.Contexts { c with memo := m } { d with memo := n } :=
  ⟨contexts.state, contexts.catalog, contexts.backend, contexts.request, contexts.registry, memos,
    contexts.trace⟩

theorem Contexts.withRegistry {P : Pairing} {c d : Context} (contexts : P.Contexts c d)
    {r s : Registry} (registries : P.Registries r s) :
    P.Contexts { c with registry := r } { d with registry := s } :=
  ⟨contexts.state, contexts.catalog, contexts.backend, contexts.request, registries,
    contexts.memo, contexts.trace⟩

/-- What stands for each other in two stores holds the same contents. -/
structure Mirrors (P : Pairing) (σ τ : Store) : Prop where
  room : σ.room = τ.room
  sources : Linked P.sources (fun s t => s = t) σ.sources τ.sources
  states : Linked P.states P.Registries σ.states τ.states
  contexts : Linked P.contexts P.Contexts σ.contexts τ.contexts
  traces : Linked P.traces P.shown σ.traces τ.traces
  tidy : ∀ {i j r}, P.states i j → σ.states[i]? = some r → σ.Tidy r

/-- New pairs are pairs of objects that were added to both stores. -/
structure Fresh (P Q : Pairing) (σ τ : Store) : Prop where
  sources : Newer P.sources Q.sources σ.sources.size τ.sources.size
  states : Newer P.states Q.states σ.states.size τ.states.size
  contexts : Newer P.contexts Q.contexts σ.contexts.size τ.contexts.size
  traces : Newer P.traces Q.traces σ.traces.size τ.traces.size

/-- Without a new pair there is none of old objects. -/
theorem Fresh.refl (P : Pairing) (σ τ : Store) : P.Fresh P σ τ :=
  ⟨.refl _ _ _, .refl _ _ _, .refl _ _ _, .refl _ _ _⟩

/-- Two linked stores before and after a step that was carried out on both. -/
structure Advance (P Q : Pairing) (σ τ σ' τ' : Store) : Prop where
  le : P.Le Q
  fresh : P.Fresh Q σ τ
  mirrors : Q.Mirrors σ' τ'
  left : Keeps P.left σ σ'
  right : Keeps P.right τ τ'

end Pairing

/-! ## Keeping -/

namespace Keeps

variable {owned : Owned}

theorem refl (σ : Store) : Keeps owned σ σ :=
  ⟨rfl, .refl Source.Alike.refl _, .refl (fun _ => trivial) _, .refl (fun _ => trivial) _,
    .refl (fun _ => trivial) _⟩

/-- A later step may also own what was added before it. -/
theorem trans {later : Owned} {σ σ' σ'' : Store} (first : Keeps owned σ σ')
    (second : Keeps later σ' σ'')
    (sources : ∀ i, i < σ.sources.size → later.sources i → owned.sources i)
    (contexts : ∀ i, i < σ.contexts.size → later.contexts i → owned.contexts i)
    (traces : ∀ i, i < σ.traces.size → later.traces i → owned.traces i) : Keeps owned σ σ'' where
  room := second.room.trans first.room
  sources := first.sources.trans Source.Alike.trans second.sources sources
  states := first.states.trans (fun _ _ _ _ _ => trivial) second.states fun _ _ no => no
  contexts := first.contexts.trans (fun _ _ _ _ _ => trivial) second.contexts contexts
  traces := first.traces.trans (fun _ _ _ _ _ => trivial) second.traces traces

theorem mono {more : Owned} {σ σ' : Store} (keeps : Keeps owned σ σ')
    (sources : ∀ i, owned.sources i → more.sources i)
    (contexts : ∀ i, owned.contexts i → more.contexts i)
    (traces : ∀ i, owned.traces i → more.traces i) : Keeps more σ σ' :=
  ⟨keeps.room, keeps.sources.mono sources, keeps.states, keeps.contexts.mono contexts,
    keeps.traces.mono traces⟩

variable {σ σ' : Store}

/-- A step that replaces no state replaces none but some. -/
theorem rest (keeps : Keeps owned σ σ') (replaced : Nat → Prop) : KeepsRest owned replaced σ σ' :=
  ⟨keeps.room, keeps.sources, keeps.states.mono fun _ => False.elim, keeps.contexts, keeps.traces⟩

theorem source_eq (keeps : Keeps owned σ σ') {id : SourceId} (inside : id.index < σ.sources.size)
    (free : ¬ owned.sources id.index) : σ'.source id = σ.source id := by
  obtain ⟨_, found, _, same⟩ := keeps.sources _ _ (Array.getElem?_eq_getElem inside)
  rw [Store.source, Store.source, Array.getD_eq_getD_getElem?, Array.getD_eq_getD_getElem?, found,
    same free, Array.getElem?_eq_getElem inside]

theorem state_eq (keeps : Keeps owned σ σ') {id : StateId} (inside : id.index < σ.states.size) :
    σ'.state id = σ.state id := by
  obtain ⟨_, found, _, same⟩ := keeps.states _ _ (Array.getElem?_eq_getElem inside)
  rw [Store.state, Store.state, Array.getD_eq_getD_getElem?, Array.getD_eq_getD_getElem?, found,
    same not_false, Array.getElem?_eq_getElem inside]

theorem context_eq (keeps : Keeps owned σ σ') {ctx : ContextId} (inside : ctx.index < σ.contexts.size)
    (free : ¬ owned.contexts ctx.index) : σ'.context ctx = σ.context ctx := by
  obtain ⟨_, found, _, same⟩ := keeps.contexts _ _ (Array.getElem?_eq_getElem inside)
  rw [Store.context, Store.context, Array.getD_eq_getD_getElem?, Array.getD_eq_getD_getElem?, found,
    same free, Array.getElem?_eq_getElem inside]

end Keeps

namespace KeepsRest

variable {owned : Owned} {replaced : Nat → Prop}

/-- A later step may also own and replace what was added before it. -/
theorem trans {later : Owned} {replaced' : Nat → Prop} {σ σ' σ'' : Store}
    (first : KeepsRest owned replaced σ σ') (second : KeepsRest later replaced' σ' σ'')
    (sources : ∀ i, i < σ.sources.size → later.sources i → owned.sources i)
    (states : ∀ i, i < σ.states.size → replaced' i → replaced i)
    (contexts : ∀ i, i < σ.contexts.size → later.contexts i → owned.contexts i)
    (traces : ∀ i, i < σ.traces.size → later.traces i → owned.traces i) :
    KeepsRest owned replaced σ σ'' where
  room := second.room.trans first.room
  sources := first.sources.trans Source.Alike.trans second.sources sources
  states := first.states.trans (fun _ _ _ _ _ => trivial) second.states states
  contexts := first.contexts.trans (fun _ _ _ _ _ => trivial) second.contexts contexts
  traces := first.traces.trans (fun _ _ _ _ _ => trivial) second.traces traces

theorem setState {σ : Store} {id : StateId} (own : replaced id.index) (r : Registry) :
    KeepsRest owned replaced σ (σ.setState id r) :=
  { (Keeps.refl σ).rest replaced with states := .set (fun _ => trivial) own fun _ _ => trivial }

end KeepsRest

theorem Store.Tidy.keepRest {owned : Owned} {replaced : Nat → Prop} {σ σ' : Store} {r : Registry}
    (tidy : σ.Tidy r) (keeps : KeepsRest owned replaced σ σ') : σ'.Tidy r := by
  refine ⟨tidy.distinct, tidy.apart, fun entry member => ?_⟩
  obtain ⟨s, found, settled⟩ := tidy.settled entry member
  obtain ⟨s', now, alike, _⟩ := keeps.sources _ s found
  refine ⟨s', now, ?_⟩
  rw [Source.Settled, ← alike.name_eq]
  exact settled

theorem Store.Tidy.keep {owned : Owned} {σ σ' : Store} {r : Registry} (tidy : σ.Tidy r)
    (keeps : Keeps owned σ σ') : σ'.Tidy r :=
  tidy.keepRest (keeps.rest fun _ => False)

namespace Pairing

theorem Mirrors.keepTidy {P : Pairing} {owned : Owned} {σ σ' τ : Store} (mirrors : P.Mirrors σ τ)
    (keeps : Keeps owned σ σ') {i j : Nat} {r : Registry} (pair : P.states i j)
    (found : σ'.states[i]? = some r) : σ'.Tidy r := by
  obtain ⟨r', _, before, _⟩ := mirrors.states.content pair
  obtain ⟨r'', after, _, same⟩ := keeps.states _ r' before
  rw [same id, found] at after
  rw [Option.some.inj after]
  exact (mirrors.tidy pair before).keep keeps

/-- Stores that were only added to stand for each other as before. -/
theorem Mirrors.keep {P : Pairing} {σ τ σ' τ' : Store} (mirrors : P.Mirrors σ τ)
    (left : Keeps Owned.nothing σ σ') (right : Keeps Owned.nothing τ τ') : P.Mirrors σ' τ' := by
  refine ⟨?_, mirrors.sources.keep left.sources right.sources,
    mirrors.states.keep left.states right.states,
    mirrors.contexts.keep left.contexts right.contexts,
    mirrors.traces.keep left.traces right.traces, mirrors.keepTidy left⟩
  rw [left.room, mirrors.room, right.room]

theorem Advance.of_keeps {P : Pairing} {σ τ σ' τ' : Store} (mirrors : P.Mirrors σ τ)
    (left : Keeps Owned.nothing σ σ') (right : Keeps Owned.nothing τ τ') :
    P.Advance P σ τ σ' τ' :=
  ⟨.refl P, .refl P σ τ, mirrors.keep left right,
    left.mono (fun _ => False.elim) (fun _ => False.elim) (fun _ => False.elim),
    right.mono (fun _ => False.elim) (fun _ => False.elim) (fun _ => False.elim)⟩

theorem Advance.refl {P : Pairing} {σ τ : Store} (mirrors : P.Mirrors σ τ) :
    P.Advance P σ τ σ τ :=
  ⟨.refl P, .refl P σ τ, mirrors, .refl σ, .refl τ⟩

/-- Pairs that are new after the first or the second step are pairs of new objects. -/
theorem Fresh.trans {P Q R : Pairing} {σ τ σ' τ' : Store} {owned owned' : Owned}
    {replaced replaced' : Nat → Prop} (first : P.Fresh Q σ τ) (second : Q.Fresh R σ' τ')
    (left : KeepsRest owned replaced σ σ') (right : KeepsRest owned' replaced' τ τ') :
    P.Fresh R σ τ where
  sources := first.sources.trans second.sources left.sources.size_le right.sources.size_le
  states := first.states.trans second.states left.states.size_le right.states.size_le
  contexts := first.contexts.trans second.contexts left.contexts.size_le right.contexts.size_le
  traces := first.traces.trans second.traces left.traces.size_le right.traces.size_le

theorem Advance.trans {P Q R : Pairing} {σ τ σ' τ' σ'' τ'' : Store}
    (first : P.Advance Q σ τ σ' τ') (second : Q.Advance R σ' τ' σ'' τ'') :
    P.Advance R σ τ σ'' τ'' where
  le := first.le.trans second.le
  fresh := first.fresh.trans second.fresh (first.left.rest fun _ => False)
    (first.right.rest fun _ => False)
  mirrors := second.mirrors
  left := first.left.trans second.left first.fresh.sources.left_old
    first.fresh.contexts.left_old first.fresh.traces.left_old
  right := first.right.trans second.right first.fresh.sources.right_old
    first.fresh.contexts.right_old first.fresh.traces.right_old

end Pairing

end DecisionTables
