import DecisionTables.Proofs.Depending
import DecisionTables.Proofs.Duplicating
import DecisionTables.Proofs.Tracing

/-!
# What a rule reads of its request

The assignments of a rule tell which fragments of the request they read.  Two contexts over
the same state whose requests show the same at these fragments are not told apart by the rule,
as long as it reads no table and no named condition: it ends alike in both and leaves the same
state.  What the rule writes to the request by itself is the same in both, so that it may be
read later; and where the rule fails, both have come as far.
-/

namespace DecisionTables

/-! ## Payloads that show the same -/

/-- Two payloads of a request under its usual name, which show the same text at some fragments, or
none. -/
inductive Source.Payloads (wanted : List String) : Source → Source → Prop where
  | intro {values values' defaults defaults' : Assoc Scalar Value}
      (same : ∀ fragment ∈ wanted, (values.find? (.text fragment)).map Value.fragmentText =
        (values'.find? (.text fragment)).map Value.fragmentText) :
      Payloads wanted (.request (.text requestSource) values defaults)
        (.request (.text requestSource) values' defaults')

namespace Source

variable {wanted : List String} {s t s' : Source} {fragment : String} {value : Value}

theorem Payloads.direct?_eq (payloads : s.Payloads wanted t) (member : fragment ∈ wanted) :
    s.direct? fragment = t.direct? fragment := by
  cases payloads with
  | @intro values values' defaults defaults' same =>
      have sameAt : SameAt fragment ⟨.text requestSource, .memory .request values defaults⟩
          ⟨.text requestSource, .memory .request values' defaults'⟩ := .memory (same fragment member)
      cases sameAt.readAlike with
      | direct left right => exact left.trans right.symm

/-- A text that is written to both payloads is shown by both. -/
theorem Payloads.write (payloads : s.Payloads wanted t) (fragment : String) (value : Value) :
    ∃ s' t', s.write fragment value = .ok s' ∧ t.write fragment value = .ok t' ∧ s'.Payloads wanted t' := by
  obtain ⟨same⟩ := payloads
  refine ⟨_, _, rfl, rfl, ⟨fun other member => ?_⟩⟩
  cases equal : Scalar.text fragment == Scalar.text other with
  | true =>
      rw [Scalar.text_beq, beq_iff_eq] at equal
      have self : (Scalar.text fragment == Scalar.text fragment) = true := by
        rw [Scalar.text_beq]
        exact beq_self_eq_true fragment
      rw [← equal, Assoc.find?_insert_self _ _ self, Assoc.find?_insert_self _ _ self]
  | false =>
      rw [Assoc.find?_insert_of_ne _ _ equal, Assoc.find?_insert_of_ne _ _ equal]
      exact same other member

/-- What was written has its fragments as they are. -/
theorem exists_direct_of_write (written : s.write fragment value = .ok s') (other : String) :
    ∃ found, s'.direct? other = some found := by
  obtain ⟨name, content⟩ := s
  cases content with
  | memory kind values defaults =>
      cases written
      exact ⟨_, rfl⟩
  | _ => cases written

end Source

/-! ## Contexts that differ in their requests -/

namespace Store

/-- Two contexts on the same sources, registered and stored under the same names, but for what their
requests hold besides some fragments.  The request is registered under its usual name only. -/
structure Alongside (P : Pairing) (wanted : List String) (σ τ : Store) (ctx other : ContextId) : Prop where
  single : P.Single
  registered : P.Registries (σ.context ctx).registry (τ.context other).registry
  stored : P.Registries (σ.state (σ.context ctx).state) (τ.state (τ.context other).state)
  usual : ∀ entry ∈ (σ.context ctx).registry, entry.2 = (σ.context ctx).request →
    entry.1 = .text requestSource
  alike : ∀ {i j : SourceId}, P.sources i.index j.index → σ.source i = τ.source j ∨
    (i = (σ.context ctx).request ∧ i ∉ (σ.state (σ.context ctx).state).values ∧
      (σ.source i).Payloads wanted (τ.source j))

variable {P : Pairing} {wanted : List String} {σ τ : Store} {ctx other : ContextId} {c : Coordinate}

/-- A source that can be written is one of the store. -/
theorem inside_of_write {id : SourceId} {fragment : String} {value : Value} {s : Source}
    (written : (σ.source id).write fragment value = .ok s) : id.index < σ.sources.size := by
  by_contra outside
  have bare : σ.source id = .bare := by
    rw [source, Array.getD_eq_getD_getElem?, Array.getElem?_eq_none (Nat.le_of_not_lt outside)]
    rfl
  rw [bare] at written
  cases written

/-- A store after writes to its sources: contexts and states are the same, and what was found as it is
still is. -/
structure Written (σ σ' : Store) : Prop where
  contexts : σ'.contexts = σ.contexts
  states : σ'.states = σ.states
  direct : ∀ (r : Registry) (c : Coordinate), (∃ found, (σ.scope r).direct? c = some found) →
    ∃ found, (σ'.scope r).direct? c = some found

theorem Written.refl (σ : Store) : σ.Written σ :=
  ⟨rfl, rfl, fun _ _ => id⟩

theorem Written.trans {σ' σ'' : Store} (first : σ.Written σ') (second : σ'.Written σ'') : σ.Written σ'' :=
  ⟨second.contexts.trans first.contexts, second.states.trans first.states,
    fun r c => second.direct r c ∘ first.direct r c⟩

theorem Written.context_eq {σ' : Store} (written : σ.Written σ') (ctx : ContextId) :
    σ'.context ctx = σ.context ctx := by
  rw [context, context, written.contexts]

theorem written_setSource {id : SourceId} {fragment : String} {value : Value} {s : Source}
    (written : (σ.source id).write fragment value = .ok s) : σ.Written (σ.setSource id s) := by
  refine ⟨rfl, rfl, fun r c direct => ?_⟩
  rw [Scope.direct?, scope, Assoc.find?_mapValues] at direct ⊢
  cases entry : r.find? (.text c.source) with
  | none => exact ⟨_, rfl⟩
  | some i =>
      rw [entry] at direct
      by_cases same : i = id
      · obtain ⟨found, shown⟩ := Source.exists_direct_of_write written c.fragment
        refine ⟨found, ?_⟩
        simp only [Option.map_some, same, source_setSource_self (inside_of_write written) s]
        exact shown
      · simp only [Option.map_some, source_setSource_of_ne same]
        exact direct

namespace Alongside

/-- The stored sources are equal. -/
theorem holdings_eq (alongside : σ.Alongside P wanted τ ctx other) :
    σ.holdings (σ.context ctx).state = τ.holdings (τ.context other).state := by
  have equal : ∀ entry ∈ σ.state (σ.context ctx).state, ∀ j : SourceId,
      P.sources entry.2.index j.index → σ.source entry.2 = τ.source j := by
    intro entry member j pair
    rcases alongside.alike pair with same | ⟨_, outside, _⟩
    · exact same
    · exact (outside (List.mem_map_of_mem member)).elim
  have stored := alongside.stored
  rw [holdings, holdings]
  revert equal stored
  generalize σ.state (σ.context ctx).state = r
  generalize τ.state (τ.context other).state = r'
  intro equal stored
  induction stored with
  | nil => rfl
  | @cons e f _ _ pair _ ih =>
      obtain ⟨first, equal⟩ := List.forall_mem_cons.mp equal
      change (e.1, σ.source e.2) :: _ = (f.1, τ.source f.2) :: _
      rw [pair.1, first f.2 pair.2]
      exact congrArg _ (ih equal)

/-- A name stands for no source in both contexts, or for sources that stand for each other. -/
theorem find? (alongside : σ.Alongside P wanted τ ctx other) (name : Scalar) :
    Option.Rel (fun i j : SourceId => P.sources i.index j.index)
      ((σ.context ctx).registry.find? name) ((τ.context other).registry.find? name) :=
  Assoc.find?_rel (K := fun k l => k = l) alongside.registered fun _ _ same => by rw [same]

/-- Both contexts find the same at a coordinate as it is, if it is wanted where it is one of the request. -/
theorem direct?_eq (alongside : σ.Alongside P wanted τ ctx other)
    (asked : c.source = requestSource → c.fragment ∈ wanted) :
    (σ.scope (σ.context ctx).registry).direct? c = (τ.scope (τ.context other).registry).direct? c := by
  have related := alongside.find? (.text c.source)
  rw [Scope.direct?, Scope.direct?, scope, scope, Assoc.find?_mapValues, Assoc.find?_mapValues]
  generalize found : (σ.context ctx).registry.find? (.text c.source) = first at related
  generalize (τ.context other).registry.find? (.text c.source) = second at related
  cases related with
  | none => rfl
  | @some i j pair =>
      simp only [Option.map_some]
      rcases alongside.alike pair with same | ⟨rfl, _, payloads⟩
      · rw [same]
      · obtain ⟨key, equal, member⟩ := Assoc.exists_mem_of_find? found
        have usual : key = .text requestSource := alongside.usual _ member rfl
        rw [usual, Scalar.text_beq, beq_iff_eq] at equal
        exact payloads.direct?_eq (asked equal.symm)

/-- A write to sources that stand for each other keeps the contexts alongside. -/
theorem setSource (alongside : σ.Alongside P wanted τ ctx other) {i j : SourceId}
    (pair : P.sources i.index j.index) {s t : Source} (inside : i.index < σ.sources.size) (inside' : j.index < τ.sources.size)
    (alike : s = t ∨ (i = (σ.context ctx).request ∧ i ∉ (σ.state (σ.context ctx).state).values ∧
      s.Payloads wanted t)) :
    (σ.setSource i s).Alongside P wanted (τ.setSource j t) ctx other := by
  refine ⟨alongside.single, alongside.registered, alongside.stored, alongside.usual, fun {k l} pair' => ?_⟩
  have single := alongside.single pair' pair
  by_cases same : k = i
  · obtain rfl := same
    obtain rfl : l = j := congrArg SourceId.mk (single.mp rfl)
    rw [source_setSource_self inside, source_setSource_self inside']
    exact alike
  · have differ : l ≠ j := fun equal => same (congrArg SourceId.mk (single.mpr (congrArg _ equal)))
    rw [source_setSource_of_ne same, source_setSource_of_ne differ]
    exact alongside.alike pair'

end Alongside

end Store

/-! ## Contexts that are opened -/

/-- A context brings its request along under the name of the request. -/
theorem Brought.name_of_mem {name : String} {catalog : Option Catalog} {key : Scalar}
    (member : (key, none) ∈ ofContext (.text name) catalog) : key = .text name := by
  rcases Assoc.mem_or_mem_values_of_mem_insertAll member with member | table
  · rcases Assoc.mem_or_eq_of_mem_insert member with constant | ⟨_, rfl | same⟩
    · cases List.mem_singleton.mp constant
    · rfl
    · exact Scalar.eq_text_of_beq same
  · obtain ⟨_, inside, impossible⟩ := List.mem_map.mp table
    obtain ⟨_, _, rfl⟩ := List.mem_map.mp inside
    cases impossible

namespace Store

variable {P : Pairing} {wanted : List String} {σ σ' τ : Store} {ctx other : ContextId} {state state' : StateId}
  {own own' : Registry} {catalog : Option Catalog} {request request' : Source}

/-- What only adds to the store leaves a context as it was opened. -/
theorem OpenedWith.keep (opened : σ.OpenedWith ctx state own catalog request)
    (keeps : Keeps Owned.nothing σ σ') (inside : state.index < σ.states.size) :
    σ'.OpenedWith ctx state own catalog request := by
  have context := keeps.context_eq opened.above.inside not_false
  have kept : ∀ (i : Nat) (s : Source), σ.sources[i]? = some s → σ'.sources[i]? = some s := by
    intro i s found
    obtain ⟨t, found', _, same⟩ := keeps.sources i s found
    rw [found', same not_false]
  refine ⟨opened.above.keep keeps inside, ?_, ?_, ?_, ?_, ?_⟩
  · rw [context]
    exact opened.state_eq
  · rw [context]
    exact opened.catalog_eq
  · rw [context]
    exact opened.registers.keep fun i s _ => kept i s
  · rw [context]
    exact kept _ _ opened.requested
  · rw [context, keeps.state_eq inside]
    exact opened.outside

theorem Registers.mem_of_request {id : SourceId} {brought : Brought} (registers : σ.Registers id own brought)
    (requested : σ.sources[id.index]? = some request) (unfixed : ¬ request.Fixed) :
    ∀ entry ∈ own, entry.2 = id → (entry.1, none) ∈ brought := by
  induction registers with
  | nil => exact fun _ impossible => absurd impossible List.not_mem_nil
  | @cons e f _ _ head _ ih =>
      refine List.forall_mem_cons.mpr ⟨fun same => ?_, fun entry member equal =>
        List.mem_cons_of_mem _ (ih entry member equal)⟩
      obtain ⟨name, what⟩ := f
      obtain ⟨rfl, brings⟩ := head
      cases what with
      | none => exact List.mem_cons_self
      | some s =>
          obtain ⟨fixed, found⟩ := brings
          rw [same, requested] at found
          cases found
          exact (unfixed fixed).elim

/-- What two contexts bring along over the same tables are the same sources, but for their requests. -/
theorem Registers.alike {id id' : SourceId} {brought : Brought} (registers : σ.Registers id own brought)
    (registers' : τ.Registers id' own' brought) :
    List.Forall₂ (fun e f => e.1 = f.1 ∧ (σ.source e.2 = τ.source f.2 ∨ e.2 = id ∧ f.2 = id')) own own' := by
  induction registers generalizing own' with
  | nil =>
      cases registers'
      exact .nil
  | @cons e f _ _ head _ ih =>
      cases registers' with
      | @cons e' _ _ _ head' tail' =>
          refine .cons ⟨head.1.trans head'.1.symm, ?_⟩ (ih tail')
          obtain ⟨name, what⟩ := f
          cases what with
          | none => exact .inr ⟨head.2, head'.2⟩
          | some s =>
              exact .inl ((source_of_getElem? head.2.2).trans (source_of_getElem? head'.2.2).symm)

/-- Contexts that were opened on the same sources over the same tables are alongside each other, if their
requests show the same at what is wanted. -/
theorem OpenedWith.alongside (opened : σ.OpenedWith ctx state own catalog request)
    (opened' : τ.OpenedWith other state' own' catalog request') (held : σ.holdings state = τ.holdings state')
    (payloads : request.Payloads wanted request') :
    σ.Alongside (.zipped (own ++ σ.state state) (own' ++ τ.state state')) wanted τ ctx other := by
  have usual : request.name = .text requestSource ∧ request'.name = .text requestSource := by
    obtain ⟨_⟩ := payloads
    exact ⟨rfl, rfl⟩
  have unfixed : ¬ request.Fixed := by
    obtain ⟨_⟩ := payloads
    exact id
  have registers := opened.registers
  have registers' := opened'.registers
  rw [usual.1] at registers
  rw [usual.2] at registers'
  have brought := registers.alike registers'
  have stored := forall₂_of_mapValues_eq held
  have together : (own ++ σ.state state).zip (own' ++ τ.state state') =
      own.zip own' ++ (σ.state state).zip (τ.state state') := List.zip_append brought.length_eq
  let P := Pairing.zipped (own ++ σ.state state) (own' ++ τ.state state')
  have ownPaired : P.Registries own own' := Pairing.registries_of_zip brought fun inside =>
    Pairing.sources_zipped (together ▸ List.mem_append_left _ inside)
  have storedPaired : P.Registries (σ.state state) (τ.state state') :=
    Pairing.registries_of_zip stored fun inside =>
      Pairing.sources_zipped (together ▸ List.mem_append_right _ inside)
  refine ⟨Pairing.single_zipped opened.above.apart opened'.above.apart, ?_, ?_, ?_, ?_⟩
  · rw [opened.above.registry, opened'.above.registry]
    exact Assoc.insertAll_rel (R := fun i j : SourceId => P.sources i.index j.index) ownPaired storedPaired
  · rw [opened.state_eq, opened'.state_eq]
    exact storedPaired
  · intro entry member same
    rw [opened.above.registry] at member
    rcases Assoc.mem_or_mem_values_of_mem_insertAll member with inside | stored
    · exact Brought.name_of_mem (registers.mem_of_request opened.requested unfixed entry inside same)
    · exact (opened.outside (same ▸ stored)).elim
  · intro i j pair
    obtain ⟨e, f, member, first, second⟩ := Pairing.exists_mem_of_zipped pair
    obtain rfl : e.2 = i := congrArg SourceId.mk first
    obtain rfl : f.2 = j := congrArg SourceId.mk second
    rw [together] at member
    rw [opened.state_eq]
    rcases List.mem_append.mp member with inside | inside
    · rcases ((List.forall₂_iff_zip.mp brought).2 inside).2 with same | ⟨here, there⟩
      · exact .inl same
      · refine .inr ⟨here, here ▸ opened.outside, ?_⟩
        rw [here, there, source_of_getElem? opened.requested, source_of_getElem? opened'.requested]
        exact payloads
    · exact .inl ((List.forall₂_iff_zip.mp stored).2 inside).2

end Store

/-! ## Steps on both sides -/

namespace ContextId

variable {P : Pairing} {wanted : List String} {σ τ : Store} {ctx other : ContextId}

/-- What a context finds as it is, is read and nothing else happens. -/
theorem runFrom_read_direct {c : Coordinate} {found : Except Fault String}
    (direct : (σ.scope (σ.context ctx).registry).direct? c = some found) :
    runFrom (ctx.read c) σ = (found, σ) := by
  have resolved : runFrom (σ.resolver ctx c) (σ.progress ctx) = (found, σ.progress ctx) :=
    Scope.runFrom_resolve_direct direct σ.room _
  rw [ContextId.read, ctx.runFrom_evaluate, resolved, σ.withProgress_progress]

/-- What is written in both contexts is written alike. -/
theorem write_alongside (alongside : σ.Alongside P wanted τ ctx other) (c : Coordinate) (value : Value) :
    ∃ result σ' τ', runFrom (ctx.write c value) σ = (result, σ') ∧
      runFrom (other.write c value) τ = (result, τ') ∧
      σ.Written σ' ∧ τ.Written τ' ∧ σ'.Alongside P wanted τ' ctx other := by
  have related := alongside.find? (.text c.source)
  generalize found : (σ.context ctx).registry.find? (.text c.source) = first at related
  generalize found' : (τ.context other).registry.find? (.text c.source) = second at related
  cases related with
  | none =>
      exact ⟨_, σ, τ, runFrom_write_missing found value, runFrom_write_missing found' value, .refl σ, .refl τ,
        alongside⟩
  | @some i j pair =>
      rcases alongside.alike pair with same | ⟨request, outside, payloads⟩
      · cases written : (σ.source i).write c.fragment value with
        | error e =>
            exact ⟨_, σ, τ, runFrom_write_readOnly found written,
              runFrom_write_readOnly found' (same ▸ written), .refl σ, .refl τ, alongside⟩
        | ok s =>
            have written' : (τ.source j).write c.fragment value = .ok s := same ▸ written
            exact ⟨_, _, _, runFrom_write found written, runFrom_write found' written',
              Store.written_setSource written, Store.written_setSource written',
              alongside.setSource pair (Store.inside_of_write written) (Store.inside_of_write written')
                (.inl rfl)⟩
      · obtain ⟨s, t, written, written', payloads⟩ := payloads.write c.fragment value
        exact ⟨_, _, _, runFrom_write found written, runFrom_write found' written',
          Store.written_setSource written, Store.written_setSource written',
          alongside.setSource pair (Store.inside_of_write written) (Store.inside_of_write written')
            (.inr ⟨request, outside, payloads⟩)⟩

/-- An assignment that reads nothing of the request but what is wanted is carried out alike. -/
theorem assign_alongside (alongside : σ.Alongside P wanted τ ctx other) {a : Assignment}
    (asked : ∀ fragment ∈ a.arguments, fragment ∈ wanted)
    (direct : ∃ found, (σ.scope (σ.context ctx).registry).direct? a.source = some found) :
    ∃ result σ' τ', runFrom (ctx.assign a) σ = (result, σ') ∧ runFrom (other.assign a) τ = (result, τ') ∧
      σ.Written σ' ∧ τ.Written τ' ∧ σ'.Alongside P wanted τ' ctx other := by
  obtain ⟨found, shown⟩ := direct
  have usual : a.source.source = requestSource → a.source.fragment ∈ wanted := by
    intro request
    refine asked _ ?_
    rw [Assignment.arguments, request, beq_self_eq_true, if_pos rfl]
    exact List.mem_singleton_self _
  have read := runFrom_read_direct shown
  have read' := runFrom_read_direct ((alongside.direct?_eq usual).symm.trans shown)
  cases found with
  | error f =>
      refine ⟨.error f, σ, τ, ?_, ?_, .refl σ, .refl τ, alongside⟩
      · rw [assign, runFrom_bind_fault read]
      · rw [assign, runFrom_bind_fault read']
  | ok text =>
      rw [assign, assign, runFrom_bind_ok read, runFrom_bind_ok read']
      exact write_alongside alongside a.target (.text text)

/-- Assignments that read nothing of the request but what is wanted are carried out alike, as far as they
come. -/
theorem assignAll_alongside (alongside : σ.Alongside P wanted τ ctx other) {assignments : List Assignment}
    (asked : ∀ a ∈ assignments, ∀ fragment ∈ a.arguments, fragment ∈ wanted)
    (direct : ∀ a ∈ assignments, ∃ found,
      (σ.scope (σ.context ctx).registry).direct? a.source = some found) :
    ∃ result σ' τ', runFrom (ctx.assignAll assignments) σ = (result, σ') ∧
      runFrom (other.assignAll assignments) τ = (result, τ') ∧
      σ.Written σ' ∧ τ.Written τ' ∧ σ'.Alongside P wanted τ' ctx other := by
  induction assignments generalizing σ τ with
  | nil => exact ⟨_, σ, τ, rfl, rfl, .refl σ, .refl τ, alongside⟩
  | cons a rest ih =>
      obtain ⟨first, asked⟩ := List.forall_mem_cons.mp asked
      obtain ⟨own, direct⟩ := List.forall_mem_cons.mp direct
      obtain ⟨result, σ₁, τ₁, ran, ran', written, written', alongside₁⟩ := assign_alongside alongside first own
      cases result with
      | error f =>
          refine ⟨.error f, σ₁, τ₁, ?_, ?_, written, written', alongside₁⟩
          · rw [assignAll, runFrom_bind_fault ran]
          · rw [assignAll, runFrom_bind_fault ran']
      | ok u =>
          -- what the rest reads is still found as it is
          have still : ∀ a ∈ rest, ∃ found,
              (σ₁.scope (σ₁.context ctx).registry).direct? a.source = some found := by
            rw [written.context_eq]
            exact fun b member => written.direct _ _ (direct b member)
          obtain ⟨result, σ₂, τ₂, ran₂, ran₂', later, later', alongside₂⟩ := ih alongside₁ asked still
          refine ⟨result, σ₂, τ₂, ?_, ?_, written.trans later, written'.trans later', alongside₂⟩
          · rw [assignAll, runFrom_bind_ok ran, ran₂]
          · rw [assignAll, runFrom_bind_ok ran', ran₂']

/-- Contexts that are opened one after the other on one state over the same tables are alongside each other,
if their requests show the same at what is wanted. -/
theorem exists_open_alongside {state : StateId} (tidy : σ.Tidy (σ.state state))
    (inside : state.index < σ.states.size) (catalog : Option Catalog) {request request' : Source}
    (payloads : request.Payloads wanted request') (backend : Option Backend) :
    ∃ ctx σ₁ other σ₂ P, runFrom (ContextId.open state catalog request backend) σ = (.ok ctx, σ₁) ∧
      runFrom (ContextId.open state catalog request' backend) σ₁ = (.ok other, σ₂) ∧
      σ₂.Alongside P wanted σ₂ ctx other ∧
      (σ₂.context ctx).state = state ∧ (σ₂.context other).state = state := by
  obtain ⟨ctx, σ₁, own, ran, fresh, opened, _⟩ := exists_open_with tidy catalog request backend
  have tidy₁ : σ₁.Tidy (σ₁.state state) := by
    rw [fresh.keeps.state_eq inside]
    exact tidy.keep fresh.keeps
  obtain ⟨other, σ₂, own', ran', fresh', opened', _⟩ := exists_open_with tidy₁ catalog request' backend
  have opened₂ := opened.keep fresh'.keeps (fresh.states ▸ inside)
  exact ⟨ctx, σ₁, other, σ₂, _, ran, ran', opened₂.alongside opened' rfl payloads, opened₂.state_eq,
    opened'.state_eq⟩

/-- A rule reads nothing of its request but its arguments.  Where two contexts have the same sources
registered and stored under the same names, but for requests that show the same at the arguments of the rule,
and every source of an assignment is found as it is, the rule ends alike in both: it succeeds in both or fails
with the same fault.  It leaves the same state, also where it fails midway, and requests that still show the
same. -/
theorem rules_read_their_arguments {r : Rule} (alongside : σ.Alongside P r.arguments τ ctx other)
    (direct : ∀ a ∈ r.assignments, ∃ found,
      (σ.scope (σ.context ctx).registry).direct? a.source = some found) :
    ∃ result σ' τ', runFrom (ctx.performRule r) σ = (result, σ') ∧
      runFrom (other.performRule r) τ = (result, τ') ∧
      σ'.holdings (σ.context ctx).state = τ'.holdings (τ.context other).state ∧
      σ'.Alongside P r.arguments τ' ctx other := by
  have asked : ∀ a ∈ r.assignments, ∀ fragment ∈ a.arguments, fragment ∈ r.arguments :=
    fun a member fragment inside => List.mem_flatMap.mpr ⟨a, member, inside⟩
  obtain ⟨result, σ', τ', ran, ran', written, written', alongside'⟩ :=
    assignAll_alongside alongside asked direct
  have held := alongside'.holdings_eq
  rw [written.context_eq, written'.context_eq] at held
  exact ⟨result, σ', τ', ran, ran', held, alongside'⟩

end ContextId

namespace Session

open ContextId

/-- A session with a state of one source. -/
def shelf : Session :=
  (start none).after [.newState (.sources [(.text "x", .stored (.text "x") [] [])])]

/-- A rule that writes a fragment of the request which it reads later, and fails midway. -/
def transfer : Rule :=
  ⟨"t::transfer", [⟨.row .assignment, "x::n", "request::a"⟩, ⟨.row .assignment, "request::b", "x::n"⟩,
    ⟨.row .assignment, "x::m", "request::b"⟩, ⟨.row .assignment, "y::n", "request::a"⟩,
    ⟨.row .assignment, "x::k", "0"⟩]⟩

/-- A request with a number. -/
def numbered : Source :=
  .request (.text requestSource) [(.text "a", .scalar (.int 1)), (.text "c", .text "one")] []

/-- A request with the text of that number, and with something else. -/
def spelled : Source :=
  .request (.text requestSource) [(.text "d", .text "two"), (.text "a", .text "1")] [(.text "a", .text "2")]

/-- The store with a context for either request. -/
def overShelf : Store :=
  (runFrom (ContextId.open ⟨0⟩ none spelled none)
    (runFrom (ContextId.open ⟨0⟩ none numbered none) shelf.store).2).2

/-- For both requests the rule fails alike, and leaves what it has written before. -/
theorem transfer_reads_its_arguments : ∃ σ τ,
    runFrom (performRule ⟨0⟩ transfer) overShelf = (.error (.engine (.unknownSource "y")), σ) ∧
    runFrom (performRule ⟨1⟩ transfer) overShelf = (.error (.engine (.unknownSource "y")), τ) ∧
    σ.holdings ⟨0⟩ = τ.holdings ⟨0⟩ ∧
    σ.holdings ⟨0⟩ =
      [(.text "x", .stored (.text "x") [(.text "n", .text "1"), (.text "m", .text "1")] [])] := by
  have reached : shelf.Reached none := ⟨_, rfl⟩
  have held : shelf.Holds ⟨0⟩ := .state (List.mem_of_getElem? (i := 0) (by cbv))
  have payloads : numbered.Payloads transfer.arguments spelled := .intro (by decide +kernel)
  obtain ⟨ctx, σ₁, other, σ₂, P, ran, ran', alongside, first, second⟩ :=
    exists_open_alongside (reached.tidy held) (by decide +kernel) none payloads none
  obtain rfl : ctx = ⟨0⟩ := Except.ok.inj ((congrArg Prod.fst ran).symm.trans (by cbv))
  obtain rfl := congrArg Prod.snd ran
  obtain rfl : other = ⟨1⟩ := Except.ok.inj ((congrArg Prod.fst ran').symm.trans (by cbv))
  obtain rfl : overShelf = σ₂ := congrArg Prod.snd ran'
  have direct : ∀ a ∈ transfer.assignments, ∃ found,
      (overShelf.scope (overShelf.context ⟨0⟩).registry).direct? a.source = some found := by
    have found : ∀ a ∈ transfer.assignments,
        ((overShelf.scope (overShelf.context ⟨0⟩).registry).direct? a.source).isSome = true := by
      decide +kernel
    exact fun a member => Option.isSome_iff_exists.mp (found a member)
  obtain ⟨result, σ, τ, performed, performed', same, _⟩ := rules_read_their_arguments alongside direct
  have failed : result = .error (.engine (.unknownSource "y")) :=
    (congrArg Prod.fst performed).symm.trans (by decide +kernel)
  rw [first, second] at same
  have left : σ = (runFrom (performRule ⟨0⟩ transfer) overShelf).2 := (congrArg Prod.snd performed).symm
  refine ⟨σ, τ, failed ▸ performed, failed ▸ performed', same, ?_⟩
  rw [left]
  cbv

end Session

end DecisionTables
