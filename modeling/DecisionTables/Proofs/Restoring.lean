import Mathlib
import DecisionTables.Proofs.Circling
import DecisionTables.Proofs.Confining
import DecisionTables.Proofs.Exchanging

/-!
# Decisions on restored states

A state that was read in from the text of another has the values of the other, with the keys of
nested mappings in order, under the names that the sources were registered by.  Wherever a
table reaches only fragments whose text does not depend on that order, it is decided alike on
both states.
-/

namespace DecisionTables

/-! ## Permuted entries -/

namespace Assoc

theorem find?_text_of_mem {ν : Type v} {a : Assoc Scalar ν} (distinct : Distinct a) {key : String} {v : ν}
    (member : (.text key, v) ∈ a) : find? a (.text key) = some v := by
  induction a with
  | nil => exact absurd member List.not_mem_nil
  | cons head rest ih =>
      obtain ⟨k, w⟩ := head
      obtain ⟨apart, distinct⟩ := List.pairwise_cons.mp distinct
      rw [find?]
      rcases List.mem_cons.mp member with same | later
      · cases same
        rw [Scalar.text_beq, beq_self_eq_true, if_pos rfl]
      · rw [if_neg (Bool.eq_false_iff.mp (apart _ later))]
        exact ih distinct later

theorem find?_text_iff {ν : Type v} {a : Assoc Scalar ν} (distinct : Distinct a) {key : String} {v : ν} :
    find? a (.text key) = some v ↔ (.text key, v) ∈ a := by
  refine ⟨fun found => ?_, find?_text_of_mem distinct⟩
  obtain ⟨k, equal, member⟩ := exists_mem_of_find? found
  obtain rfl := Scalar.eq_text_of_beq equal
  exact member

/-- Among distinct entries the order does not matter for what is found. -/
theorem find?_text_perm {ν : Type v} {a b : Assoc Scalar ν} (distinct : Distinct a) (same : a.Perm b)
    (key : String) : find? a (.text key) = find? b (.text key) := by
  refine Option.ext fun v => ?_
  rw [find?_text_iff distinct, find?_text_iff (distinct.perm same), same.mem_iff]

end Assoc

/-! ## What a context finds -/

namespace ContextId

/-- Opening a context on a state gives a context that finds the sources of the state, and under other
names what it brings along. -/
theorem exists_open_finds {σ : Store} {state : StateId} (tidy : σ.Tidy (σ.state state))
    (catalog : Option Catalog) (request : Source) (backend : Option Backend) :
    ∃ ctx opened own, runFrom (ContextId.open state catalog request backend) σ = (.ok ctx, opened) ∧
      σ.FreshOver opened ctx state own ∧ (opened.context ctx).catalog = catalog ∧
      ∀ name, (Assoc.find? (opened.scope (opened.context ctx).registry) name).map Prod.snd =
        ((σ.holdings state).find? name).or
          (((Brought.ofContext request.name catalog).find? name).map (·.getD request)) := by
  obtain ⟨ctx, opened, own, ran, fresh, equipped, _⟩ := exists_open_with tidy catalog request backend
  have states : opened.state state = σ.state state := by rw [Store.state, Store.state, fresh.states]
  refine ⟨ctx, opened, own, ran, fresh, equipped.catalog_eq, fun name => ?_⟩
  rw [Store.scope, Assoc.find?_mapValues, fresh.above.registry, states, Assoc.find?_insertAll tidy.distinct,
    Store.holdings, Assoc.find?_mapValues]
  cases stored : (σ.state state).find? name with
  | some id =>
      have inside := tidy.known id (Assoc.mem_values_of_find? stored)
      exact congrArg some (fresh.keeps.source_eq inside not_false)
  | none =>
      have related : Option.Rel (opened.Brings (opened.context ctx).request) (own.find? name)
          ((Brought.ofContext request.name catalog).find? name) :=
        Assoc.find?_rel equipped.registers fun _ _ same => by rw [same]
      revert related
      generalize own.find? name = left
      generalize (Brought.ofContext request.name catalog).find? name = right
      intro related
      cases related with
      | none => rfl
      | @some id what brings =>
          cases what with
          | none =>
              obtain rfl : id = (opened.context ctx).request := brings
              exact congrArg some (Store.source_of_getElem? equipped.requested)
          | some s => exact congrArg some (Store.source_of_getElem? brings.2)

end ContextId

/-! ## Restored values -/

namespace Value

/-- The values of a source with the keys inside them in order. -/
def restored (values : Assoc Scalar Value) : Assoc Scalar Value :=
  sortedIfPossible (values.mapValues sortedWherePossible)

theorem find?_restored {values : Assoc Scalar Value} (distinct : Assoc.Distinct values) (fragment : String) :
    (restored values).find? (.text fragment) =
      (values.find? (.text fragment)).map sortedWherePossible := by
  have moved := (sortedIfPossible_perm (values.mapValues sortedWherePossible)).symm
  rw [restored, ← Assoc.find?_text_perm (distinct.mapValues _) moved, Assoc.find?_mapValues]

end Value

namespace StateId

variable {σ τ : Store} {state copy : StateId} {inner : Assoc Scalar (Assoc Scalar Value)}

theorem Stores.find?_holdings (stores : Stores τ copy inner) (name : String) :
    (τ.holdings copy).find? (.text name) =
      (inner.find? (.text name)).map fun values => .stored (.text name) values [] := by
  rw [Stores] at stores
  rw [Store.holdings]
  generalize τ.state copy = registry at stores ⊢
  induction stores with
  | nil => rfl
  | @cons entry registered rest registry head _ ih =>
      obtain ⟨key, values⟩ := entry
      obtain ⟨key', id⟩ := registered
      obtain ⟨rfl, held⟩ := head
      change (Assoc.find? ((key, τ.source id) :: Assoc.mapValues τ.source registry) (.text name)) = _
      rw [Assoc.find?, Assoc.find?, ih]
      split
      · rename_i same
        rw [Scalar.eq_text_of_beq same] at held
        exact congrArg some (Store.source_of_getElem? held)
      · rfl

/-- The sources of a state that was read in have the values of the other state, restored. -/
theorem find?_holdings_restored {P : Scalar → Prop} (keyed : (nested σ state).Keyed P)
    (sorted : (nested σ state).sortedWherePossible = .mapping (Assoc.mapValues Value.mapping inner))
    (stores : Stores τ copy inner) (name : String) :
    (τ.holdings copy).find? (.text name) = ((σ.holdings state).find? (.text name)).map fun s =>
      .stored (.text name) (Value.restored s.values) [] := by
  rw [nested] at keyed sorted
  have distinct : Assoc.Distinct (exportFrom σ (σ.state state)) := by
    cases keyed with
    | mapping _ distinct _ => exact distinct
  rw [Value.sortedWherePossible_mapping, Value.mapping.injEq] at sorted
  have moved := (Value.sortedIfPossible_perm
    ((exportFrom σ (σ.state state)).mapValues Value.sortedWherePossible)).symm
  have found := Assoc.find?_text_perm (distinct.mapValues _) moved name
  rw [sorted, exportFrom, Assoc.find?_mapValues, Assoc.find?_mapValues, Assoc.find?_mapValues] at found
  rw [stores.find?_holdings, Store.holdings, Assoc.find?_mapValues]
  revert found
  generalize inner.find? (.text name) = left
  generalize (σ.state state).find? (.text name) = right
  intro found
  cases right with
  | none =>
      rw [Option.map_eq_none_iff.mp found.symm]
      rfl
  | some id =>
      obtain ⟨values, rfl, same⟩ := Option.map_eq_some_iff.mp found.symm
      rw [Value.sortedWherePossible_mapping, Value.mapping.injEq] at same
      rw [same]
      rfl

/-! ## Fragments that stay what they are -/

/-- A fragment does not change when its state is written and read in: it is not one of the state, its
text does not depend on the order of keys, or it is not there and the source has the name that it is
under. -/
inductive Intact (σ : Store) (state : StateId) (c : Coordinate) : Prop where
  | elsewhere (unknown : (σ.holdings state).find? (.text c.source) = none) : Intact σ state c
  | value {s v} (stored : (σ.holdings state).find? (.text c.source) = some s)
      (found : s.values.find? (.text c.fragment) = some v)
      (same : v.sortedWherePossible.fragmentText = v.fragmentText) : Intact σ state c
  | missing {s} (stored : (σ.holdings state).find? (.text c.source) = some s)
      (unknown : s.values.find? (.text c.fragment) = none) (named : s.name = .text c.source) :
      Intact σ state c

/-- A value in order is intact. -/
theorem Intact.of_ordered {c : Coordinate} {s : Source} {v : Value}
    (stored : (σ.holdings state).find? (.text c.source) = some s)
    (found : s.values.find? (.text c.fragment) = some v) (ordered : v.Ordered) : Intact σ state c :=
  .value stored found (congrArg Value.fragmentText ordered.sorted_eq)

end StateId

namespace Source

variable {s : Source} {fragment : String}

theorem InMemory.direct?_value {v : Value} (memory : s.InMemory)
    (found : s.values.find? (.text fragment) = some v) : s.direct? fragment = some (.ok v.fragmentText) := by
  obtain ⟨kind, values, defaults, content⟩ := memory
  rw [Source.values, content] at found
  simp only [direct?, content, found]

theorem InMemory.direct?_missing (memory : s.InMemory) (unknown : s.values.find? (.text fragment) = none) :
    s.direct? fragment = some (.error (.engine (.missingFragment fragment s.name))) := by
  obtain ⟨kind, values, defaults, content⟩ := memory
  rw [Source.values, content] at unknown
  simp only [direct?, content, unknown]

theorem ReadAlike.refl (fragment : String) (s : Source) : s.ReadAlike fragment s := by
  rcases s.direct_or_computed fragment with ⟨result, direct⟩ | ⟨t, content⟩ | ⟨named, condition, content, found⟩
  · exact .direct direct direct
  · obtain ⟨name, _⟩ := s
    cases content
    exact .table t
  · obtain ⟨name, _⟩ := s
    cases content
    exact .conditions found found

/-- What a source is when its state was written and read in. -/
def restored (s : Source) (name : String) : Source :=
  .stored (.text name) (Value.restored s.values) []

theorem inMemory_restored (s : Source) (name : String) : (s.restored name).InMemory :=
  ⟨.stored, _, [], rfl⟩

end Source

namespace Scope

/-- One scope finds the sources of a state, all of them in memory, and the other one finds them with
their values restored; under other names both find the same, and nowhere named conditions. -/
structure Restores (holdings : Assoc Scalar Source) (brought : Scalar → Option Source)
    (scope scope' : Scope) : Prop where
  left : ∀ name, (Assoc.find? scope name).map Prod.snd = (holdings.find? name).or (brought name)
  right : ∀ name : String, (Assoc.find? scope' (.text name)).map Prod.snd =
    ((holdings.find? (.text name)).map (·.restored name)).or (brought (.text name))
  memory : ∀ {name s}, holdings.find? name = some s → s.InMemory ∧ Assoc.Distinct s.values
  plain : ∀ {name s}, brought name = some s → ∀ named, s.content ≠ .conditions named
  apart : scope.Apart
  apart' : scope'.Apart

variable {holdings : Assoc Scalar Source} {brought : Scalar → Option Source} {scope scope' : Scope}
  {c : Coordinate} {s : Source} {reach : Coordinate → Prop}

theorem exists_of_map_snd {name : Scalar} (found : (Assoc.find? scope name).map Prod.snd = some s) :
    ∃ id, Assoc.find? scope name = some (id, s) := by
  obtain ⟨⟨id, _⟩, there, rfl⟩ := Option.map_eq_some_iff.mp found
  exact ⟨id, there⟩

namespace Restores

theorem found (restores : Restores holdings brought scope scope') {name : String}
    (stored : holdings.find? (.text name) = some s) :
    (∃ id, Assoc.find? scope (.text name) = some (id, s)) ∧
      ∃ id', Assoc.find? scope' (.text name) = some (id', s.restored name) := by
  constructor
  · exact exists_of_map_snd ((restores.left _).trans (by rw [stored]; rfl))
  · exact exists_of_map_snd ((restores.right _).trans (by rw [stored]; rfl))

/-- What a fragment of the state is before and after. -/
theorem direct? (restores : Restores holdings brought scope scope') {name fragment : String}
    (stored : holdings.find? (.text name) = some s) :
    (∀ v, s.values.find? (.text fragment) = some v → s.direct? fragment = some (.ok v.fragmentText) ∧
      (s.restored name).direct? fragment = some (.ok v.sortedWherePossible.fragmentText)) ∧
    (s.values.find? (.text fragment) = none →
      s.direct? fragment = some (.error (.engine (.missingFragment fragment s.name))) ∧
      (s.restored name).direct? fragment =
        some (.error (.engine (.missingFragment fragment (.text name))))) := by
  obtain ⟨memory, distinct⟩ := restores.memory stored
  have found := Value.find?_restored distinct fragment
  refine ⟨fun v there => ⟨memory.direct?_value there, ?_⟩, fun unknown => ⟨memory.direct?_missing unknown, ?_⟩⟩
  · rw [there] at found
    exact (s.inMemory_restored name).direct?_value found
  · rw [unknown] at found
    exact (s.inMemory_restored name).direct?_missing found

/-- Intact fragments are read alike. -/
theorem readAlike {σ : Store} {state : StateId}
    (restores : Restores (σ.holdings state) brought scope scope') (intact : StateId.Intact σ state c) :
    scope.ReadAlike scope' c := by
  cases intact with
  | elsewhere unknown =>
      have left := restores.left (.text c.source)
      have right := restores.right c.source
      rw [unknown] at left right
      cases own : brought (.text c.source) with
      | none =>
          rw [own] at left right
          exact .missing (Option.map_eq_none_iff.mp left) (Option.map_eq_none_iff.mp right)
      | some s =>
          rw [own] at left right
          obtain ⟨id, found⟩ := exists_of_map_snd left
          obtain ⟨id', found'⟩ := exists_of_map_snd right
          exact .found found found' (.refl _ s)
  | @value s v stored found same =>
      obtain ⟨⟨id, there⟩, id', there'⟩ := restores.found stored
      obtain ⟨before, after⟩ := (restores.direct? stored).1 v found
      rw [same] at after
      exact .found there there' (.direct before after)
  | @missing s stored unknown named =>
      obtain ⟨⟨id, there⟩, id', there'⟩ := restores.found stored
      obtain ⟨before, after⟩ := (restores.direct? stored).2 unknown
      rw [← named] at after
      exact .found there there' (.direct before after)

theorem follow_eq_none (restores : Restores holdings brought scope scope') (c : Coordinate) :
    scope.follow c = none := by
  cases follows : scope.follow c with
  | none => rfl
  | some next =>
      obtain ⟨id, source, named, condition, found, content, _⟩ := condition_of_follow follows
      have there := restores.left (.text c.source)
      rw [found] at there
      cases stored : holdings.find? (.text c.source) with
      | some s =>
          obtain ⟨kind, values, defaults, memory⟩ := (restores.memory stored).1
          rw [stored] at there
          cases there
          cases content.symm.trans memory
      | none =>
          rw [stored] at there
          exact absurd content (restores.plain there.symm named)

/-- The scopes agree on intact fragments which lead to no others. -/
theorem agree {σ : Store} {state : StateId} (restores : Restores (σ.holdings state) brought scope scope')
    (intact : ∀ c, reach c → StateId.Intact σ state c)
    (tables : ∀ {c id source u}, reach c → Assoc.find? scope (.text c.source) = some (id, source) →
      source.content = .table u → ∀ next ∈ u.subjects, reach next) : scope.Agree scope' reach where
  reads c reached := restores.readAlike (intact c reached)
  tables := tables
  conditions {c _} _ follows := by
    rw [restores.follow_eq_none c] at follows
    cases follows
  ends c _ endless := endless 1 (by rw [chain, restores.follow_eq_none c]; rfl)
  apart := restores.apart
  apart' := restores.apart'

end Restores

/-- The coordinates that a coordinate leads to: itself, and the subjects of the tables that it leads
to. -/
inductive LeadsTo (scope : Scope) (c : Coordinate) : Coordinate → Prop where
  | self : LeadsTo scope c c
  | table {d id source u next} (earlier : LeadsTo scope c d)
      (found : Assoc.find? scope (.text d.source) = some (id, source))
      (content : source.content = .table u) (member : next ∈ u.subjects) : LeadsTo scope c next

/-- What is found without computing anything is what is read. -/
theorem resolve_direct {id : SourceId} {source : Source} {result : Except Fault String}
    (found : Assoc.find? scope (.text c.source) = some (id, source))
    (direct : source.direct? c.fragment = some result) (room : Option Nat) (p : Progress) :
    (runFrom (scope.resolve room c) p).1 = result := by
  have shown : scope.direct? c = some result := by
    rw [direct?, found]
    exact direct
  rw [runFrom_resolve_direct shown]

end Scope

/-! ## Decisions before and after -/

/-- What two contexts read, one over a state and one over what was read in from its text. -/
structure StateId.Survives (σ : Store) (state : StateId) (catalog : Catalog) (ctx : ContextId)
    (opened : Store) (ctx' : ContextId) (opened' : Store) : Prop where
  /-- A stored value is read with the keys inside it in order. -/
  values : ∀ {c : Coordinate} {s v}, (σ.holdings state).find? (.text c.source) = some s →
    s.values.find? (.text c.fragment) = some v →
    (runFrom (ctx.read c) opened).1 = .ok v.fragmentText ∧
      (runFrom (ctx'.read c) opened').1 = .ok v.sortedWherePossible.fragmentText
  /-- That a fragment is not there is said with the name that its source is under. -/
  missing : ∀ {c : Coordinate} {s}, (σ.holdings state).find? (.text c.source) = some s →
    s.values.find? (.text c.fragment) = none →
    (runFrom (ctx.read c) opened).1 = .error (.engine (.missingFragment c.fragment s.name)) ∧
      (runFrom (ctx'.read c) opened').1 =
        .error (.engine (.missingFragment c.fragment (.text c.source)))
  /-- What leads to intact fragments only is read alike. -/
  coordinates : ∀ c, (∀ d, (opened.scope (opened.context ctx).registry).LeadsTo c d → Intact σ state d) →
    (runFrom (ctx.read c) opened).1 = (runFrom (ctx'.read c) opened').1
  /-- A table that reaches intact fragments only is decided alike. -/
  tables : ∀ name t, catalog.table name = .ok t →
    (∀ d, (opened.scope (opened.context ctx).registry).Reaches t d → Intact σ state d) →
    (runFrom (ctx.outcome name) opened).1 = (runFrom (ctx'.outcome name) opened').1

/-- What a context brings along under a name. -/
def Brought.source? (catalog : Catalog) (request : Source) (name : Scalar) : Option Source :=
  ((Brought.ofContext request.name (some catalog)).find? name).map (·.getD request)

/-- Nothing that a context brings along with a request of values is a named condition. -/
theorem Brought.plain {catalog : Catalog} {request : Assoc Scalar Value} {name : Scalar} {s : Source}
    (own : source? catalog (.requestOf request) name = some s) (named : Assoc String Condition) :
    s.content ≠ .conditions named := by
  obtain ⟨what, found, same⟩ := Option.map_eq_some_iff.mp own
  cases what with
  | none =>
      obtain rfl : Source.requestOf request = s := same
      exact fun impossible => by cases impossible
  | some t =>
      obtain rfl : t = s := same
      have fixed := fixed_of_mem (Assoc.mem_values_of_find? found)
      exact fun content => by rw [Source.Fixed, content] at fixed; exact fixed

theorem StateId.distinct_values {σ : Store} {state : StateId} {P : Scalar → Prop}
    (keyed : (nested σ state).Keyed P) {entry : Scalar × Source} (member : entry ∈ σ.holdings state) :
    Assoc.Distinct entry.2.values := by
  obtain ⟨⟨name, id⟩, registered, rfl⟩ := List.mem_map.mp member
  cases keyed with
  | mapping _ _ each =>
      have inside : (name, Value.mapping (σ.source id).values) ∈ exportFrom σ (σ.state state) :=
        List.mem_map.mpr ⟨_, registered, rfl⟩
      cases each _ inside with
      | mapping _ distinct _ => exact distinct

namespace Session

variable {room : Option Nat} {s s' : Session} {state : StateId}

/-- A text is read in as a state that the session then holds. -/
theorem step_readJson {text : String} {copy : StateId} {τ : Store}
    (made : runFrom (StateId.ofJson text) s.store = (.ok copy, τ)) :
    s.step (.readJson text) = (.ok .done, { s with store := τ, states := s.states ++ [copy] }) := by
  rw [step_eq]
  have performs : s.perform (.readJson text) = StateId.ofJson text >>= fun id => pure (.state id) := rfl
  rw [performs, runFrom_bind_ok made]
  rfl

/-- Contexts of the same tables and request over a state and over its restored values. -/
theorem survives_of_restores {σ τ opened opened' : Store} {ctx ctx' : ContextId} {copy : StateId}
    {own own' : Registry} {catalog : Catalog} {brought : Scalar → Option Source}
    (fresh : σ.FreshOver opened ctx state own) (fresh' : τ.FreshOver opened' ctx' copy own')
    (rooms : τ.room = σ.room) (known : (opened.context ctx).catalog = some catalog)
    (known' : (opened'.context ctx').catalog = some catalog)
    (restores : Scope.Restores (σ.holdings state) brought (opened.scope (opened.context ctx).registry)
      (opened'.scope (opened'.context ctx').registry)) :
    StateId.Survives σ state catalog ctx opened ctx' opened' := by
  have read (c : Coordinate) : (runFrom (ctx.read c) opened).1 =
      (runFrom ((opened.scope (opened.context ctx).registry).resolve σ.room c) .start).1 :=
    fresh.runFrom_evaluate fun resolve => resolve c
  have read' (c : Coordinate) : (runFrom (ctx'.read c) opened').1 =
      (runFrom ((opened'.scope (opened'.context ctx').registry).resolve σ.room c) .start).1 := by
    rw [← rooms]
    exact fresh'.runFrom_evaluate fun resolve => resolve c
  constructor
  case values =>
    intro c source v stored found
    obtain ⟨⟨id, there⟩, id', there'⟩ := restores.found stored
    obtain ⟨before, after⟩ := (restores.direct? stored).1 v found
    rw [read, read']
    exact ⟨Scope.resolve_direct there before _ _, Scope.resolve_direct there' after _ _⟩
  case missing =>
    intro c source stored unknown
    obtain ⟨⟨id, there⟩, id', there'⟩ := restores.found stored
    obtain ⟨before, after⟩ := (restores.direct? stored).2 unknown
    rw [read, read']
    exact ⟨Scope.resolve_direct there before _ _, Scope.resolve_direct there' after _ _⟩
  case coordinates =>
    intro c intact
    have agree := restores.agree intact fun reached found content _ member =>
      .table reached found content member
    rw [read, read']
    exact (Scope.alike_start _ _).fst_eq (agree.tracks_resolve [] .self σ.room)
  case tables =>
    intro name t named intact
    have agree := restores.agree intact fun reached found content _ member =>
      .table reached found content member
    have found : (runFrom (ctx.table name) opened).1 = .ok t := by
      rw [ContextId.runFrom_table known, named]
      rfl
    have found' : (runFrom (ctx'.table name) opened').1 = .ok t := by
      rw [ContextId.runFrom_table known', named]
      rfl
    rw [ContextId.runFrom_outcome_of_found found, ContextId.runFrom_outcome_of_found found',
      fresh.runFrom_evaluate, fresh'.runFrom_evaluate, rooms]
    exact agree.decideOnce_eq (fun _ => .subject) σ.room

/-- Decisions survive that a state is written and read in, wherever the state was read in. -/
theorem decisions_survive_json (reached : s.Reached room) (reached' : s'.Reached room)
    (held : s.Holds state) (memory : ∀ entry ∈ s.store.holdings state, entry.2.InMemory)
    (keyed : (StateId.nested s.store state).Keyed Scalar.Portable)
    (shallow : (StateId.nested s.store state).depth ≤ Nesting.exportRoom) (catalog : Catalog)
    (request : Assoc Scalar Value) (backend : Option Backend) :
    ∃ text copy t ctx opened ctx' opened', runFrom state.toJson s.store = (.ok text, s.store) ∧
      s'.step (.readJson text) = (.ok .done, t) ∧ t.states = s'.states ++ [copy] ∧
      runFrom (ContextId.open state (some catalog) (.requestOf request) backend) s.store =
        (.ok ctx, opened) ∧
      runFrom (ContextId.open copy (some catalog) (.requestOf request) backend) t.store =
        (.ok ctx', opened') ∧
      StateId.Survives s.store state catalog ctx opened ctx' opened' := by
  obtain ⟨inner, copy, τ, sorted, made, stores, tidy'⟩ :=
    StateId.exists_ofJson keyed shallow s'.store
  obtain ⟨ctx, opened, own, ran, fresh, known, finds⟩ :=
    ContextId.exists_open_finds (reached.tidy held) (some catalog) (.requestOf request) backend
  obtain ⟨ctx', opened', own', ran', fresh', known', finds'⟩ :=
    ContextId.exists_open_finds tidy' (some catalog) (.requestOf request) backend
  have after := reached'.after [.readJson (Json.writeArranged (StateId.nested s.store state).sortedWherePossible)]
  rw [Session.after, step_readJson made, Session.after] at after
  have rooms : τ.room = s.store.room := Eq.trans after.room_eq reached.room_eq.symm
  have restores : Scope.Restores (s.store.holdings state) (Brought.source? catalog (.requestOf request))
      (opened.scope (opened.context ctx).registry) (opened'.scope (opened'.context ctx').registry) := by
    refine ⟨finds, fun name => ?_, fun {name source} stored => ?_, fun own => Brought.plain own,
      opened.apart_scope fresh.above.registered.1, opened'.apart_scope fresh'.above.registered.1⟩
    · rw [finds', StateId.find?_holdings_restored keyed sorted stores]
      rfl
    · obtain ⟨key, _, member⟩ := Assoc.exists_mem_of_find? stored
      exact ⟨memory _ member, StateId.distinct_values keyed member⟩
  exact ⟨_, copy, _, ctx, opened, ctx', opened', StateId.runFrom_toJson keyed shallow,
    step_readJson made, rfl, ran, ran', survives_of_restores fresh fresh' rooms known known' restores⟩

/-- A nested mapping with keys out of order, and a number. -/
def roster : Value :=
  .mapping [(.text "x", .mapping [(.text "list", .mapping [(.text "b", .null), (.text "a", .null)]),
    (.text "n", .text "1")])]

/-- The nested mapping in order. -/
def sortedRoster : Value :=
  .mapping [(.text "x", .mapping [(.text "list", .mapping [(.text "a", .null), (.text "b", .null)]),
    (.text "n", .text "1")])]

/-- A session with a state of the nested mapping. -/
def rostered : Session := (start none).after [.newState (.contents roster)]

theorem keyed_roster : roster.Keyed Scalar.Portable ∧ sortedRoster.Keyed Scalar.Portable := by
  have null : Value.null.Keyed Scalar.Portable := .scalar trivial
  constructor
  · exact .single trivial (.pair (by decide) trivial trivial
      (.pair (by decide) trivial trivial null null) (.scalar trivial))
  · exact .single trivial (.pair (by decide) trivial trivial
      (.pair (by decide) trivial trivial null null) (.scalar trivial))

theorem sorted_roster : roster.sortedWherePossible = sortedRoster := by cbv

/-- A table on the number. -/
def numberTable : Table :=
  .make "number" [⟨"one", [⟨.row .condition, "x::n", "1"⟩, ⟨.row .outcome, "outcome", "one"⟩]⟩] none

/-- The store with a context over this table and the state. -/
def overRoster : Store :=
  (runFrom (ContextId.open ⟨0⟩ (some (.ofList [numberTable])) (.requestOf []) none) rostered.store).2

theorem reached_from_number {c : Coordinate}
    (reached : (overRoster.scope (overRoster.context ⟨0⟩).registry).Reaches numberTable c) :
    c = ⟨"x", "n"⟩ := by
  induction reached with
  | subject member =>
      have subjects : numberTable.subjects = [⟨"x", "n"⟩] := by decide
      rw [subjects] at member
      exact List.mem_singleton.mp member
  | table _ found content _ earlier =>
      cases earlier
      cases found
      cases content
  | condition _ follows earlier =>
      cases earlier
      cases follows

/-- The table is decided alike, and the keys of the other value are in order. -/
theorem roster_survives :
    ∃ text copy t opened', runFrom (StateId.toJson ⟨0⟩) rostered.store = (.ok text, rostered.store) ∧
      rostered.step (.readJson text) = (.ok .done, t) ∧ t.states = rostered.states ++ [copy] ∧
      ∃ ctx', runFrom (ContextId.open copy (some (.ofList [numberTable])) (.requestOf []) none) t.store =
          (.ok ctx', opened') ∧
        (runFrom (ctx'.read ⟨"x", "list"⟩) opened').1 = .ok "\x7b'a': None, 'b': None\x7d" ∧
        (runFrom (ContextId.outcome ⟨0⟩ "number") overRoster).1 = (runFrom (ctx'.outcome "number") opened').1 := by
  have reached : rostered.Reached none := ⟨_, rfl⟩
  have held : rostered.Holds ⟨0⟩ := .state (List.mem_singleton.mpr rfl)
  have value : StateId.nested rostered.store ⟨0⟩ = roster := rfl
  have memory : ∀ entry ∈ rostered.store.holdings ⟨0⟩, entry.2.InMemory := by
    intro entry member
    obtain rfl := List.mem_singleton.mp member
    exact ⟨.stored, _, [], rfl⟩
  obtain ⟨text, copy, t, ctx, opened, ctx', opened', written, read, states, ran, ran', survives⟩ :=
    decisions_survive_json reached reached held memory (value ▸ keyed_roster.1) (by rw [value]; decide)
      (.ofList [numberTable]) [] none
  obtain rfl : ContextId.mk 0 = ctx := Except.ok.inj (congrArg Prod.fst ran)
  obtain rfl : overRoster = opened := congrArg Prod.snd ran
  refine ⟨text, copy, t, opened', written, read, states, ctx', ran', ?_, ?_⟩
  · have after := (survives.values (c := ⟨"x", "list"⟩) rfl rfl).2
    exact after.trans (congrArg Except.ok (by cbv))
  · refine survives.tables "number" numberTable rfl fun d reached => ?_
    rw [reached_from_number reached]
    exact .of_ordered rfl rfl .scalar

/-- The text of a value with keys out of order is another one after the state was written and read
in. -/
theorem order_of_keys_is_lost :
    (runFrom (StateId.read ⟨0⟩ "x" "list") rostered.store).1.toOption = some "\x7b'b': None, 'a': None\x7d" ∧
      ∃ text copy τ, runFrom (StateId.toJson ⟨0⟩) rostered.store = (.ok text, rostered.store) ∧
        runFrom (StateId.ofJson text) rostered.store = (.ok copy, τ) ∧
        (runFrom (copy.read "x" "list") τ).1.toOption = some "\x7b'a': None, 'b': None\x7d" := by
  have held : StateId.nested rostered.store ⟨0⟩ = roster := rfl
  have sorted : (StateId.nested rostered.store ⟨0⟩).sortedWherePossible = sortedRoster :=
    sorted_roster
  have written := StateId.runFrom_toJson (held ▸ keyed_roster.1) (by rw [held]; decide)
  rw [sorted] at written
  have parsed : Json.parse (Json.writeArranged sortedRoster) = .ok sortedRoster :=
    Json.parse_writeArranged keyed_roster.2 (by decide)
  refine ⟨by decide +kernel, _, ⟨1⟩, (runFrom (StateId.ofValue sortedRoster) rostered.store).2, written, ?_,
    by decide +kernel⟩
  rw [StateId.ofJson, parsed]
  rfl

end Session

end DecisionTables
