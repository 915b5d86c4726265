import DecisionTables.Proofs.Lockstep.Opening
import DecisionTables.State.Exchange

/-!
# Stored states in lockstep

What is read from a stored state, written to it, copied from it and made of a text, in
lockstep with a state that stands for it.
-/

namespace DecisionTables

section

variable {P : Pairing} {σ τ : Store} {state state' : StateId}

/-! ## What a state holds -/

namespace Pairing.Mirrors

/-- Registries that stand for each other list the same names with the same sources. -/
theorem map_eq {α : Type} (mirrors : P.Mirrors σ τ) {r s : Registry}
    (registries : P.Registries r s) (f : Scalar → Source → α) :
    r.map (fun entry => f entry.1 (σ.source entry.2)) =
      s.map (fun entry => f entry.1 (τ.source entry.2)) := by
  induction registries with
  | nil => rfl
  | cons head _ ih =>
      rw [List.map_cons, List.map_cons, ih, head.1, mirrors.source_eq head.2]

theorem keys_eq (mirrors : P.Mirrors σ τ) (pair : P.states state.index state'.index) :
    (σ.state state).keys = (τ.state state').keys :=
  mirrors.map_eq (mirrors.state_rel pair) fun name _ => name

theorem exportFrom_eq (mirrors : P.Mirrors σ τ) (pair : P.states state.index state'.index) :
    StateId.exportFrom σ (σ.state state) = StateId.exportFrom τ (τ.state state') :=
  mirrors.map_eq (mirrors.state_rel pair) fun name source => (name, Value.mapping source.values)

end Pairing.Mirrors

theorem pairsAt_stateNames (mirrors : P.Mirrors σ τ) (pair : P.states state.index state'.index) :
    PairsAt P Same σ τ state.names state'.names := by
  apply pairsAt_get
  exact pairsAt_pure mirrors (mirrors.keys_eq pair)

theorem pairsAt_stateContains (mirrors : P.Mirrors σ τ)
    (pair : P.states state.index state'.index) (name : String) :
    PairsAt P Same σ τ (state.contains name) (state'.contains name) := by
  apply pairsAt_get
  exact pairsAt_pure mirrors ((mirrors.state_rel pair).contains_eq _)

theorem pairsAt_export (mirrors : P.Mirrors σ τ) (pair : P.states state.index state'.index) :
    PairsAt P Same σ τ state.export state'.export := by
  apply pairsAt_get
  exact pairsAt_pure mirrors (mirrors.exportFrom_eq pair)

theorem pairsAt_display (mirrors : P.Mirrors σ τ) (pair : P.states state.index state'.index) :
    PairsAt P Same σ τ state.display state'.display := by
  apply pairsAt_bind (pairsAt_stateNames mirrors pair)
  rintro Q σ' τ' names _ advance rfl
  apply pairsAt_bind (pairsAt_ofExcept advance.mirrors _)
  rintro Q' σ'' τ'' sorted _ advance' rfl
  exact pairsAt_pure advance'.mirrors rfl

/-! ## Single sources -/

theorem pairsAt_stateFind (mirrors : P.Mirrors σ τ) (pair : P.states state.index state'.index)
    (name : String) :
    PairsAt P (fun _ i j => P.sources i.index j.index) σ τ (state.find name)
      (state'.find name) := by
  apply pairsAt_get
  have found : Option.Rel (fun i j : SourceId => P.sources i.index j.index)
      ((σ.state state).find? (.text name)) ((τ.state state').find? (.text name)) :=
    Assoc.find?_rel (mirrors.state_rel pair) fun _ _ same => by rw [same]
  revert found
  generalize (σ.state state).find? (.text name) = left
  generalize (τ.state state').find? (.text name) = right
  intro found
  cases found with
  | none => exact pairsAt_throw mirrors _
  | some related => exact pairsAt_pure mirrors related

theorem pairsAt_stateFindSource (mirrors : P.Mirrors σ τ)
    (pair : P.states state.index state'.index) (name : String) :
    PairsAt P Same σ τ (state.findSource name) (state'.findSource name) := by
  apply pairsAt_get
  apply pairsAt_bind (pairsAt_stateFind mirrors pair name)
  intro Q σ' τ' i j advance related
  exact pairsAt_pure advance.mirrors (mirrors.source_eq related)

theorem pairsAt_stateRead (mirrors : P.Mirrors σ τ) (pair : P.states state.index state'.index)
    (name fragment : String) :
    PairsAt P Same σ τ (state.read name fragment) (state'.read name fragment) := by
  apply pairsAt_bind (pairsAt_stateFindSource mirrors pair name)
  rintro Q σ' τ' source _ advance rfl
  exact pairsAt_ofExcept advance.mirrors _

theorem pairsAt_stateWrite (mirrors : P.Mirrors σ τ) (pair : P.states state.index state'.index)
    (name fragment : String) (value : Value) :
    PairsAt P Same σ τ (state.write name fragment value) (state'.write name fragment value) := by
  apply pairsAt_bind (pairsAt_stateFind mirrors pair name)
  intro Q σ' τ' i j advance related
  exact pairsAt_writeSource advance.mirrors (advance.le.sources related) fragment value

/-! ## Copies and texts -/

theorem pairsAt_stateCopy (mirrors : P.Mirrors σ τ) (pair : P.states state.index state'.index) :
    PairsAt P (fun Q a b => Q.states a.index b.index) σ τ state.copy state'.copy := by
  apply pairsAt_copyWith mirrors
  exact mirrors.map_eq (mirrors.state_rel pair) fun name source => (name, source)

/-- A copy of a state has sources of its own, and they hold the same under the same names. -/
theorem StateId.exists_copy {id : StateId} (tidy : σ.Tidy (σ.state id)) :
    ∃ (r : Registry) (σ' : Store), runFrom id.copy σ =
        (.ok ⟨σ'.states.size⟩, { σ' with states := σ'.states.push r }) ∧ σ'.Tidy r ∧
      List.Forall₂ (fun e f => e.1 = f.1 ∧
        ∃ s, σ.sources[e.2.index]? = some s ∧ σ'.sources[f.2.index]? = some s) (σ.state id) r := by
  have distinct : Assoc.Distinct ((σ.state id).map fun entry => (entry.1, σ.source entry.2)) := by
    rw [Assoc.Distinct, List.pairwise_map]
    exact tidy.distinct
  obtain ⟨r, σ', added, _, entries⟩ :=
    runFrom_addSources ((σ.state id).map fun entry => (entry.1, σ.source entry.2)) σ
  refine ⟨r, σ', ?_, tidy_of_addSources distinct added, ?_⟩
  · change runFrom (StateId.create _) σ = _
    rw [StateId.create, distinct.ofList_eq, runFrom_bind_ok added]
    rfl
  · rw [List.forall₂_map_left_iff] at entries
    rw [List.forall₂_iff_zip] at entries ⊢
    refine ⟨entries.1, fun {e f} inside => ?_⟩
    obtain ⟨name, found⟩ := entries.2 inside
    obtain ⟨s, held, settled⟩ := tidy.settled e (List.of_mem_zip inside).1
    rw [Store.source_of_getElem? held, settled.nameIfBlank_eq] at found
    exact ⟨name, s, held, found⟩

theorem pairsAt_toWritable (mirrors : P.Mirrors σ τ) (pair : P.states state.index state'.index) :
    PairsAt P Same σ τ state.toWritable state'.toWritable := by
  apply pairsAt_bind (pairsAt_export mirrors pair)
  rintro Q σ' τ' entries _ advance rfl
  simp only []
  split
  · exact pairsAt_throw advance.mirrors _
  · split
    · exact pairsAt_pure advance.mirrors rfl
    · exact pairsAt_throw advance.mirrors _

theorem pairsAt_toJson (mirrors : P.Mirrors σ τ) (pair : P.states state.index state'.index) :
    PairsAt P Same σ τ state.toJson state'.toJson := by
  apply pairsAt_bind (pairsAt_toWritable mirrors pair)
  rintro Q σ' τ' value _ advance rfl
  exact pairsAt_ofExcept advance.mirrors _

theorem pairsAt_toYaml (mirrors : P.Mirrors σ τ) (pair : P.states state.index state'.index) :
    PairsAt P Same σ τ state.toYaml state'.toYaml := by
  apply pairsAt_bind (pairsAt_toWritable mirrors pair)
  rintro Q σ' τ' value _ advance rfl
  simp only []
  split
  · exact pairsAt_throw advance.mirrors _
  · exact pairsAt_pure advance.mirrors rfl

theorem pairsAt_ofValue (mirrors : P.Mirrors σ τ) (value : Value) :
    PairsAt P (fun Q a b => Q.states a.index b.index) σ τ (StateId.ofValue value)
      (StateId.ofValue value) := by
  unfold StateId.ofValue
  split
  · exact pairsAt_create mirrors []
  · split
    · exact pairsAt_ofNested mirrors _
    · exact pairsAt_throw mirrors _
  · exact pairsAt_throw mirrors _

theorem pairsAt_ofJson (mirrors : P.Mirrors σ τ) (text : String) :
    PairsAt P (fun Q a b => Q.states a.index b.index) σ τ (StateId.ofJson text)
      (StateId.ofJson text) := by
  apply pairsAt_bind (pairsAt_ofExcept mirrors (Json.parse text))
  rintro Q σ' τ' value _ advance rfl
  exact pairsAt_ofValue advance.mirrors value

theorem pairsAt_ofYaml (mirrors : P.Mirrors σ τ) (text : String) :
    PairsAt P (fun Q a b => Q.states a.index b.index) σ τ (StateId.ofYaml text)
      (StateId.ofYaml text) := by
  apply pairsAt_bind (pairsAt_ofExcept mirrors (Yaml.parse text))
  rintro Q σ' τ' value _ advance rfl
  exact pairsAt_ofValue advance.mirrors value

end

end DecisionTables
