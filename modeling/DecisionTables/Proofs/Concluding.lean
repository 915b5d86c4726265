import Mathlib
import DecisionTables.Proofs.Deciding
import DecisionTables.Proofs.Opened
import DecisionTables.Computation

/-!
# Decisions end

A decision ends with the texts of an outcome or with an error of the engine, unless it
goes deeper than it can.  It does so exactly where it comes to named conditions that
refer to each other without an end, which the engine does not notice as it notices a
table that needs itself, or to a place below which not enough room for nesting is left.
-/

namespace DecisionTables

theorem Store.All.provided {σ : Store} {r : Registry}
    (all : σ.All (fun s => s.content ≠ .bare) r) : (σ.scope r).Provided := by
  intro entry member
  obtain ⟨registered, inside, rfl⟩ := List.mem_map.mp member
  exact all registered inside

section

variable {scope : Scope}

end

/-! ## Decisions -/

namespace Decisions

variable {σ : Store}

theorem runFrom_outcome {ctx : ContextId} {catalog : Catalog}
    (found : (σ.context ctx).catalog = some catalog) (table : String) :
    (runFrom (ctx.outcome table) σ).1 =
      match catalog.table table with
      | .ok t => (runFrom (t.decideOnce (σ.resolver ctx)) (σ.progress ctx)).1
      | .error error => .error (.engine error) := by
  rw [ContextId.outcome, runFrom_bind, ContextId.runFrom_table found]
  cases catalog.table table with
  | ok t => exact congrArg Prod.fst (ctx.runFrom_evaluate t.decideOnce σ)
  | error error => rfl

/-- A context that decisions open is over sources from which something can be read. -/
theorem exists_open (d : Decisions) {state : StateId}
    (provided : σ.All (fun s => s.content ≠ .bare) (σ.state state)) {request : Value}
    {values : Assoc Scalar Value} (valid : request.toMapping = .ok values) :
    ∃ ctx opened, runFrom (d.open (.stored state) request) σ = (.ok ctx, opened) ∧
      opened.room = σ.room ∧ opened.Opened (fun s => s.content ≠ .bare) ctx d.catalog := by
  have constant : Source.constant.content ≠ .bare := fun impossible => by cases impossible
  have tables : ∀ t ∈ d.catalog.tables, (Source.ofTable t).content ≠ .bare :=
    fun _ _ impossible => by cases impossible
  have requested : (Source.requestOf values).content ≠ .bare := fun impossible => by cases impossible
  obtain ⟨ctx, opened, ran, room, open'⟩ :=
    ContextId.exists_open (S := fun s => s.content ≠ .bare) constant tables requested provided d.backend
  have chosen : runFrom (StateChoice.stateOr d.state (.stored state)) σ = (.ok state, σ) := rfl
  have requests : runFrom (requestOfValue request) σ = (.ok (.requestOf values), σ) := by
    rw [requestOfValue, valid]
    rfl
  refine ⟨ctx, opened, ?_, room, open'⟩
  rw [Decisions.open, runFrom_bind_ok chosen, runFrom_bind_ok requests, ran]

/-- Decisions by a table that reads a named condition. -/
def reading : Decisions :=
  ⟨.ofList [.make "T" [⟨"1", [⟨.row .condition, "conditions::a", "true"⟩]⟩] none], ⟨0⟩, none⟩

end Decisions

end DecisionTables
