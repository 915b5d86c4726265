import Mathlib
import DecisionTables.Proofs.Reaching

/-!
# Commands are atomic

A command works on a copy of the current state, in a context of its own.  Whatever it
has done before it fails, it has done to objects that it made itself, and nothing that
the caller can name leads to them.
-/

namespace DecisionTables

namespace Computation

variable {σ : Store}

/-- The work on the copy changes nothing that was there before. -/
theorem keeps_rehearse (c : Computation) (command : String) (request : Value) :
    Keeps Owned.nothing σ (runFrom (c.rehearse command request) σ).2 := by
  have mirrors : Pairing.blank.Mirrors σ σ := Pairing.mirrors_blank rfl
  have copies : PairsAt .blank (fun Q a b => Q.states a.index b.index) σ σ c.state.copy
      c.state.copy := pairsAt_copyWith mirrors (fun s => s) rfl
  obtain ⟨Q, advance, _⟩ := pairsAt_rehearse copies rfl rfl command request
  exact Pairing.keeps_of_blank advance

/-- A command can fail only during the work on the copy. -/
theorem keeps_of_perform_failed {c : Computation} {command : String} {request : Value} {f : Fault}
    {σ' : Store} (failed : runFrom (c.perform command request) σ = (.error f, σ')) :
    Keeps Owned.nothing σ σ' := by
  have keeps := c.keeps_rehearse (σ := σ) command request
  rw [perform_eq] at failed
  rcases runFrom_bind_error failed with worked | ⟨working, σ₁, _, adopted⟩
  · rw [worked] at keeps
    exact keeps
  · cases adopted

end Computation

namespace Session

/-- A command that fails only adds to the store. -/
theorem keeps_of_command_failed {s : Session} {which : Nat} {command : String} {request : Value}
    {f : Fault} {σ : Store}
    (failed : runFrom (s.perform (.computation which (.perform command request))) s.store =
      (.error f, σ)) : Keeps Owned.nothing s.store σ := by
  cases built : s.computations[which]? with
  | none =>
      rw [perform_missing_computation built] at failed
      cases failed
      exact .refl _
  | some c =>
      rw [perform_computation built] at failed
      rcases runFrom_bind_error failed with failed | ⟨done, σ', _, answered⟩
      · exact Computation.keeps_of_perform_failed failed
      · cases answered

/-- After a command that fails, for whatever reason and however far it came, everything that can
still be asked is answered as if the command had never been given. -/
theorem answers_after_failed_command {room : Option Nat} {s : Session} (reached : s.Reached room)
    (which : Nat) (command : String) (request : Value) (f : Fault)
    (failed : (s.step (.computation which (.perform command request))).1 = .error f)
    (later : List Operation) :
    (s.step (.computation which (.perform command request))).2.answers later =
      s.answers later := by
  obtain ⟨P, twins⟩ := reached.exists_twins
  obtain ⟨σ, failed, same⟩ := step_of_failed failed
  rw [same]
  exact twins.answers_of_keeps (keeps_of_command_failed failed) later

/-- A command that first writes to the state and then to a constant. -/
def spoil : Table :=
  .make "spoil"
    [⟨"1", [⟨.row .assignment, "counter::n", "1"⟩, ⟨.row .assignment, "5", "1"⟩]⟩] none

/-- A computation whose only command fails at its second assignment. -/
def spoiling : List Operation :=
  [.build .empty (.ofList [spoil])
    (.contents (.mapping [(.text "counter", .mapping [(.text "n", .scalar (.int 0))])]))]

theorem answers_after_spoiling :
    (((start none).after spoiling).step (.computation 0 (.perform "spoil" .null))).1 =
        .error (.engine (.readOnly "5" (.text "constant"))) ∧
      (((start none).after spoiling).step (.computation 0 (.perform "spoil" .null))).2.answers
          [.computation 0 .storedState, .computation 0 (.selfTest none)] =
        ((start none).after spoiling).answers
          [.computation 0 .storedState, .computation 0 (.selfTest none)] := by
  have failed : (((start none).after spoiling).step (.computation 0 (.perform "spoil" .null))).1 =
      .error (.engine (.readOnly "5" (.text "constant"))) := by cbv
  exact ⟨failed, answers_after_failed_command ⟨spoiling, rfl⟩ 0 "spoil" .null _ failed _⟩

end Session

end DecisionTables
