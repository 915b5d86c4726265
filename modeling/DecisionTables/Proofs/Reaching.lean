import DecisionTables.Proofs.Replay

/-!
# Sessions that are reached

Every session that operations lead to is a twin of itself: nothing in it names an
object that was never made.  So a step that keeps the store as it was cannot be told
from no step at all, however the session goes on.
-/

namespace DecisionTables

namespace Pairing

variable {P : Pairing}

/-- Nothing stands for anything, and traces are related in some way. -/
def apart (shown : Trace → Trace → Prop) (empty : shown #[] #[])
    (push : ∀ {t u : Trace} (e : Event), shown t u → shown (t.push e) (u.push e)) : Pairing where
  sources _ _ := False
  states _ _ := False
  contexts _ _ := False
  traces _ _ := False
  shown := shown
  shown_empty := empty
  shown_push := push

/-- Nothing stands for anything yet, and traces are the same. -/
def blank : Pairing :=
  apart (fun t u => t = u) rfl fun _ same => by rw [same]

theorem mirrors_blank {σ τ : Store} (room : σ.room = τ.room) : blank.Mirrors σ τ :=
  ⟨room, .empty _ _, .empty _ _, .empty _ _, .empty _ _, fun impossible => impossible.elim⟩

/-- Without pairs a step may change nothing that it finds. -/
theorem keeps_of_blank {σ τ σ' τ' : Store} {Q : Pairing}
    (advance : blank.Advance Q σ τ σ' τ') : Keeps Owned.nothing σ σ' :=
  advance.left.mono (fun _ ⟨_, impossible⟩ => impossible) (fun _ ⟨_, impossible⟩ => impossible)
    fun _ ⟨_, impossible⟩ => impossible

theorem twins_start (room : Option Nat) : blank.Twins (.start room) (.start room) :=
  ⟨mirrors_blank rfl, id, .nil, .nil, .nil⟩

theorem Twins.keep {s t : Session} (twins : P.Twins s t) {τ : Store}
    (keeps : Keeps Owned.nothing t.store τ) : P.Twins s { t with store := τ } :=
  ⟨twins.mirrors.keep (.refl _) keeps, twins.shown, twins.computations, twins.contexts, twins.states⟩

/-- What only adds to the store changes no later answer. -/
theorem Twins.answers_of_keeps {s : Session} (twins : P.Twins s s) {σ : Store}
    (keeps : Keeps Owned.nothing s.store σ) (later : List Operation) :
    Session.answers { s with store := σ } later = s.answers later :=
  ((twins.keep keeps).answers_eq later).symm

end Pairing

namespace Session

/-- The session is what operations lead to from the start. -/
def Reached (room : Option Nat) (s : Session) : Prop :=
  ∃ history, (start room).after history = s

theorem Reached.exists_twins {room : Option Nat} {s : Session} (reached : s.Reached room) :
    ∃ P : Pairing, P.Twins s s := by
  obtain ⟨history, rfl⟩ := reached
  obtain ⟨P, _, twins⟩ := (Pairing.twins_start room).after history
  exact ⟨P, twins⟩

theorem after_append (s : Session) (ops more : List Operation) :
    s.after (ops ++ more) = (s.after ops).after more := by
  induction ops generalizing s with
  | nil => rfl
  | cons op rest ih => exact ih _

theorem Reached.after {room : Option Nat} {s : Session} (reached : s.Reached room)
    (ops : List Operation) : (s.after ops).Reached room := by
  obtain ⟨history, rfl⟩ := reached
  exact ⟨history ++ ops, after_append _ history ops⟩

/-- The room for nesting never changes. -/
theorem Reached.room_eq {room : Option Nat} {s : Session} (reached : s.Reached room) :
    s.store.room = room := by
  obtain ⟨history, rfl⟩ := reached
  have along : ∀ {P : Pairing} {s : Session}, P.Twins s s →
      (s.after history).store.room = s.store.room := by
    induction history with
    | nil => exact fun _ => rfl
    | cons op rest ih =>
        intro P s twins
        obtain ⟨_, Q, _, twins'⟩ := twins.step op
        obtain ⟨_, replay, _⟩ := replaysAt_operation twins op
        rw [Session.after, ih twins', store_step, replay.left.room]
  exact along (Pairing.twins_start room)

end Session

end DecisionTables
