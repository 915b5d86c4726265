import DecisionTables.Proofs.Pairing
import DecisionTables.Proofs.Remembering

/-!
# Evaluations on linked sources

An evaluation does not depend on the identities of the sources it sees.  On sources
that stand for each other, and from memories that stand for each other, it gives the
same result and leaves memories that stand for each other again.
-/

namespace DecisionTables

namespace Assoc

variable {κ ι ν μ : Type} [BEq κ] [BEq ι]
variable {K : κ → ι → Prop} {R : ν → μ → Prop}

/-- Keys that are alike find values that are alike. -/
theorem find?_rel {a : Assoc κ ν} {b : Assoc ι μ} {k : κ} {l : ι}
    (related : List.Forall₂ (fun e f => K e.1 f.1 ∧ R e.2 f.2) a b)
    (keys : ∀ e f, K e f → (e == k) = (f == l)) :
    Option.Rel R (find? a k) (find? b l) := by
  induction related with
  | nil => exact .none
  | @cons e f a b head _ ih =>
      obtain ⟨e, v⟩ := e
      obtain ⟨f, w⟩ := f
      have same := keys e f head.1
      by_cases found : (e == k) = true
      · have found' : (f == l) = true := by rw [← same, found]
        simp only [find?, found, found', if_true]
        exact .some head.2
      · have missed : (f == l) ≠ true := by rw [← same]; exact found
        simp only [find?, found, missed]
        exact ih

theorem insert_rel {a : Assoc κ ν} {b : Assoc ι μ} {k : κ} {l : ι} {v : ν} {w : μ}
    (related : List.Forall₂ (fun e f => K e.1 f.1 ∧ R e.2 f.2) a b)
    (keys : ∀ e f, K e f → (e == k) = (f == l)) (key : K k l) (value : R v w) :
    List.Forall₂ (fun e f => K e.1 f.1 ∧ R e.2 f.2) (insert a k v) (insert b l w) := by
  induction related with
  | nil => exact .cons ⟨key, value⟩ .nil
  | @cons e f a b head tail ih =>
      obtain ⟨e, x⟩ := e
      obtain ⟨f, y⟩ := f
      have same := keys e f head.1
      by_cases found : (e == k) = true
      · have found' : (f == l) = true := by rw [← same, found]
        simp only [insert, found, found', if_true]
        exact .cons ⟨head.1, value⟩ tail
      · have missed : (f == l) ≠ true := by rw [← same]; exact found
        simp only [insert, found, missed]
        exact .cons head ih

theorem insertAll_rel {a more : Assoc κ ν} {b more' : Assoc κ μ}
    (related : List.Forall₂ (fun e f => e.1 = f.1 ∧ R e.2 f.2) a b)
    (added : List.Forall₂ (fun e f => e.1 = f.1 ∧ R e.2 f.2) more more') :
    List.Forall₂ (fun e f => e.1 = f.1 ∧ R e.2 f.2) (insertAll a more) (insertAll b more') := by
  induction added generalizing a b with
  | nil => exact related
  | @cons e f _ _ head _ ih =>
      refine ih (insert_rel (K := fun k l => k = l) related ?_ head.1 head.2)
      intro _ _ same
      rw [same, head.1]

end Assoc

namespace Pairing

variable {P : Pairing}

/-- Going along on memories and traces that stand for each other. -/
def tracking (P : Pairing) : Tracking where
  rel p q := P.Memos p.memo q.memo ∧ P.shown p.trace q.trace
  gaps _ := False
  slips _ := False
  rel_reported e related := ⟨related.1, P.shown_push e related.2⟩

/-- No source stands for two others. -/
def Single (P : Pairing) : Prop :=
  ∀ {i j k l}, P.sources i j → P.sources k l → (i = k ↔ j = l)

/-- The same sources under the same names, by identities that stand for each other. -/
def Scopes (P : Pairing) : Scope → Scope → Prop :=
  List.Forall₂ fun e f => e.1 = f.1 ∧ P.sources e.2.1.index f.2.1.index ∧ e.2.2 = f.2.2

theorem verdictKeys (single : P.Single) {id id' : SourceId} (pair : P.sources id.index id'.index)
    (name : String) (e f : SourceId × String)
    (keys : P.sources e.1.index f.1.index ∧ e.2 = f.2) : (e == (id, name)) = (f == (id', name)) := by
  have same := single keys.1 pair
  rw [Bool.eq_iff_iff, beq_iff_eq, beq_iff_eq, Prod.ext_iff, Prod.ext_iff]
  have identity : ∀ a b : SourceId, a = b ↔ a.index = b.index := by
    rintro ⟨a⟩ ⟨b⟩
    simp
  rw [identity, identity, same, keys.2]

theorem Memos.find_verdict (single : P.Single) {m n : Memo} (memos : P.Memos m n)
    {id id' : SourceId} (pair : P.sources id.index id'.index) (name : String) :
    m.verdicts.find? (id, name) = n.verdicts.find? (id', name) := by
  have related : List.Forall₂
      (fun e f => (P.sources e.1.1.index f.1.1.index ∧ e.1.2 = f.1.2) ∧ e.2 = f.2)
      m.verdicts n.verdicts :=
    List.Forall₂.imp (fun _ _ h => ⟨⟨h.1, h.2.1⟩, h.2.2⟩) memos.verdicts
  have found := Assoc.find?_rel (R := fun x y => x = y) related (verdictKeys single pair name)
  revert found
  generalize m.verdicts.find? (id, name) = x
  generalize n.verdicts.find? (id', name) = y
  intro found
  cases found with
  | none => rfl
  | some same => rw [same]

theorem Memos.insert_verdict (single : P.Single) {m n : Memo} (memos : P.Memos m n)
    {id id' : SourceId} (pair : P.sources id.index id'.index) (name text : String) :
    P.Verdicts (m.verdicts.insert (id, name) text) (n.verdicts.insert (id', name) text) := by
  have related : List.Forall₂
      (fun e f => (P.sources e.1.1.index f.1.1.index ∧ e.1.2 = f.1.2) ∧ e.2 = f.2)
      m.verdicts n.verdicts :=
    List.Forall₂.imp (fun _ _ h => ⟨⟨h.1, h.2.1⟩, h.2.2⟩) memos.verdicts
  have inserted := Assoc.insert_rel (R := fun x y => x = y) related
    (verdictKeys single pair name) ⟨pair, rfl⟩ (rfl : text = text)
  exact List.Forall₂.imp (fun _ _ h => ⟨h.1.1, h.1.2, h.2⟩) inserted

theorem remembers (P : Pairing) : P.tracking.Remembers where
  outcomes related := related.1.outcomes
  computing related := related.1.computing
  entering name related :=
    ⟨{ related.1 with computing := congrArg (name :: ·) related.1.computing }, related.2⟩
  leaving name related :=
    ⟨{ related.1 with computing := congrArg (List.erase · name) related.1.computing }, related.2⟩
  knowing name o related :=
    ⟨{ related.1 with outcomes := congrArg (Assoc.insert · name o) related.1.outcomes }, related.2⟩

theorem tracks_read (single : P.Single) {r s : Resolver}
    (along : ∀ c, P.tracking.Tracks (r c) (s c)) {id id' : SourceId}
    (pair : P.sources id.index id'.index) (source : Source) (fragment : String) :
    P.tracking.Tracks (source.read r id fragment) (source.read s id' fragment) := by
  refine Tracking.tracks_read P.remembers along ?_ ?_ source fragment
  · exact fun name related => related.1.find_verdict single pair name
  · intro p q name text related
    exact ⟨{ related.1 with verdicts := related.1.insert_verdict single pair name text }, related.2⟩

theorem tracks_resolveWithin (single : P.Single) {scope scope' : Scope}
    (scopes : P.Scopes scope scope') (depth : Nat) (room : Option Nat) (c : Coordinate) :
    P.tracking.Tracks (scope.resolveWithin depth room c) (scope'.resolveWithin depth room c) := by
  induction depth generalizing room c with
  | zero => exact Tracking.tracks_throw _
  | succ depth ih =>
      have found : Option.Rel
          (fun e f => P.sources e.1.index f.1.index ∧ e.2 = f.2)
          (Assoc.find? scope (.text c.source)) (Assoc.find? scope' (.text c.source)) :=
        Assoc.find?_rel scopes fun e f same => by rw [same]
      simp only [Scope.resolveWithin]
      revert found
      generalize Assoc.find? scope (.text c.source) = first
      generalize Assoc.find? scope' (.text c.source) = second
      intro found
      cases found with
      | none => exact Tracking.tracks_fail _
      | @some e f related =>
          obtain ⟨id, source⟩ := e
          obtain ⟨id', source'⟩ := f
          obtain ⟨pair, same⟩ := related
          simp only at pair same
          subst same
          cases below : Scope.roomBelow source room with
          | none =>
              simp only [below]
              exact tracks_read single (fun _ => Tracking.tracks_throw _) pair source _
          | some left =>
              simp only [below]
              exact tracks_read single (ih left) pair source _

theorem Scopes.tableCount_eq {scope scope' : Scope} (scopes : P.Scopes scope scope') :
    scope.tableCount = scope'.tableCount := by
  induction scopes with
  | nil => rfl
  | cons head _ ih => simp only [Scope.tableCount, ih, head.2.2]

theorem Scopes.conditionCount_eq {scope scope' : Scope} (scopes : P.Scopes scope scope') :
    scope.conditionCount = scope'.conditionCount := by
  induction scopes with
  | nil => rfl
  | cons head _ ih => simp only [Scope.conditionCount, ih, head.2.2]

theorem Scopes.depth_eq {scope scope' : Scope} (scopes : P.Scopes scope scope') :
    scope.depth = scope'.depth := by
  rw [Scope.depth, Scope.depth, scopes.tableCount_eq, scopes.conditionCount_eq]

theorem tracks_resolve (single : P.Single) {scope scope' : Scope}
    (scopes : P.Scopes scope scope') (room : Option Nat) (c : Coordinate) :
    P.tracking.Tracks (scope.resolve room c) (scope'.resolve room c) := by
  rw [Scope.resolve, Scope.resolve, scopes.depth_eq]
  exact tracks_resolveWithin single scopes _ room c

theorem tracks_readFrom (single : P.Single) {scope scope' : Scope} (scopes : P.Scopes scope scope')
    (room : Option Nat) {id id' : SourceId} (pair : P.sources id.index id'.index) (source : Source)
    (fragment : String) :
    P.tracking.Tracks (scope.readFrom room id source fragment)
      (scope'.readFrom room id' source fragment) := by
  rw [Scope.readFrom, Scope.readFrom, scopes.depth_eq]
  cases Scope.roomBelow source room with
  | none => exact tracks_read single (fun _ => Tracking.tracks_throw _) pair source fragment
  | some left => exact tracks_read single (tracks_resolveWithin single scopes _ left) pair source fragment

end Pairing

end DecisionTables
