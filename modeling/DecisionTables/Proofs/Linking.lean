import DecisionTables.Store
import Mathlib.Data.List.Forall2

/-!
# Linked stores

Two stores can hold the same objects under different identities.  A `Pairing` says
which identity of one store stands for which identity of the other, and
`Mirrors` says that what stands for each other holds the same contents.  `Keeps`
says what a step leaves alone: everything outside the objects it may name, and of a
source everything but its values.
-/

namespace DecisionTables

/-! ## Lists side by side -/

section

variable {α β γ : Type}

theorem forall₂_append {R : α → β → Prop} {xs ys : List α} {zs : List β}
    (related : List.Forall₂ R (xs ++ ys) zs) :
    ∃ us vs, zs = us ++ vs ∧ List.Forall₂ R xs us ∧ List.Forall₂ R ys vs := by
  induction xs generalizing zs with
  | nil => exact ⟨[], zs, rfl, .nil, related⟩
  | cons x xs ih =>
      obtain ⟨z, zs, head, tail, rfl⟩ := List.forall₂_cons_left_iff.mp related
      obtain ⟨us, vs, rfl, left, right⟩ := ih tail
      exact ⟨z :: us, vs, rfl, .cons head left, right⟩

theorem forall₂_trans {R : α → β → Prop} {S : β → γ → Prop} {T : α → γ → Prop}
    (both : ∀ a b c, R a b → S b c → T a c) {xs : List α} {ys : List β} {zs : List γ}
    (first : List.Forall₂ R xs ys) (second : List.Forall₂ S ys zs) : List.Forall₂ T xs zs := by
  induction first generalizing zs with
  | nil =>
      cases second
      exact .nil
  | cons head _ ih =>
      cases second with
      | cons head' tail' => exact .cons (both _ _ _ head head') (ih tail')

theorem exists_of_forall₂_mem {R : α → β → Prop} {xs : List α} {ys : List β}
    (related : List.Forall₂ R xs ys) {y : β} (member : y ∈ ys) : ∃ x ∈ xs, R x y := by
  induction related with
  | nil => exact absurd member List.not_mem_nil
  | cons head _ ih =>
      rcases List.mem_cons.mp member with rfl | later
      · exact ⟨_, List.mem_cons_self, head⟩
      · obtain ⟨x, inside, pair⟩ := ih later
        exact ⟨x, List.mem_cons_of_mem _ inside, pair⟩

end

/-! ## Arrays -/

/-- Cells of two arrays that stand for each other hold related contents, and none stands for two. -/
structure Linked {α β : Type} (R : Nat → Nat → Prop) (C : α → β → Prop)
    (xs : Array α) (ys : Array β) : Prop where
  single : ∀ {i j k l}, R i j → R k l → (i = k ↔ j = l)
  content : ∀ {i j}, R i j → ∃ x y, xs[i]? = some x ∧ ys[j]? = some y ∧ C x y

/-- Every cell of the first array is in the second with related contents; what is not owned is
unchanged. -/
def Kept {α : Type} (owned : Nat → Prop) (C : α → α → Prop) (xs ys : Array α) : Prop :=
  ∀ i x, xs[i]? = some x → ∃ y, ys[i]? = some y ∧ C x y ∧ (¬ owned i → y = x)

/-- One more pair stands for each other. -/
def orPair (R : Nat → Nat → Prop) (i j : Nat) : Nat → Nat → Prop :=
  fun k l => R k l ∨ k = i ∧ l = j

/-- Pairs that were not there before are pairs of cells that were not there before. -/
def Newer (R S : Nat → Nat → Prop) (m n : Nat) : Prop :=
  ∀ i j, S i j → R i j ∨ m ≤ i ∧ n ≤ j

section

variable {α β : Type} {R : Nat → Nat → Prop} {C : α → β → Prop}
variable {xs : Array α} {ys : Array β}

namespace Newer

variable {S : Nat → Nat → Prop} {m n : Nat}

theorem refl (R : Nat → Nat → Prop) (m n : Nat) : Newer R R m n :=
  fun _ _ pair => .inl pair

theorem trans {T : Nat → Nat → Prop} {m' n' : Nat} (first : Newer R S m n)
    (second : Newer S T m' n') (left : m ≤ m') (right : n ≤ n') : Newer R T m n := by
  intro i j pair
  rcases second i j pair with pair | ⟨outside, outside'⟩
  · exact first i j pair
  · exact .inr ⟨Nat.le_trans left outside, Nat.le_trans right outside'⟩

theorem orPair (R : Nat → Nat → Prop) (m n : Nat) : Newer R (orPair R m n) m n := by
  rintro i j (pair | ⟨rfl, rfl⟩)
  · exact .inl pair
  · exact .inr ⟨Nat.le_refl _, Nat.le_refl _⟩

theorem left_old (newer : Newer R S m n) (i : Nat) (inside : i < m) :
    (∃ j, S i j) → ∃ j, R i j := by
  rintro ⟨j, pair⟩
  rcases newer i j pair with pair | ⟨outside, _⟩
  · exact ⟨j, pair⟩
  · omega

theorem right_old (newer : Newer R S m n) (j : Nat) (inside : j < n) :
    (∃ i, S i j) → ∃ i, R i j := by
  rintro ⟨i, pair⟩
  rcases newer i j pair with pair | ⟨_, outside⟩
  · exact ⟨i, pair⟩
  · omega

end Newer

namespace Linked

theorem empty (xs : Array α) (ys : Array β) : Linked (fun _ _ => False) C xs ys :=
  ⟨fun impossible => impossible.elim, fun impossible => impossible.elim⟩

theorem left_lt (linked : Linked R C xs ys) {i j : Nat} (pair : R i j) : i < xs.size := by
  obtain ⟨x, _, found, _⟩ := linked.content pair
  exact (Array.getElem?_eq_some_iff.mp found).1

theorem right_lt (linked : Linked R C xs ys) {i j : Nat} (pair : R i j) : j < ys.size := by
  obtain ⟨_, y, _, found, _⟩ := linked.content pair
  exact (Array.getElem?_eq_some_iff.mp found).1

theorem mono {D : α → β → Prop} (linked : Linked R C xs ys)
    (weaker : ∀ {x y}, C x y → D x y) : Linked R D xs ys := by
  refine ⟨linked.single, fun pair => ?_⟩
  obtain ⟨x, y, left, right, content⟩ := linked.content pair
  exact ⟨x, y, left, right, weaker content⟩

/-- The cells that are added at both ends stand for each other. -/
theorem push (linked : Linked R C xs ys) {x : α} {y : β} (content : C x y) :
    Linked (orPair R xs.size ys.size) C (xs.push x) (ys.push y) := by
  constructor
  · rintro i j k l (first | ⟨rfl, rfl⟩) (second | ⟨rfl, rfl⟩)
    · exact linked.single first second
    · have left := linked.left_lt first
      have right := linked.right_lt first
      constructor <;> intro same <;> omega
    · have left := linked.left_lt second
      have right := linked.right_lt second
      constructor <;> intro same <;> omega
    · exact ⟨fun _ => rfl, fun _ => rfl⟩
  · rintro i j (pair | ⟨rfl, rfl⟩)
    · obtain ⟨x', y', left, right, related⟩ := linked.content pair
      have leftNe := Nat.ne_of_lt (linked.left_lt pair)
      have rightNe := Nat.ne_of_lt (linked.right_lt pair)
      refine ⟨x', y', ?_, ?_, related⟩
      · rw [Array.getElem?_push, if_neg leftNe, left]
      · rw [Array.getElem?_push, if_neg rightNe, right]
    · exact ⟨x, y, Array.getElem?_push_size, Array.getElem?_push_size, content⟩

/-- Cells that stand for each other are replaced together. -/
theorem set (linked : Linked R C xs ys) {i j : Nat} (pair : R i j) {x : α} {y : β}
    (content : C x y) : Linked R C (xs.setIfInBounds i x) (ys.setIfInBounds j y) := by
  refine ⟨linked.single, ?_⟩
  intro k l other
  by_cases same : i = k
  · have same' := (linked.single pair other).mp same
    subst same same'
    refine ⟨x, y, ?_, ?_, content⟩
    · exact Array.getElem?_setIfInBounds_self_of_lt (linked.left_lt pair)
    · exact Array.getElem?_setIfInBounds_self_of_lt (linked.right_lt pair)
  · have differ : j ≠ l := fun eq => same ((linked.single pair other).mpr eq)
    obtain ⟨x', y', left, right, related⟩ := linked.content other
    refine ⟨x', y', ?_, ?_, related⟩
    · rw [Array.getElem?_setIfInBounds_ne same, left]
    · rw [Array.getElem?_setIfInBounds_ne differ, right]

end Linked

namespace Kept

variable {owned : Nat → Prop} {D : α → α → Prop} {zs : Array α}

theorem refl (reflexive : ∀ x, D x x) (xs : Array α) : Kept owned D xs xs :=
  fun _ x found => ⟨x, found, reflexive x, fun _ => rfl⟩

theorem size_le (kept : Kept owned D xs zs) : xs.size ≤ zs.size := by
  by_contra less
  have inside : zs.size < xs.size := by omega
  obtain ⟨y, found, _⟩ := kept zs.size xs[zs.size] (Array.getElem?_eq_getElem inside)
  exact Nat.lt_irrefl _ (Array.getElem?_eq_some_iff.mp found).1

/-- A later step may own what was added before it, and of the rest only what was owned before. -/
theorem trans {later : Nat → Prop} {ws : Array α} (transitive : ∀ x y z, D x y → D y z → D x z)
    (first : Kept owned D xs zs) (second : Kept later D zs ws)
    (fresh : ∀ i, i < xs.size → later i → owned i) : Kept owned D xs ws := by
  intro i x found
  obtain ⟨y, found', related, same⟩ := first i x found
  obtain ⟨z, found'', related', same'⟩ := second i y found'
  refine ⟨z, found'', transitive x y z related related', fun free => ?_⟩
  have inside := (Array.getElem?_eq_some_iff.mp found).1
  rw [same' fun late => free (fresh i inside late), same free]

theorem push (reflexive : ∀ x, D x x) (xs : Array α) (x : α) : Kept owned D xs (xs.push x) := by
  intro i y found
  have inside := (Array.getElem?_eq_some_iff.mp found).1
  refine ⟨y, ?_, reflexive y, fun _ => rfl⟩
  rw [Array.getElem?_push, if_neg (Nat.ne_of_lt inside), found]

theorem set (reflexive : ∀ x, D x x) {i : Nat} (own : owned i) {x : α}
    (related : ∀ y, xs[i]? = some y → D y x) : Kept owned D xs (xs.setIfInBounds i x) := by
  intro k y found
  by_cases same : i = k
  · subst same
    have inside := (Array.getElem?_eq_some_iff.mp found).1
    exact ⟨x, Array.getElem?_setIfInBounds_self_of_lt inside, related y found,
      fun free => (free own).elim⟩
  · refine ⟨y, ?_, reflexive y, fun _ => rfl⟩
    rw [Array.getElem?_setIfInBounds_ne same, found]

theorem mono {more : Nat → Prop} (kept : Kept owned D xs zs) (le : ∀ i, owned i → more i) :
    Kept more D xs zs := by
  intro i x found
  obtain ⟨y, found', related, same⟩ := kept i x found
  exact ⟨y, found', related, fun free => same fun own => free (le i own)⟩

end Kept

/-- Cells stand for each other for as long as none of them is owned by what changes. -/
theorem Linked.keepFree {owned owned' : Nat → Prop} {D : α → α → Prop} {E : β → β → Prop}
    {xs' : Array α} {ys' : Array β} (linked : Linked R C xs ys) (left : Kept owned D xs xs')
    (right : Kept owned' E ys ys') (free : ∀ {i j}, R i j → ¬ owned i)
    (free' : ∀ {i j}, R i j → ¬ owned' j) : Linked R C xs' ys' := by
  refine ⟨linked.single, fun pair => ?_⟩
  obtain ⟨x, y, found, found', content⟩ := linked.content pair
  obtain ⟨x', now, _, same⟩ := left _ x found
  obtain ⟨y', now', _, same'⟩ := right _ y found'
  rw [same (free pair)] at now
  rw [same' (free' pair)] at now'
  exact ⟨x, y, now, now', content⟩

/-- Cells stand for each other for as long as they are kept. -/
theorem Linked.keep {D : α → α → Prop} {E : β → β → Prop} {xs' : Array α} {ys' : Array β}
    (linked : Linked R C xs ys) (left : Kept (fun _ => False) D xs xs')
    (right : Kept (fun _ => False) E ys ys') : Linked R C xs' ys' :=
  linked.keepFree left right (fun _ => id) fun _ => id

end

end DecisionTables
