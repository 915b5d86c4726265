/-!
# Merging sorted lists

Two sorted lists become one.  As long as the lists alternate their elements are
compared one by one; when one list has won several times in a row, the number of
its elements that go first is found by doubling steps and halving (galloping).  How
many wins it takes is a threshold that falls while galloping pays and rises when it
does not.
-/

namespace DecisionTables.Sorting

variable {α : Type u}

/-! ## Places in a sorted list -/

/-- The number of elements that satisfy `p`, between two bounds and found by halving; of two middle
elements a search from the end takes the earlier one. -/
def halve (fromEnd : Bool) (p : α → Bool) (xs : List α) (low high : Nat) : Nat :=
  if low < high then
    let middle := low + (high - low - fromEnd.toNat) / 2
    if xs[middle]?.any p then halve fromEnd p xs (middle + 1) high
    else halve fromEnd p xs low middle
  else low
termination_by high - low

/-- Bounds of the number of elements that satisfy `p`, found by doubling the step. -/
def reach (p : α → Bool) (xs : List α) (last next : Nat) : Nat × Nat :=
  if next < xs.length then
    if xs[next]?.any p then reach p xs next (2 * next + 1) else (last, next)
  else (last, xs.length)
termination_by xs.length - next

/-- The number of elements at the start of a list that satisfy `p`, when those that do come first. -/
def gallop (fromEnd : Bool) (p : α → Bool) (xs : List α) : Nat :=
  if xs.head?.any p then
    let (last, next) := reach p xs 0 1
    halve fromEnd p xs (last + 1) next
  else 0

/-! ## Steps of a merge -/

/-- Two lists on the way to one. -/
structure Merge (α : Type u) where
  /-- How often one list has to win in a row before its elements are counted by galloping. -/
  threshold : Nat
  /-- The merged elements, the last one first. -/
  done : List α
  /-- The list whose element goes first when two are equal. -/
  first : List α
  second : List α

/-- A merge that goes on, or the threshold and the merged list at its end. -/
abbrev Progress (α : Type u) (β : Type u) := Except (Nat × List α) β

namespace Merge

/-- The first list ends with the greatest element of both, so its last element ends the merge. -/
def checkFirst (m : Merge α) : Progress α (Merge α) :=
  if m.first.length ≤ 1 then .error (m.threshold, m.done.reverse ++ m.second ++ m.first) else .ok m

/-- Without a second list the merge ends. -/
def checkSecond (m : Merge α) : Progress α (Merge α) :=
  if m.second.isEmpty then .error (m.threshold, m.done.reverse ++ m.first) else .ok m

/-- Move elements of the first list. -/
def takeFirst (n : Nat) (m : Merge α) : Progress α (Merge α) :=
  checkFirst
    { m with done := (m.first.take n).reverse ++ m.done, first := m.first.drop n }

/-- Move elements of the second list. -/
def takeSecond (n : Nat) (m : Merge α) : Progress α (Merge α) :=
  checkSecond
    { m with done := (m.second.take n).reverse ++ m.done, second := m.second.drop n }

/-- Compare element with element until one list has won often enough in a row. -/
def alternate (lt : α → α → Bool) : Nat → Nat → Nat → Merge α → Progress α (Merge α)
  | 0, _, _, m => .ok m
  | fuel + 1, firstWins, secondWins, m =>
    if m.second.head?.any fun y => m.first.head?.any (lt y) then do
      let m ← m.takeSecond 1
      if m.threshold ≤ secondWins + 1 then return m
      else alternate lt fuel 0 (secondWins + 1) m
    else do
      let m ← m.takeFirst 1
      if m.threshold ≤ firstWins + 1 then return m
      else alternate lt fuel (firstWins + 1) 0 m

/-- The elements of the first list that go before the second list. -/
def firstLead (lt : α → α → Bool) (fromEnd : Bool) (m : Merge α) : Nat :=
  gallop fromEnd (fun x => !m.second.head?.any (lt · x)) m.first

/-- The elements of the second list that go before the first list. -/
def secondLead (lt : α → α → Bool) (fromEnd : Bool) (m : Merge α) : Nat :=
  gallop fromEnd (fun y => m.first.head?.any (lt y)) m.second

/-- The lead that makes galloping worth while. -/
def goodLead : Nat := 7

/-- Gallop over both lists in turn as long as one of them has a good lead. -/
def gallops (lt : α → α → Bool) (fromEnd : Bool) : Nat → Merge α → Progress α (Merge α)
  | 0, m => .ok m
  | fuel + 1, m => do
    let m := { m with threshold := max 1 (m.threshold - 1) }
    if fromEnd then
      let secondCount := m.secondLead lt fromEnd
      let m ← m.takeSecond secondCount
      let m ← m.takeFirst 1
      let firstCount := m.firstLead lt fromEnd
      let m ← m.takeFirst firstCount
      let m ← m.takeSecond 1
      if goodLead ≤ firstCount || goodLead ≤ secondCount then gallops lt fromEnd fuel m
      else return { m with threshold := m.threshold + 1 }
    else
      let firstCount := m.firstLead lt fromEnd
      let m ← m.takeFirst firstCount
      let m ← m.takeSecond 1
      let secondCount := m.secondLead lt fromEnd
      let m ← m.takeSecond secondCount
      let m ← m.takeFirst 1
      if goodLead ≤ firstCount || goodLead ≤ secondCount then gallops lt fromEnd fuel m
      else return { m with threshold := m.threshold + 1 }

/-- Compare and gallop by turns. -/
def run (lt : α → α → Bool) (fromEnd : Bool) : Nat → Merge α → Progress α (Merge α)
  | 0, m => .ok m
  | fuel + 1, m => do
    let m ← m.alternate lt (m.first.length + m.second.length) 0 0
    let m ← { m with threshold := m.threshold + 1 }.gallops lt fromEnd
      (m.first.length + m.second.length)
    run lt fromEnd fuel m

/-- The threshold and the merged list when a merge has ended. -/
def result : Progress α (Merge α) → Nat × List α
  | .error ended => ended
  | .ok m => (m.threshold, m.done.reverse ++ m.first ++ m.second)

/-- The merge of two lists of which the second has the least element and the first the greatest. -/
def complete (lt : α → α → Bool) (fromEnd : Bool) (threshold : Nat) (first second : List α) :
    Nat × List α :=
  result do
    let m ← (Merge.mk threshold [] first second).takeSecond 1
    let m ← m.checkFirst
    m.run lt fromEnd (first.length + second.length)

end Merge

/-- The merge of two neighbouring sorted lists that overlap; the shorter one is walked through, from
its start or from its end. -/
def mergeOverlap (lt : α → α → Bool) (threshold : Nat) (left right : List α) : Nat × List α :=
  if left.isEmpty || right.isEmpty then (threshold, left ++ right)
  else if left.length ≤ right.length then Merge.complete lt false threshold left right
  else
    let ended := Merge.complete (fun a b => lt b a) true threshold right.reverse left.reverse
    (ended.1, ended.2.reverse)

/-- The merge of two neighbouring sorted lists, where equal elements of the left one go first.  What
lies before or behind the other list stays where it is. -/
def mergeRuns (lt : α → α → Bool) (threshold : Nat) (left right : List α) : Nat × List α :=
  let before := gallop false (fun x => !right.head?.any (lt · x)) left
  let lower := left.drop before
  let inside := right.length - gallop true (fun y => !lower.getLast?.any (lt y)) right.reverse
  let ended := mergeOverlap lt threshold lower (right.take inside)
  (ended.1, left.take before ++ ended.2 ++ right.drop inside)

/-! ## Merging moves elements and keeps them all -/

namespace Merge

/-- All elements of a merge. -/
def elements (m : Merge α) : List α :=
  m.done ++ m.first ++ m.second

/-- Whether it goes on or is at its end, a merge has the given elements. -/
def Keeps (xs : List α) : Progress α (Merge α) → Prop
  | .error result => result.2.Perm xs
  | .ok m => m.elements.Perm xs

/-- Steps one after the other keep what each of them keeps. -/
theorem keeps_bind {xs : List α} {p : Progress α (Merge α)} {f : Merge α → Progress α (Merge α)}
    (h : Keeps xs p) (k : ∀ m, m.elements.Perm xs → Keeps xs (f m)) : Keeps xs (p >>= f) := by
  cases p with
  | error result => exact h
  | ok m => exact k m h

/-- The check of the first list keeps the elements. -/
theorem keeps_checkFirst {xs : List α} {m : Merge α} (h : m.elements.Perm xs) :
    Keeps xs m.checkFirst := by
  unfold checkFirst
  split
  · refine List.Perm.trans ?_ h
    simp only [elements, List.append_assoc]
    exact (List.reverse_perm _).append List.perm_append_comm
  · exact h

/-- The check of the second list keeps the elements. -/
theorem keeps_checkSecond {xs : List α} {m : Merge α} (h : m.elements.Perm xs) :
    Keeps xs m.checkSecond := by
  unfold checkSecond
  split
  · next hs =>
    refine List.Perm.trans ?_ h
    simp only [elements, List.isEmpty_iff.1 hs, List.append_nil]
    exact (List.reverse_perm _).append_right _
  · exact h

/-- Moving elements of the first list keeps them. -/
theorem keeps_takeFirst {xs : List α} {m : Merge α} (n : Nat) (h : m.elements.Perm xs) :
    Keeps xs (m.takeFirst n) := by
  refine keeps_checkFirst (List.Perm.trans ?_ h)
  have := (List.reverse_perm (m.first.take n)).append_right m.done
  have := (this.trans List.perm_append_comm).append_right (m.first.drop n ++ m.second)
  simpa [elements, ← List.append_assoc (m.first.take n)] using this

/-- Moving elements of the second list keeps them. -/
theorem keeps_takeSecond {xs : List α} {m : Merge α} (n : Nat) (h : m.elements.Perm xs) :
    Keeps xs (m.takeSecond n) := by
  refine keeps_checkSecond (List.Perm.trans ?_ h)
  have := (List.reverse_perm (m.second.take n)).append_right (m.done ++ m.first)
  have := (this.trans List.perm_append_comm).append_right (m.second.drop n)
  simpa [elements] using this

/-- Comparing one by one keeps the elements. -/
theorem keeps_alternate (lt : α → α → Bool) {xs : List α} (fuel a b : Nat) {m : Merge α}
    (h : m.elements.Perm xs) : Keeps xs (m.alternate lt fuel a b) := by
  induction fuel generalizing a b m with
  | zero => exact h
  | succ fuel ih =>
    unfold alternate
    split
    · refine keeps_bind (keeps_takeSecond 1 h) fun m hm => ?_
      split
      · exact hm
      · exact ih _ _ hm
    · refine keeps_bind (keeps_takeFirst 1 h) fun m hm => ?_
      split
      · exact hm
      · exact ih _ _ hm

/-- Galloping keeps the elements. -/
theorem keeps_gallops (lt : α → α → Bool) (fromEnd : Bool) {xs : List α} (fuel : Nat)
    {m : Merge α} (h : m.elements.Perm xs) : Keeps xs (m.gallops lt fromEnd fuel) := by
  induction fuel generalizing m with
  | zero => exact h
  | succ fuel ih =>
    have next (a b : Nat) {m : Merge α} (hm : m.elements.Perm xs) :
        Keeps xs (if goodLead ≤ a || goodLead ≤ b then gallops lt fromEnd fuel m
          else pure { m with threshold := m.threshold + 1 }) := by
      split
      · exact ih hm
      · exact hm
    unfold gallops
    split
    · exact keeps_bind (keeps_takeSecond _ h) fun _ h => keeps_bind (keeps_takeFirst _ h)
        fun _ h => keeps_bind (keeps_takeFirst _ h) fun _ h =>
          keeps_bind (keeps_takeSecond _ h) fun _ h => next _ _ h
    · exact keeps_bind (keeps_takeFirst _ h) fun _ h => keeps_bind (keeps_takeSecond _ h)
        fun _ h => keeps_bind (keeps_takeSecond _ h) fun _ h =>
          keeps_bind (keeps_takeFirst _ h) fun _ h => next _ _ h

/-- Both by turns keep the elements. -/
theorem keeps_run (lt : α → α → Bool) (fromEnd : Bool) {xs : List α} (fuel : Nat)
    {m : Merge α} (h : m.elements.Perm xs) : Keeps xs (m.run lt fromEnd fuel) := by
  induction fuel generalizing m with
  | zero => exact h
  | succ fuel ih =>
    exact keeps_bind (keeps_alternate lt _ _ _ h) fun _ h =>
      keeps_bind (keeps_gallops lt fromEnd _ h) fun _ h => ih h

/-- A whole merge has the elements of both lists. -/
theorem complete_perm (lt : α → α → Bool) (fromEnd : Bool) (threshold : Nat)
    (first second : List α) :
    (complete lt fromEnd threshold first second).2.Perm (first ++ second) := by
  have ended {p : Progress α (Merge α)} (h : Keeps (first ++ second) p) :
      (result p).2.Perm (first ++ second) := by
    cases p with
    | error ended => exact h
    | ok m =>
      exact (((List.reverse_perm _).append_right _).append_right _).trans h
  exact ended (keeps_bind (keeps_takeSecond 1 (.refl _)) fun _ h =>
    keeps_bind (keeps_checkFirst h) fun _ h => keeps_run lt fromEnd _ h)

end Merge

/-- The merge of overlapping lists has the elements of both. -/
theorem mergeOverlap_perm (lt : α → α → Bool) (threshold : Nat) (left right : List α) :
    (mergeOverlap lt threshold left right).2.Perm (left ++ right) := by
  unfold mergeOverlap
  split
  · exact .refl _
  · split
    · exact Merge.complete_perm ..
    · refine (List.reverse_perm _).trans ((Merge.complete_perm ..).trans ?_)
      exact ((List.reverse_perm right).append (List.reverse_perm left)).trans List.perm_append_comm

/-- A merge has the elements of both lists. -/
theorem mergeRuns_perm (lt : α → α → Bool) (threshold : Nat) (left right : List α) :
    (mergeRuns lt threshold left right).2.Perm (left ++ right) := by
  unfold mergeRuns
  refine (((mergeOverlap_perm lt threshold _ _).append_left _).append_right _).trans (.of_eq ?_)
  simp only [← List.append_assoc, List.take_append_drop]
  simp only [List.append_assoc, List.take_append_drop]

end DecisionTables.Sorting
