import DecisionTables.Sorting.Merge

/-!
# Sorting by runs

A list is cut into runs that are in order already, short runs are made longer by
inserting what follows them, and neighbouring runs are merged.  Where the order
compares any two elements the result is the list in order; where it does not, the
result depends on the comparisons made, so they are part of what is defined here.
-/

namespace DecisionTables.Sorting

variable {α : Type u}

/-! ## Runs -/

/-- The elements behind `x` of which each one has the relation `r` to the one before. -/
def chain (r : α → α → Bool) (x : α) : List α → List α
  | [] => []
  | y :: rest => if r x y then y :: chain r y rest else []

/-- The run in order at the start of a list, a falling one turned round, and what follows it. -/
def firstRun (lt : α → α → Bool) : List α → List α × List α
  | x :: y :: rest =>
    if lt y x then
      let run := chain (fun a b => lt b a) x (y :: rest)
      ((x :: run).reverse, (y :: rest).drop run.length)
    else
      let run := chain (fun a b => !lt b a) x (y :: rest)
      (x :: run, (y :: rest).drop run.length)
  | short => (short, [])

/-- Insert an element into a sorted list, behind those that are not greater. -/
def insert (lt : α → α → Bool) (sorted : List α) (x : α) : List α :=
  let n := halve false (fun y => !lt x y) sorted 0 sorted.length
  sorted.take n ++ x :: sorted.drop n

/-- A run, made as long as is wanted by inserting the elements that follow it. -/
def longRun (lt : α → α → Bool) (wanted : Nat) (xs : List α) : List α × List α :=
  let start := firstRun lt xs
  let more := wanted - start.1.length
  ((start.2.take more).foldl (insert lt) start.1, start.2.drop more)

/-- The number below which a run is too short for merging. -/
def shortLength : Nat := 64

/-- A length of runs that cuts a list into nearly a power of two of them: its number of elements is
halved until it is short, and any bit lost on the way adds one. -/
def runLength : Nat → Nat → Nat → Nat
  | 0, lost, n => n + lost
  | fuel + 1, lost, n =>
    if n < shortLength then n + lost else runLength fuel (max lost (n % 2)) (n / 2)

/-- The runs of a list. -/
def runs (lt : α → α → Bool) (wanted : Nat) : Nat → List α → List (List α)
  | _, [] => []
  | 0, xs => [xs]
  | fuel + 1, xs =>
    let start := longRun lt wanted xs
    start.1 :: runs lt wanted fuel start.2

/-! ## Merging all runs -/

/-- A run on the stack of those that wait for being merged. -/
structure Waiting (α : Type u) where
  /-- Where the run starts in the list. -/
  start : Nat
  run : List α
  /-- The depth at which the run meets the next one in a balanced tree over the list. -/
  depth : Nat

/-- The depth at which two neighbouring runs meet in a balanced tree over `n` elements: the first
binary place in which the middles of the runs differ, where `a` and `b` are twice the middles. -/
def meetingDepth (n : Nat) : Nat → Nat → Nat → Nat
  | 0, _, _ => 0
  | fuel + 1, a, b =>
    if n ≤ a then 1 + meetingDepth n fuel (2 * (a - n)) (2 * (b - n))
    else if n ≤ b then 1
    else 1 + meetingDepth n fuel (2 * a) (2 * b)

/-- Merge two neighbours on the stack. -/
def join (lt : α → α → Bool) (threshold : Nat) (lower upper : Waiting α) : Nat × Waiting α :=
  let ended := mergeRuns lt threshold lower.run upper.run
  (ended.1, ⟨lower.start, ended.2, upper.depth⟩)

/-- Merge the runs on top of the stack that meet deeper than the next run will. -/
def settle (lt : α → α → Bool) (depth : Nat) :
    Nat → Nat → List (Waiting α) → Nat × List (Waiting α)
  | fuel + 1, threshold, upper :: lower :: rest =>
    if depth < lower.depth then
      let joined := join lt threshold lower upper
      settle lt depth fuel joined.1 (joined.2 :: rest)
    else (threshold, { upper with depth := depth } :: lower :: rest)
  | _, threshold, [top] => (threshold, [{ top with depth := depth }])
  | _, threshold, stack => (threshold, stack)

/-- Put the runs on the stack one by one. -/
def stackRuns (lt : α → α → Bool) (n : Nat) :
    Nat → Nat → List (Waiting α) → List (List α) → Nat × List (Waiting α)
  | _, threshold, stack, [] => (threshold, stack)
  | start, threshold, stack, run :: rest =>
    let depth :=
      match stack with
      | top :: _ =>
        let a := 2 * top.start + top.run.length
        meetingDepth n (n + 1) a (a + top.run.length + run.length)
      | [] => 0
    let settled := settle lt depth stack.length threshold stack
    stackRuns lt n (start + run.length) settled.1 (⟨start, run, 0⟩ :: settled.2) rest

/-- Merge all that is left, the shorter neighbour of the second run first. -/
def collapse (lt : α → α → Bool) : Nat → Nat → List (Waiting α) → List α
  | fuel + 1, threshold, [upper, lower] =>
    let joined := join lt threshold lower upper
    collapse lt fuel joined.1 [joined.2]
  | fuel + 1, threshold, upper :: lower :: lowest :: rest =>
    if lowest.run.length < upper.run.length then
      let joined := join lt threshold lowest lower
      collapse lt fuel joined.1 (upper :: joined.2 :: rest)
    else
      let joined := join lt threshold lower upper
      collapse lt fuel joined.1 (joined.2 :: lowest :: rest)
  | _, _, stack => (stack.reverse.map Waiting.run).flatten

/-- The list in order; equal elements keep their order. -/
def sort (lt : α → α → Bool) (xs : List α) : List α :=
  let n := xs.length
  let stacked := stackRuns lt n 0 Merge.goodLead [] (runs lt (runLength n 0 n) n xs)
  collapse lt stacked.2.length stacked.1 stacked.2

/-! ## Sorting moves elements and keeps them all -/

/-- A chain is the start of the list. -/
theorem chain_append_drop (r : α → α → Bool) (x : α) (xs : List α) :
    chain r x xs ++ xs.drop (chain r x xs).length = xs := by
  induction xs generalizing x with
  | nil => rfl
  | cons y rest ih =>
    by_cases h : r x y <;> simp [chain, h, ih]

/-- The first run and the rest are the elements of the list. -/
theorem firstRun_perm (lt : α → α → Bool) (xs : List α) :
    ((firstRun lt xs).1 ++ (firstRun lt xs).2).Perm xs := by
  match xs with
  | [] => exact .refl _
  | [x] => exact .refl _
  | x :: y :: rest =>
    by_cases h : lt y x = true
    · have := chain_append_drop (fun a b => lt b a) x (y :: rest)
      simp only [firstRun, h, if_true]
      refine ((List.reverse_perm _).append_right _).trans ?_
      rw [List.cons_append, this]
    · have := chain_append_drop (fun a b => !lt b a) x (y :: rest)
      simp only [firstRun, h]
      exact .of_eq (by simpa using this)

/-- Inserting adds one element. -/
theorem insert_perm (lt : α → α → Bool) (sorted : List α) (x : α) :
    (insert lt sorted x).Perm (x :: sorted) := by
  have h : (insert lt sorted x).Perm (x :: (_ ++ _)) := List.perm_middle
  rwa [List.take_append_drop] at h

/-- Inserting one by one adds these elements. -/
theorem foldl_insert_perm (lt : α → α → Bool) (run rest : List α) :
    (rest.foldl (insert lt) run).Perm (run ++ rest) := by
  induction rest generalizing run with
  | nil => simp
  | cons x rest ih =>
    exact (ih _).trans (((insert_perm lt run x).append_right rest).trans List.perm_middle.symm)

/-- A run made longer and the rest are the elements of the list. -/
theorem longRun_perm (lt : α → α → Bool) (wanted : Nat) (xs : List α) :
    ((longRun lt wanted xs).1 ++ (longRun lt wanted xs).2).Perm xs := by
  unfold longRun
  refine ((foldl_insert_perm lt _ _).append_right _).trans ?_
  simpa [List.append_assoc] using firstRun_perm lt xs

/-- The runs have the elements of the list. -/
theorem flatten_runs_perm (lt : α → α → Bool) (wanted fuel : Nat) (xs : List α) :
    (runs lt wanted fuel xs).flatten.Perm xs := by
  fun_induction runs lt wanted fuel xs with
  | case1 => exact .refl _
  | case2 xs => simp
  | case3 fuel xs _ start ih =>
    exact (ih.append_left _).trans (longRun_perm lt wanted xs)

/-- The elements of the runs on a stack. -/
def elements (stack : List (Waiting α)) : List α :=
  (stack.map Waiting.run).flatten

/-- Two neighbours on the stack have the elements of their merge. -/
theorem elements_join_perm (lt : α → α → Bool) (threshold : Nat) (lower upper : Waiting α)
    (rest : List (Waiting α)) :
    (elements ((join lt threshold lower upper).2 :: rest)).Perm
      (elements (upper :: lower :: rest)) := by
  have h := (mergeRuns_perm lt threshold lower.run upper.run).trans List.perm_append_comm
  simpa [elements, join] using h.append_right (elements rest)

/-- Settling keeps the elements of the stack. -/
theorem elements_settle_perm (lt : α → α → Bool) (depth fuel threshold : Nat)
    (stack : List (Waiting α)) :
    (elements (settle lt depth fuel threshold stack).2).Perm (elements stack) := by
  fun_induction settle lt depth fuel threshold stack with
  | case1 fuel threshold upper lower rest _ joined ih =>
    exact ih.trans (elements_join_perm lt threshold lower upper rest)
  | case2 => exact .refl _
  | case3 => exact .refl _
  | case4 => exact .refl _

/-- The stack has the elements of all runs put on it. -/
theorem elements_stackRuns_perm (lt : α → α → Bool) (n start threshold : Nat)
    (stack : List (Waiting α)) (all : List (List α)) :
    (elements (stackRuns lt n start threshold stack all).2).Perm
      (elements stack ++ all.flatten) := by
  induction all generalizing start threshold stack with
  | nil => simp [stackRuns]
  | cons run rest ih =>
    refine (ih _ _ _).trans ?_
    simp only [elements, List.map_cons, List.flatten_cons, ← List.append_assoc]
    refine List.Perm.append_right _ (List.perm_append_comm.trans ?_)
    exact (elements_settle_perm lt _ stack.length threshold stack).append_right run

/-- Collapsing keeps the elements of the stack. -/
theorem collapse_perm (lt : α → α → Bool) (fuel threshold : Nat) (stack : List (Waiting α)) :
    (collapse lt fuel threshold stack).Perm (elements stack) := by
  fun_induction collapse lt fuel threshold stack with
  | case1 fuel threshold upper lower joined ih =>
    exact ih.trans (elements_join_perm lt threshold lower upper [])
  | case2 fuel threshold upper lower lowest rest _ joined ih =>
    exact ih.trans ((elements_join_perm lt threshold lowest lower rest).append_left upper.run)
  | case3 fuel threshold upper lower lowest rest _ joined ih =>
    exact ih.trans (elements_join_perm lt threshold lower upper (lowest :: rest))
  | case4 => exact ((List.reverse_perm _).map _).flatten

/-- Sorting moves elements and keeps them all. -/
theorem sort_perm (lt : α → α → Bool) (xs : List α) : (sort lt xs).Perm xs := by
  refine (collapse_perm lt _ _ _).trans ((elements_stackRuns_perm lt _ _ _ _ _).trans ?_)
  simpa [elements] using flatten_runs_perm lt _ _ xs

end DecisionTables.Sorting
