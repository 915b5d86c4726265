import DecisionTables.Fault
import DecisionTables.Sorting

/-!
# The order of keys

Keys can be sorted when all are numbers or all are texts.  Texts are compared by
code points, and numbers by value whatever their kind; what is no number is neither
below nor above any other.
-/

namespace DecisionTables.Scalar

/-- The numeric order between scalars that are numbers. -/
def numberLt (a b : Scalar) : Bool :=
  match a.number?, b.number? with
  | some x, some y => x.lt y
  | _, _ => false

/-- The code units of a scalar that is a text. -/
def codes? : Scalar → Option (List Nat)
  | text s => some (s.toList.map Char.toNat)
  | units us => some us
  | _ => none

/-- The order of keys of one class. -/
def lt : Scalar → Scalar → Bool
  | text s, text t => s < t
  | a, b =>
    match a.codes?, b.codes? with
    | some x, some y => x < y
    | _, _ => numberLt a b

/-- The scalar is a text. -/
def isText (a : Scalar) : Bool :=
  a.codes?.isSome

/-- The scalar is a number. -/
def isNumber (a : Scalar) : Bool :=
  a.number?.isSome

/-- Keys that can be compared with each other; a single key always can. -/
def comparable (keys : List Scalar) : Bool :=
  keys.length ≤ 1 || keys.all isText || keys.all isNumber

/-- Elements in the order of their keys.  Every stable way to sort gives the same list, unless a key
is no number: then it matters which keys are compared. -/
def sortBy (key : α → Scalar) (xs : List α) : List α :=
  if xs.any fun x => (key x).isNoNumber then Sorting.sort (fun a b => lt (key a) (key b)) xs
  else xs.mergeSort fun a b => !lt (key b) (key a)

/-- Sorting moves elements and keeps them all. -/
theorem sortBy_perm (key : α → Scalar) (xs : List α) : (sortBy key xs).Perm xs := by
  unfold sortBy
  split
  · exact Sorting.sort_perm _ _
  · exact List.mergeSort_perm _ _

/-- Entries in the order of their keys. -/
def sortEntries (entries : Assoc Scalar ν) : Except Fault (Assoc Scalar ν) :=
  if comparable entries.keys then .ok (sortBy Prod.fst entries) else .error .wrongType

/-- Keys in order. -/
def sortKeys (keys : List Scalar) : Except Fault (List Scalar) :=
  if comparable keys then .ok (sortBy id keys) else .error .wrongType

end DecisionTables.Scalar

namespace DecisionTables.Value

mutual

/-- Rearrange the entries of every mapping inside a value, the innermost first. -/
def arrange (f : Assoc Scalar Value → Except Fault (Assoc Scalar Value)) :
    Value → Except Fault Value
  | scalar s => .ok (scalar s)
  | list items => return list (← arrangeItems f items)
  | mapping entries => do return mapping (← f (← arrangeEntries f entries))

/-- Rearrange every mapping inside the items of a list. -/
def arrangeItems (f : Assoc Scalar Value → Except Fault (Assoc Scalar Value)) :
    List Value → Except Fault (List Value)
  | [] => .ok []
  | item :: rest => do return (← arrange f item) :: (← arrangeItems f rest)

/-- Rearrange every mapping inside the values of a mapping. -/
def arrangeEntries (f : Assoc Scalar Value → Except Fault (Assoc Scalar Value)) :
    List (Scalar × Value) → Except Fault (List (Scalar × Value))
  | [] => .ok []
  | (key, value) :: rest => do return (key, ← arrange f value) :: (← arrangeEntries f rest)

end

/-- A value with the keys of all its mappings in order. -/
def sorted : Value → Except Fault Value :=
  arrange Scalar.sortEntries

/-- A value with the keys of those mappings in order that can be sorted. -/
def sortedWherePossible (v : Value) : Value :=
  let sort (entries : Assoc Scalar Value) := (Scalar.sortEntries entries).toOption.getD entries
  (arrange (fun entries => .ok (sort entries)) v).toOption.getD v

end DecisionTables.Value
