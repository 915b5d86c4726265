import DecisionTables.Fault

/-!
# Values as mappings

Where a mapping is wanted, every blank value is the empty mapping, and a list of
pairs is the mapping that the pairs build.
-/

namespace DecisionTables.Value

/-- A value that can be a key. -/
def key? : Value → Except Fault Scalar
  | scalar s => .ok s
  | _ => .error .wrongType

/-- The parts of a value that is a sequence: items, characters or keys. -/
def parts? : Value → Except Fault (List Value)
  | list items => .ok items
  | mapping entries => .ok (entries.map fun entry => scalar entry.1)
  | scalar (.text s) => .ok (s.toList.map fun c => .text c.toString)
  | scalar (.units us) => .ok (us.map fun n => scalar (.ofUnits [n]))
  | scalar _ => .error .wrongType

/-- A value that is a key and a value. -/
def pair? (v : Value) : Except Fault (Scalar × Value) := do
  match ← v.parts? with
  | [first, second] => return (← first.key?, second)
  | _ => .error .wrongValue

/-- The mapping that a value stands for. -/
def toMapping (v : Value) : Except Fault (Assoc Scalar Value) :=
  if v.isBlank then .ok []
  else
    match v with
    | mapping entries => .ok entries
    | list items => do return Assoc.ofList (← items.mapM pair?)
    | scalar (.text _) | scalar (.units _) => .error .wrongValue
    | scalar _ => .error .wrongType

@[simp] theorem toMapping_mapping (entries : List (Scalar × Value)) :
    toMapping (.mapping entries) = .ok entries := by
  cases entries <;> rfl

@[simp] theorem toMapping_null : toMapping .null = .ok [] := rfl

end DecisionTables.Value
