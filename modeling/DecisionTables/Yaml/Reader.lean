import DecisionTables.Yaml.Node
import DecisionTables.Yaml.Plain
import DecisionTables.Yaml.Supply

/-!
# Reading YAML

The value that a text denotes.  Only what a stored state or a configuration needs
is read: no references, no types by name, no merged mappings and no times.  A
document with several faults is refused for the outermost of them, and without
any it has a value (`exists_valueOf`).
-/

namespace DecisionTables.Yaml

/-- The number that digits in a base denote. -/
def numberInBase (base : Nat) (cs : List Char) : Option Nat :=
  cs.foldlM (fun n c => (Text.hexValue? c).map (base * n + ·)) 0

/-- A run of digits in a base; without digits there is no number. -/
def digitsInBase (base : Nat) (cs : List Char) : Except Fault Nat :=
  match numberInBase base cs with
  | some n => if cs.isEmpty then .error .wrongValue else .ok n
  | none => .error .wrongValue

/-- A run of decimal digits, which has a greatest length. -/
def decimalDigits (cs : List Char) : Except Fault Nat :=
  if Numeral.integerLimit < cs.length then .error .wrongValue else digitsInBase 10 cs

/-- The number whose parts in base sixty are given, the highest first. -/
def ofSixtieths (parts : List Nat) : Nat :=
  parts.foldl (fun n part => 60 * n + part) 0

/-- The integer that a plain scalar denotes. -/
def intOfPlain (text : String) : Except Fault Int := do
  let (negative, body) := Numeral.takeSign (text.toList.filter (· != '_'))
  let n ←
    match body with
    | ['0'] => pure 0
    | '0' :: 'b' :: rest => digitsInBase 2 rest
    | '0' :: 'x' :: rest => digitsInBase 16 rest
    | '0' :: rest => digitsInBase 8 rest
    | _ => pure (ofSixtieths (← (Plain.parts body).mapM decimalDigits))
  return if negative then -(n : Int) else n

/-- The product of two numbers that are not negative. -/
def product : Binary64 → Binary64 → Binary64
  | .finite _ m, .finite _ n => Binary64.ofQuotient false (m * n) Binary64.unitsPerOne
  | _, _ => .infinite false

/-- The sum of two numbers that are not negative. -/
def sum : Binary64 → Binary64 → Binary64
  | .finite _ m, .finite _ n => Binary64.ofQuotient false (m + n) 1
  | _, _ => .infinite false

/-- The number whose parts in base sixty are given, the lowest first, rounded after each step; the
weight of every part must itself be a number. -/
def sumOfSixtieths (parts : List Binary64) : Except Fault Binary64 := do
  let step (done : Binary64 × Nat) (part : Binary64) : Except Fault (Binary64 × Nat) :=
    match Binary64.ofDecimal false done.2 0 with
    | .infinite _ => .error .tooLarge
    | weight => .ok (sum done.1 (product part weight), 60 * done.2)
  return (← parts.foldlM step (.finite false 0, 1)).1

/-- The number turned negative. -/
def negated : Binary64 → Binary64
  | .nan => .nan
  | .infinite s => .infinite !s
  | .finite s m => .finite (!s) m

/-- The number with a point that a plain scalar denotes. -/
def floatOfPlain (text : String) : Except Fault Binary64 := do
  let (negative, body) := Numeral.takeSign ((text.toList.filter (· != '_')).map Char.toLower)
  let magnitude ←
    if body == ".inf".toList then pure (.infinite false)
    else if body == ".nan".toList then pure .nan
    else
      match (Plain.parts body).mapM (Numeral.decimal? false) with
      | some [only] => pure only
      | some parts => sumOfSixtieths parts.reverse
      | none => .error .wrongValue
  return if negative then negated magnitude else magnitude

/-- The scalar that a plain scalar denotes. -/
def scalarOf (text : String) : Except Fault Scalar :=
  match Plain.kind text with
  | .null => .ok .null
  | .bool b => .ok (.bool b)
  | .int => (intOfPlain text).map .int
  | .float => (floatOfPlain text).map .float
  | .text => .ok (.text text)
  | .time | .merge | .assign => .error .malformedYaml

/-- The key that a node denotes; a collection cannot be a key. -/
def keyOf : Node → Except Fault Scalar
  | .plain text => if Plain.kind text == .assign then .ok (.text text) else scalarOf text
  | .literal content => .ok content
  | _ => .error .malformedYaml

/-! ## Faults -/

/-- The fault of a result that is one. -/
def faultOf : Except Fault α → List Fault
  | .ok _ => []
  | .error f => [f]

/-- Levels of two neighbouring parts, joined level by level. -/
def joinLevels : List (List α) → List (List α) → List (List α)
  | [], right => right
  | left, [] => left
  | a :: left, b :: right => (a ++ b) :: joinLevels left right

mutual

/-- The faults of a node, the outermost level first and each level from left to right. -/
def faultLevels : Node → List (List Fault)
  | .plain text => [faultOf (scalarOf text)]
  | .literal _ => []
  | .sequence items => [] :: itemFaultLevels items
  | .mapping entries => [] :: entryFaultLevels entries

/-- The faults of the items of a sequence. -/
def itemFaultLevels : List Node → List (List Fault)
  | [] => []
  | item :: rest => joinLevels (faultLevels item) (itemFaultLevels rest)

/-- The faults of the keys and values of a mapping. -/
def entryFaultLevels : List (Node × Node) → List (List Fault)
  | [] => []
  | (key, value) :: rest =>
    joinLevels [faultOf (keyOf key)] (joinLevels (faultLevels value) (entryFaultLevels rest))

end

/-- The fault of a document: of several the outermost counts, and of those the first. -/
def fault? (root : Node) : Option Fault :=
  (faultLevels root).flatten.head?

/-! ## Values -/

/-- Two keys are the same key of a document: there, what is no number is the same as itself. -/
def sameKey (a b : Scalar) : Bool :=
  a == b || (a.isNoNumber && b.isNoNumber)

/-- The mapping that a list of written entries builds. -/
def mappingOf (entries : List (Scalar × Value)) : Value :=
  letI : BEq Scalar := ⟨sameKey⟩
  .mapping (Assoc.ofList entries)

mutual

/-- The value that a node denotes. -/
def valueOf : Node → Except Fault Value
  | .plain text => return .scalar (← scalarOf text)
  | .literal content => return .scalar content
  | .sequence items => return .list (← itemsOf items)
  | .mapping entries => return mappingOf (← entriesOf entries)

/-- The values of the items of a sequence. -/
def itemsOf : List Node → Except Fault (List Value)
  | [] => .ok []
  | item :: rest => do return (← valueOf item) :: (← itemsOf rest)

/-- The keys and values of the entries of a mapping. -/
def entriesOf : List (Node × Node) → Except Fault (List (Scalar × Value))
  | [] => .ok []
  | (key, value) :: rest => do
    let key ← keyOf key
    return (key, ← valueOf value) :: (← entriesOf rest)

end

/-! ## A node without faults has a value -/

/-- Joined levels are empty when both sides are. -/
theorem flatten_joinLevels_eq_nil (left right : List (List α)) :
    (joinLevels left right).flatten = [] ↔ left.flatten = [] ∧ right.flatten = [] := by
  fun_induction joinLevels left right with
  | case1 right => simp
  | case2 left => simp
  | case3 a left b right ih =>
    simp only [List.flatten_cons, List.append_eq_nil_iff, ih]
    exact ⟨fun h => ⟨⟨h.1.1, h.2.1⟩, h.1.2, h.2.2⟩, fun h => ⟨⟨h.1.1, h.2.1⟩, h.1.2, h.2.2⟩⟩

/-- A result without a fault is there. -/
theorem exists_ok_of_faultOf {r : Except Fault α} (h : faultOf r = []) : ∃ a, r = .ok a := by
  cases r with
  | ok a => exact ⟨a, rfl⟩
  | error f => cases h

mutual

/-- A node without faults has a value. -/
theorem exists_valueOf : (n : Node) → (faultLevels n).flatten = [] → ∃ v, valueOf n = .ok v
  | .plain text, h => by
    simp only [faultLevels, List.flatten_cons, List.flatten_nil, List.append_nil] at h
    obtain ⟨s, hs⟩ := exists_ok_of_faultOf h
    exact ⟨.scalar s, by simp [valueOf, hs, bind, Except.bind, pure, Except.pure]⟩
  | .literal content, _ => ⟨.scalar content, rfl⟩
  | .sequence items, h => by
    obtain ⟨vs, hvs⟩ := exists_itemsOf items (by simpa [faultLevels] using h)
    exact ⟨.list vs, by simp [valueOf, hvs, bind, Except.bind, pure, Except.pure]⟩
  | .mapping entries, h => by
    obtain ⟨es, hes⟩ := exists_entriesOf entries (by simpa [faultLevels] using h)
    exact ⟨mappingOf es, by simp [valueOf, hes, bind, Except.bind, pure, Except.pure]⟩

/-- The items of a sequence without faults have values. -/
theorem exists_itemsOf :
    (items : List Node) → (itemFaultLevels items).flatten = [] → ∃ vs, itemsOf items = .ok vs
  | [], _ => ⟨[], rfl⟩
  | item :: rest, h => by
    rw [itemFaultLevels, flatten_joinLevels_eq_nil] at h
    obtain ⟨v, hv⟩ := exists_valueOf item h.1
    obtain ⟨vs, hvs⟩ := exists_itemsOf rest h.2
    exact ⟨v :: vs, by simp [itemsOf, hv, hvs, bind, Except.bind, pure, Except.pure]⟩

/-- The entries of a mapping without faults have keys and values. -/
theorem exists_entriesOf :
    (entries : List (Node × Node)) → (entryFaultLevels entries).flatten = [] →
      ∃ es, entriesOf entries = .ok es
  | [], _ => ⟨[], rfl⟩
  | (key, value) :: rest, h => by
    rw [entryFaultLevels, flatten_joinLevels_eq_nil, flatten_joinLevels_eq_nil] at h
    obtain ⟨k, hk⟩ := exists_ok_of_faultOf (by simpa using h.1)
    obtain ⟨v, hv⟩ := exists_valueOf value h.2.1
    obtain ⟨es, hes⟩ := exists_entriesOf rest h.2.2
    exact ⟨(k, v) :: es, by simp [entriesOf, hk, hv, hes, bind, Except.bind, pure, Except.pure]⟩

end

/-- The value that the text of a supply denotes; a text without a document denotes the absent
value. -/
def read (supply : Supply) : Except Fault Value := do
  match ← Node.ofTokens Nesting.yamlRoom (Token.scan supply) with
  | none => return .null
  | some root =>
    match fault? root with
    | some f => .error f
    | none => valueOf root

/-- The value that a text denotes. -/
def parse (text : String) : Except Fault Value :=
  read (.ofString text)

end DecisionTables.Yaml
