import DecisionTables.Assoc
import DecisionTables.Numeral.Reader
import DecisionTables.Numeral.Shortest
import DecisionTables.Text.Quoted

/-!
# Values

What a source may hold: the scalars and the lists and mappings built from them.
Conditions never see a value itself but its fragment text, so this module also
fixes how every value is written as text.
-/

namespace DecisionTables

/-- A value without parts; scalars are also the keys of mappings. -/
inductive Scalar where
  | null
  | bool (b : Bool)
  | int (i : Int)
  | float (x : Binary64)
  | text (s : String)
  /-- A text in which halves of surrogate pairs stand, by its code units. -/
  | units (us : List Nat)
  deriving DecidableEq, Repr, Inhabited

namespace Scalar

/-- The text of code units; only those of characters make a plain text. -/
def ofUnits (us : List Nat) : Scalar :=
  if us.any Text.isSurrogate then units us else text (String.ofList (us.map Char.ofNat))

/-- The number that a scalar is; a truth value counts as one or zero. -/
def number? : Scalar → Option Binary64
  | bool b => some (.exactly (if b then 1 else 0))
  | int i => some (.exactly i)
  | float x => some x
  | _ => none

/-- The scalar is a float that is no number. -/
def isNoNumber : Scalar → Bool
  | float .nan => true
  | _ => false

/-- Two scalars are the same key: numbers are compared by value, whatever their kind. -/
def sameKey : Scalar → Scalar → Bool
  | null, null => true
  | text s, text t => s == t
  | units us, units vs => us == vs
  | a, b =>
    match a.number?, b.number? with
    | some x, some y => x.same y
    | _, _ => false

instance : BEq Scalar := ⟨sameKey⟩

@[simp] theorem text_beq (s t : String) : (text s == text t) = (s == t) := rfl

theorem eq_text_of_beq {a : Scalar} {s : String} (same : (a == text s) = true) : a = text s := by
  cases a with
  | text t => exact congrArg text (eq_of_beq same)
  | _ => cases same

theorem sameKey_symm {a b : Scalar} (h : sameKey a b = true) : sameKey b a = true := by
  cases a <;> cases b <;>
    first
    | exact Binary64.same_symm h
    | exact (Bool.false_ne_true h).elim
    | exact h
    | exact BEq.symm h

theorem sameKey_trans {a b c : Scalar} (h : sameKey a b = true) (k : sameKey b c = true) :
    sameKey a c = true := by
  cases a <;> cases b <;>
    first
    | exact (Bool.false_ne_true h).elim
    | cases c <;>
        first
        | exact (Bool.false_ne_true k).elim
        | exact Binary64.same_trans h k
        | (simp only [sameKey, number?] at h k ⊢
           exact Binary64.same_trans h k)
        | exact h
        | exact BEq.trans h k

instance : PartialEquivBEq Scalar where
  symm := sameKey_symm
  trans := sameKey_trans

/-- The text of an integer in decimal digits. -/
def integerText (i : Int) : String :=
  if i < 0 then "-" ++ toString i.natAbs else toString i.natAbs

/-- An integer has a text when it does not have too many digits. -/
def hasText : Scalar → Bool
  | int i => i.natAbs < Nat.pow 10 Numeral.integerLimit
  | _ => true

/-- A scalar as text; texts stand for themselves, and the halves of a pair for their character. -/
def plainText : Scalar → String
  | null => "None"
  | bool true => "True"
  | bool false => "False"
  | int i => integerText i
  | float x => x.render Binary64.plainLayout
  | text s => s
  | units us => String.ofList (Text.ofUnits us)

/-- A scalar inside a list or mapping; texts are quoted. -/
def display : Scalar → String
  | text s => Text.quoted s
  | units us => Text.quotedUnits us
  | other => other.plainText

/-- A scalar that counts as absent where something is optional. -/
def isBlank : Scalar → Bool
  | null => true
  | bool b => !b
  | int i => i == 0
  | float x => x.isZero
  | text s => s.isEmpty
  | units us => us.isEmpty

/-- Characters make a plain text. -/
@[simp] theorem ofUnits_map_toNat (cs : List Char) :
    ofUnits (cs.map Char.toNat) = text (String.ofList cs) := by
  have whole : (cs.map Char.toNat).any Text.isSurrogate = false := by
    simp [Text.isSurrogate, (Text.not_surrogate _).1, (Text.not_surrogate _).2]
  have back : (cs.map Char.toNat).map Char.ofNat = cs := by
    rw [List.map_map]
    exact List.map_id'' (fun c => Char.ofNat_toNat c) cs
  rw [ofUnits, whole, back]
  rfl

end Scalar

/-- A scalar, a list of values, or a mapping from scalars to values in insertion order. -/
inductive Value where
  | scalar (s : Scalar)
  | list (items : List Value)
  | mapping (entries : List (Scalar × Value))
  deriving Inhabited

namespace Value

/-- A text value. -/
@[match_pattern] def text (s : String) : Value := scalar (.text s)

/-- The absent value. -/
@[match_pattern] def null : Value := scalar .null

/-- A value that counts as absent where something is optional. -/
def isBlank : Value → Bool
  | scalar s => s.isBlank
  | list items => items.isEmpty
  | mapping entries => entries.isEmpty

mutual

/-- Every scalar of a value, keys included, has a property. -/
def all (p : Scalar → Bool) : Value → Bool
  | scalar s => p s
  | list items => allItems p items
  | mapping entries => allEntries p entries

/-- Every scalar of the items of a list has a property. -/
def allItems (p : Scalar → Bool) : List Value → Bool
  | [] => true
  | item :: rest => all p item && allItems p rest

/-- Every scalar of the entries of a mapping has a property. -/
def allEntries (p : Scalar → Bool) : List (Scalar × Value) → Bool
  | [] => true
  | (key, value) :: rest => p key && all p value && allEntries p rest

end

mutual

/-- A value as it is shown inside lists and mappings. -/
def display : Value → String
  | scalar s => s.display
  | list items => "[" ++ ", ".intercalate (displayItems items) ++ "]"
  | mapping entries => "\x7b" ++ ", ".intercalate (displayEntries entries) ++ "\x7d"

/-- The items of a list as they are shown. -/
def displayItems : List Value → List String
  | [] => []
  | item :: rest => display item :: displayItems rest

/-- The entries of a mapping as they are shown. -/
def displayEntries : List (Scalar × Value) → List String
  | [] => []
  | (key, value) :: rest => (key.display ++ ": " ++ display value) :: displayEntries rest

end

/-- The text that conditions and assignments see for a stored value. -/
def fragmentText : Value → String
  | scalar .null => "undefined"
  | scalar (.bool true) => "true"
  | scalar (.bool false) => "false"
  | scalar s => s.plainText
  | value => value.display

@[simp] theorem fragmentText_text (s : String) : fragmentText (.text s) = s := rfl

@[simp] theorem fragmentText_int (i : Int) :
    fragmentText (.scalar (.int i)) = Scalar.integerText i := rfl

end Value

end DecisionTables
