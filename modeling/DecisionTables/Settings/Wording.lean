import DecisionTables.Path
import DecisionTables.Text.Unit
import DecisionTables.Value

/-!
# Wordings

The texts that a configuration gives.  Nearly all are plain; a text in which halves
of surrogate pairs stand is kept by its code units, because the character that two
halves show is not the character that a file has in its name.
-/

namespace DecisionTables.Settings

/-- A text of a configuration. -/
inductive Wording where
  | plain (s : String)
  /-- A text in which halves of surrogate pairs stand, by its code units. -/
  | halved (us : List Nat)
  deriving DecidableEq, Repr

namespace Wording

/-- The text that a scalar is. -/
def ofScalar? : Scalar → Option Wording
  | .text s => some (plain s)
  | .units us => some (halved us)
  | _ => none

/-- A text as a scalar. -/
def toScalar : Wording → Scalar
  | plain s => .text s
  | halved us => .units us

/-- The characters that a text shows. -/
def shown (w : Wording) : String := w.toScalar.plainText

/-- A text without characters. -/
def isEmpty : Wording → Bool
  | plain s => s.isEmpty
  | halved us => us.isEmpty

/-- The text is a path that starts at the root. -/
def isAbsolute : Wording → Bool
  | plain s => Path.isAbsolute s
  | halved us => us.head? == some '/'.toNat

/-- A directory seen from a base; an empty one stays empty. -/
def seenFrom (base : String) (w : Wording) : Wording :=
  if w.isEmpty || w.isAbsolute then w
  else
    match w with
    | plain directory => plain (Path.lead base ++ directory)
    | halved us => halved ((Path.lead base).toList.map Char.toNat ++ us)

/-- The bytes that a code unit stands for in a path.  Half of a pair from U+DC80 on stands for the
byte with its low digits; the other halves have no bytes. -/
def pathBytes? (unit : Nat) : Option (List UInt8) :=
  if 0xDC80 ≤ unit && unit ≤ 0xDCFF then some [(unit - 0xDC00).toUInt8]
  else if Text.isSurrogate unit then none
  else some (String.singleton (Char.ofNat unit)).toUTF8.toList

/-- The path that a text stands for; a text without one leads to no file. -/
def path? : Wording → Option String
  | plain s => some s
  | halved us => do String.fromUTF8? (← us.mapM pathBytes?).flatten.toByteArray

/-- A name ends with the text. -/
def isEndOf (name : String) : Wording → Bool
  | plain s => s.toList.isSuffixOf name.toList
  | halved us => us.isSuffixOf (name.toList.map Char.toNat)

@[simp] theorem shown_plain (s : String) : (plain s).shown = s := rfl

@[simp] theorem path?_plain (s : String) : (plain s).path? = some s := rfl

end Wording

end DecisionTables.Settings
