/-!
# Delimited fields

One line of a sheet is cut into fields by a delimiter.  A field that starts with
a double quote runs to the closing quote, and inside it a doubled quote stands
for one quote.
-/

namespace DecisionTables.Fields

/-- Why a line cannot be cut. -/
inductive Defect where
  | delimiterNotOneCharacter
  | lineEndInside
  | fieldTooLong
  deriving DecidableEq, Repr

/-- The most characters that a field may have. -/
def sizeLimit : Nat := 131072

/-- The wording of a defect. -/
def Defect.message : Defect → String
  | delimiterNotOneCharacter => "\"delimiter\" must be a 1-character string"
  | lineEndInside =>
    "new-line character seen in unquoted field - " ++
      "do you need to open the file in universal-newline mode?"
  | fieldTooLong => "field larger than field limit (" ++ toString sizeLimit ++ ")"

/-- Where the reader of a line stands. -/
inductive Phase where
  /-- Nothing of the line has been read. -/
  | lineStart
  /-- A delimiter has just been read. -/
  | fieldStart
  /-- Inside a field without quotes, or behind its closing quote. -/
  | bare
  /-- Inside quotes. -/
  | quoted
  /-- Behind a quote inside quotes: the end of the field, or half of a doubled quote. -/
  | quoteSeen
  /-- Behind the end of the line. -/
  | ended
  deriving DecidableEq, Repr

/-- The state of the reader: the open field and the finished fields, both backwards. -/
structure Reader where
  phase : Phase
  field : List Char
  size : Nat
  fields : List String

/-- The reader before the first character. -/
def Reader.start : Reader := ⟨.lineStart, [], 0, []⟩

namespace Reader

/-- Close the open field. -/
def save (r : Reader) (phase : Phase) : Reader :=
  ⟨phase, [], 0, String.ofList r.field.reverse :: r.fields⟩

/-- Put a character into the open field. -/
def push (r : Reader) (phase : Phase) (c : Char) : Except Defect Reader :=
  if sizeLimit ≤ r.size then .error .fieldTooLong
  else .ok { r with phase := phase, field := c :: r.field, size := r.size + 1 }

/-- A character that ends the line. -/
def isLineEnd (c : Char) : Bool :=
  c == '\n' || c == '\r'

/-- Read one character at the start of a field. -/
def openField (delimiter : Char) (r : Reader) (c : Char) : Except Defect Reader :=
  if isLineEnd c then .ok (r.save .ended)
  else if c == '"' then .ok { r with phase := .quoted }
  else if c == delimiter then .ok (r.save .fieldStart)
  else r.push .bare c

/-- Read one character. -/
def step (delimiter : Char) (r : Reader) (c : Char) : Except Defect Reader :=
  match r.phase with
  | .lineStart =>
    if isLineEnd c then .ok { r with phase := .ended } else r.openField delimiter c
  | .fieldStart => r.openField delimiter c
  | .bare =>
    if isLineEnd c then .ok (r.save .ended)
    else if c == delimiter then .ok (r.save .fieldStart)
    else r.push .bare c
  | .quoted =>
    if c == '"' then .ok { r with phase := .quoteSeen } else r.push .quoted c
  | .quoteSeen =>
    if c == '"' then r.push .quoted c
    else if c == delimiter then .ok (r.save .fieldStart)
    else if isLineEnd c then .ok (r.save .ended)
    else r.push .bare c
  | .ended =>
    if isLineEnd c then .ok r else .error .lineEndInside

/-- The fields when the line is over. -/
def finish (r : Reader) : List String :=
  match r.phase with
  | .lineStart => r.fields.reverse
  | .ended => r.fields.reverse
  | _ => (r.save .ended).fields.reverse

end Reader

/-- The fields of a line. -/
def split (delimiter : Char) (line : String) : Except Defect (List String) :=
  (line.toList.foldlM (Reader.step delimiter) Reader.start).map Reader.finish

/-- The fields of a line for a delimiter that must be a single character. -/
def splitBy (delimiter : String) (line : String) : Except Defect (List String) :=
  match delimiter.toList with
  | [d] => split d line
  | _ => .error .delimiterNotOneCharacter

end DecisionTables.Fields
