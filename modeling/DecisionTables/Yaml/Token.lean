import DecisionTables.Nesting
import DecisionTables.Yaml.Scalar

/-!
# The tokens of a YAML text

Indentation becomes explicit here: a block opens where a line is indented
further than the block around it, and it closes where a line is indented less.  A
colon may turn the scalar or flow collection before it on the same line into a
key.  A fault counts only behind the tokens that are certain where it occurs, so
that a document that is ill formed before it is called ill formed.
-/

namespace DecisionTables.Yaml

/-- The tokens. -/
inductive Token where
  | documentStart
  | documentEnd
  | blockSequenceStart
  | blockMappingStart
  | blockEnd
  | flowSequenceStart
  | flowSequenceEnd
  | flowMappingStart
  | flowMappingEnd
  | blockEntry
  | flowEntry
  | key
  | value
  /-- A scalar without quotes, whose text tells its kind. -/
  | plain (text : String)
  /-- A scalar that is a text as it stands. -/
  | literal (content : Scalar)
  /-- Why no further token could be read. -/
  | fault (f : Fault)
  deriving DecidableEq, Repr

/-- A place where a key may turn out to start. -/
structure KeyPlace where
  level : Nat
  token : Nat
  required : Bool
  index : Nat
  line : Nat
  column : Nat

/-- The state between two tokens. -/
structure Scanner where
  cursor : Cursor
  tokens : Array Token
  /-- How many flow collections are open. -/
  level : Nat
  /-- The column of the open block; before the first block it is below zero. -/
  indent : Int
  outer : List Int
  /-- A key may start at the next token. -/
  keyAllowed : Bool
  places : List KeyPlace

namespace Scanner

/-- The state at the start of a text. -/
def start (supply : Supply) : Scanner :=
  ⟨Cursor.start supply, #[], 0, -1, [], true, []⟩

/-- Add a token. -/
def emit (s : Scanner) (t : Token) : Scanner :=
  { s with tokens := s.tokens.push t }

/-- Add a token at an earlier place. -/
def insertAt (s : Scanner) (place : Nat) (t : Token) : Scanner :=
  { s with tokens := s.tokens.insertIdxIfInBounds place t }

/-- Move on to a position. -/
def moveTo (s : Scanner) (c : Cursor) : Scanner :=
  { s with cursor := c }

/-- Move on by several characters. -/
def advanceBy (s : Scanner) (n : Nat) : Scanner :=
  s.moveTo (s.cursor.advanceBy n)

/-- Skip blanks, remarks and line breaks up to the next token. -/
def skipToToken : Nat → Scanner → Scanner
  | 0, s => s
  | fuel + 1, s =>
    let c := s.cursor.skipSpaces.skipRemark
    match c.lineBreak? with
    | some (_, c) =>
      skipToToken fuel { s with cursor := c, keyAllowed := s.keyAllowed || s.level == 0 }
    | none => s.moveTo c

/-- The longest distance between the start of a key and its colon. -/
def keyReach : Nat := 1024

/-- A key that starts at a place may still turn up. -/
def inReach (s : Scanner) (p : KeyPlace) : Bool :=
  p.line == s.cursor.line && s.cursor.index - p.index ≤ keyReach

/-- The tokens that nothing further on can turn into keys. -/
def settled (s : Scanner) : List Token :=
  let pending := s.places.filter s.inReach
  s.tokens.toList.take (pending.foldl (fun n p => min n p.token) s.tokens.size)

/-- Give up the key places that are out of reach; a required one is an error. -/
def dropStale (s : Scanner) : Except Fault Scanner :=
  if s.places.any fun p => !s.inReach p && p.required then malformed
  else .ok { s with places := s.places.filter s.inReach }

/-- Close the blocks that are indented further than a column. -/
def closeBlocks (s : Scanner) (column : Int) : Scanner :=
  if s.level == 0 then go s.outer s else s
where
  go : List Int → Scanner → Scanner
    | [], s => s
    | outer :: rest, s =>
      if column < s.indent then go rest { s.emit .blockEnd with indent := outer, outer := rest }
      else s

/-- Open a block at a column if that is further in than the open block. -/
def openBlock (s : Scanner) (column : Nat) : Bool × Scanner :=
  if s.indent < column then (true, { s with indent := column, outer := s.indent :: s.outer })
  else (false, s)

/-- Forget the key place of the current level; a required one is an error. -/
def dropPlace (s : Scanner) : Except Fault Scanner :=
  if s.places.any fun p => p.level == s.level && p.required then malformed
  else .ok { s with places := s.places.filter fun p => p.level != s.level }

/-- Remember that a key may start here. -/
def savePlace (s : Scanner) : Except Fault Scanner :=
  if s.keyAllowed then do
    let required := s.level == 0 && s.indent == s.cursor.column
    let s ← s.dropPlace
    let place : KeyPlace :=
      ⟨s.level, s.tokens.size, required, s.cursor.index, s.cursor.line, s.cursor.column⟩
    return { s with places := place :: s.places }
  else .ok s

/-- Allow or forbid a key at the next token. -/
def allowKey (s : Scanner) (allowed : Bool) : Scanner :=
  { s with keyAllowed := allowed }

/-- Close everything at the end of a document or of the text. -/
def finishDocument (s : Scanner) : Except Fault Scanner := do
  let s ← (s.closeBlocks (-1)).dropPlace
  return s.allowKey false

/-- A mark between documents. -/
def documentMark (s : Scanner) (t : Token) : Except Fault Scanner := do
  return (← s.finishDocument).emit t |>.advanceBy 3

/-- The most flow collections that may be open: where there are more, the nodes have run out of room
and all brackets up to there are certain. -/
def levelLimit : Nat := Nesting.yamlRoom + keyReach + 1

/-- The opening bracket of a flow collection. -/
def flowStart (s : Scanner) (t : Token) : Except Fault Scanner := do
  if levelLimit < s.level then throw .tooDeep
  let s ← s.savePlace
  return ({ s with level := s.level + 1 }.allowKey true).emit t |>.advanceBy 1

/-- The closing bracket of a flow collection. -/
def flowEnd (s : Scanner) (t : Token) : Except Fault Scanner := do
  if s.level == 0 then malformed
  let s ← s.dropPlace
  return ({ s with level := s.level - 1 }.allowKey false).emit t |>.advanceBy 1

/-- A comma in a flow collection. -/
def flowEntry (s : Scanner) : Except Fault Scanner := do
  return ((← (s.allowKey true).dropPlace).emit .flowEntry).advanceBy 1

/-- Open a block for an entry that must stand where a key may stand. -/
def openFor (s : Scanner) (t : Token) : Except Fault Scanner :=
  if s.level == 0 then
    if s.keyAllowed then
      let (opened, s) := s.openBlock s.cursor.column
      .ok (if opened then s.emit t else s)
    else malformed
  else .ok s

/-- The dash of a list entry. -/
def blockEntry (s : Scanner) : Except Fault Scanner := do
  let s ← s.openFor .blockSequenceStart
  return ((← (s.allowKey true).dropPlace).emit .blockEntry).advanceBy 1

/-- The question mark of a key. -/
def explicitKey (s : Scanner) : Except Fault Scanner := do
  let s ← s.openFor .blockMappingStart
  return ((← (s.allowKey (s.level == 0)).dropPlace).emit .key).advanceBy 1

/-- The colon of a value, whose key may have been read already. -/
def valueSign (s : Scanner) : Except Fault Scanner := do
  match s.places.find? fun p => p.level == s.level with
  | some place =>
    let s := { s with places := s.places.filter fun p => p.level != s.level }
    let s := s.insertAt place.token .key
    let s :=
      if s.level == 0 then
        let (opened, s) := s.openBlock place.column
        if opened then s.insertAt place.token .blockMappingStart else s
      else s
    return ((s.allowKey false).emit .value).advanceBy 1
  | none =>
    let s ← s.openFor .blockMappingStart
    return ((← (s.allowKey (s.level == 0)).dropPlace).emit .value).advanceBy 1

/-- A scalar behind a bar or an arrow. -/
def blockScalarToken (s : Scanner) (folded : Bool) : Except Fault Scanner := do
  let s ← (s.allowKey true).dropPlace
  let (text, c) ← blockScalar folded s.indent s.cursor.advance
  return (s.emit (.literal (.text (String.ofList text)))).moveTo c

/-- A scalar in quotes. -/
def quotedScalarToken (s : Scanner) (double : Bool) : Except Fault Scanner := do
  let s ← s.savePlace
  let c := s.cursor.advance
  let (units, c) ← quotedScalar double (c.rest.length + 1) [] c
  return ((s.allowKey false).emit (.literal (.ofUnits units))).moveTo c

/-- A scalar without quotes. -/
def plainScalarToken (s : Scanner) : Except Fault Scanner := do
  let s ← s.savePlace
  let (text, c, newLine) := plainScalar (s.level != 0) (s.indent + 1) s.cursor
  return ((s.allowKey newLine).emit (.plain (String.ofList text))).moveTo c

/-- A scalar without quotes may start here. -/
def startsPlain (inFlow : Bool) (c : Char) (second : Option Char) : Bool :=
  !(isGap c || "-?:,[]\x7b\x7d#&*!|>'\"%@\x60".contains c) ||
    (!endsWord second && (c == '-' || (!inFlow && (c == '?' || c == ':'))))

/-- The token that starts with a character. -/
def token (s : Scanner) (c : Char) : Except Fault Scanner :=
  let second := s.cursor.second?
  let atStart := s.cursor.column == 0
  let inFlow := s.level != 0
  if c == '%' && atStart then malformed
  else if atStart && s.cursor.atMark '-' then s.documentMark .documentStart
  else if atStart && s.cursor.atMark '.' then s.documentMark .documentEnd
  else if c == '[' then s.flowStart .flowSequenceStart
  else if c == '\x7b' then s.flowStart .flowMappingStart
  else if c == ']' then s.flowEnd .flowSequenceEnd
  else if c == '\x7d' then s.flowEnd .flowMappingEnd
  else if c == ',' then s.flowEntry
  else if c == '-' && endsWord second then s.blockEntry
  else if c == '?' && (inFlow || endsWord second) then s.explicitKey
  else if c == ':' && (inFlow || endsWord second) then s.valueSign
  else if c == '|' && !inFlow then s.blockScalarToken false
  else if c == '>' && !inFlow then s.blockScalarToken true
  else if c == '\'' then s.quotedScalarToken false
  else if c == '"' then s.quotedScalarToken true
  else if startsPlain inFlow c second then s.plainScalarToken
  else malformed

/-- The state, unless the supply of characters is stopped at its position. -/
def supplied (s : Scanner) : Except Fault Scanner :=
  match s.cursor.stop? with
  | some f => .error f
  | none => .ok s

/-- Read one token, or close what is open at the end of the text. -/
def next (s : Scanner) : Except Fault (Scanner × Bool) := do
  let s ← (skipToToken (s.cursor.rest.length + 1) s).supplied
  let s ← s.dropStale
  let s := s.closeBlocks s.cursor.column
  match s.cursor.peek? with
  | none => return (← s.finishDocument, true)
  | some c => return (← (← s.token c).supplied, false)

/-- Read tokens up to the end of the text or to the first fault. -/
def run : Nat → Scanner → List Token
  | 0, s => s.settled
  | fuel + 1, s =>
    match s.next with
    | .error f => s.settled ++ [.fault f]
    | .ok (s, true) => s.tokens.toList
    | .ok (s, false) => run fuel s

end Scanner

/-- The tokens of a text; the last one may say why there are no more. -/
def Token.scan (supply : Supply) : List Token :=
  let cs := supply.chars
  let body := if cs.head? == some '\uFEFF' then cs.drop 1 else cs
  Scanner.run (body.length + 1) (Scanner.start { supply with chars := body })

end DecisionTables.Yaml
