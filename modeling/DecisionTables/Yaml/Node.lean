import DecisionTables.Nesting
import DecisionTables.Yaml.Token

/-!
# The nodes of a YAML text

The tree of scalars, sequences and mappings that a list of tokens describes.  A
missing node is an empty plain scalar, and `room` is how many levels further down
a reader may go.
-/

namespace DecisionTables.Yaml

/-- A part of a document. -/
inductive Node where
  /-- A scalar without quotes, whose text tells its kind. -/
  | plain (text : String)
  /-- A scalar that is a text as it stands. -/
  | literal (content : Scalar)
  | sequence (items : List Node)
  | mapping (entries : List (Node × Node))
  deriving Inhabited

namespace Node

/-- The node that is not written. -/
def missing : Node := plain ""

/-- The next token is one of the given ones. -/
def isNext (tokens : List Token) (wanted : List Token) : Bool :=
  match tokens with
  | [] => wanted.isEmpty
  | t :: _ => wanted.contains t

/-- Why a document cannot go on with the given tokens. -/
def unexpected : List Token → Except Fault α
  | .fault f :: _ => .error f
  | _ => malformed

/-- The end of the text, or a mark between documents. -/
def atDocumentEnd : List Token → Bool
  | [] => true
  | t :: _ => t == .documentStart || t == .documentEnd

mutual

/-- A node; `block` allows block collections, `dash` allows a list at the indentation of its key. -/
def read (block dash : Bool) : Nat → Nat → List Token → Except Fault (Node × List Token)
  | 0, _, _ => malformed
  | fuel + 1, room, tokens =>
    match tokens with
    | .plain text :: rest => .ok (plain text, rest)
    | .literal content :: rest => .ok (literal content, rest)
    | .flowSequenceStart :: rest =>
      Nesting.descend room fun room => readFlowSequence fuel room true [] rest
    | .flowMappingStart :: rest =>
      Nesting.descend room fun room => readFlowMapping fuel room true [] rest
    | .blockEntry :: _ =>
      if dash then Nesting.descend room fun room => readDashes fuel room [] tokens else malformed
    | .blockSequenceStart :: rest =>
      if block then Nesting.descend room fun room => readBlockSequence fuel room [] rest
      else malformed
    | .blockMappingStart :: rest =>
      if block then Nesting.descend room fun room => readBlockMapping fuel room [] rest
      else malformed
    | _ => unexpected tokens
termination_by structural fuel => fuel

/-- A node, or the missing node where one of the given tokens follows. -/
def readUnless (block dash : Bool) (stops : List Token) :
    Nat → Nat → List Token → Except Fault (Node × List Token)
  | 0, _, _ => malformed
  | fuel + 1, room, tokens =>
    if isNext tokens stops then .ok (missing, tokens) else read block dash fuel room tokens
termination_by structural fuel => fuel

/-- The entries of a list at the indentation of its key. -/
def readDashes : Nat → Nat → List Node → List Token → Except Fault (Node × List Token)
  | 0, _, _, _ => malformed
  | fuel + 1, room, done, tokens =>
    match tokens with
    | .blockEntry :: rest => do
      let (item, rest) ← readUnless true false [.blockEntry, .key, .value, .blockEnd] fuel room rest
      readDashes fuel room (item :: done) rest
    | _ => .ok (sequence done.reverse, tokens)
termination_by structural fuel => fuel

/-- The entries of an indented list. -/
def readBlockSequence : Nat → Nat → List Node → List Token → Except Fault (Node × List Token)
  | 0, _, _, _ => malformed
  | fuel + 1, room, done, tokens =>
    match tokens with
    | .blockEntry :: rest => do
      let (item, rest) ← readUnless true false [.blockEntry, .blockEnd] fuel room rest
      readBlockSequence fuel room (item :: done) rest
    | .blockEnd :: rest => .ok (sequence done.reverse, rest)
    | _ => unexpected tokens
termination_by structural fuel => fuel

/-- The entries of an indented mapping. -/
def readBlockMapping :
    Nat → Nat → List (Node × Node) → List Token → Except Fault (Node × List Token)
  | 0, _, _, _ => malformed
  | fuel + 1, room, done, tokens =>
    match tokens with
    | .key :: rest => do
      let stops : List Token := [.key, .value, .blockEnd]
      let (key, rest) ← readUnless true true stops fuel room rest
      let (value, rest) ←
        match rest with
        | .value :: rest => readUnless true true stops fuel room rest
        | _ => .ok (missing, rest)
      readBlockMapping fuel room ((key, value) :: done) rest
    | .blockEnd :: rest => .ok (mapping done.reverse, rest)
    | _ => unexpected tokens
termination_by structural fuel => fuel

/-- The value behind a key of a flow collection. -/
def readFlowValue (close : Token) : Nat → Nat → List Token → Except Fault (Node × List Token)
  | 0, _, _ => malformed
  | fuel + 1, room, tokens =>
    match tokens with
    | .value :: rest => readUnless false false [.flowEntry, close] fuel room rest
    | _ => .ok (missing, tokens)
termination_by structural fuel => fuel

/-- A key and its value in a flow collection, from the key on. -/
def readFlowPair (close : Token) :
    Nat → Nat → List Token → Except Fault ((Node × Node) × List Token)
  | 0, _, _ => malformed
  | fuel + 1, room, tokens => do
    let (key, rest) ← readUnless false false [.value, .flowEntry, close] fuel room tokens
    let (value, rest) ← readFlowValue close fuel room rest
    return ((key, value), rest)
termination_by structural fuel => fuel

/-- The items of a flow sequence; a key and a value make a mapping of one entry. -/
def readFlowSequence :
    Nat → Nat → Bool → List Node → List Token → Except Fault (Node × List Token)
  | 0, _, _, _, _ => malformed
  | fuel + 1, room, isFirst, done, tokens => do
    if isNext tokens [.flowSequenceEnd] then return (sequence done.reverse, tokens.drop 1)
    let tokens ← if isFirst then .ok tokens else
      match tokens with
      | .flowEntry :: rest => .ok rest
      | _ => unexpected tokens
    match tokens with
    | .key :: rest =>
      let (pair, rest) ←
        Nesting.descend room fun room => readFlowPair .flowSequenceEnd fuel room rest
      readFlowSequence fuel room false (mapping [pair] :: done) rest
    | .flowSequenceEnd :: rest => return (sequence done.reverse, rest)
    | _ =>
      let (item, rest) ← read false false fuel room tokens
      readFlowSequence fuel room false (item :: done) rest
termination_by structural fuel => fuel

/-- The entries of a flow mapping; a node without a value is a key. -/
def readFlowMapping :
    Nat → Nat → Bool → List (Node × Node) → List Token → Except Fault (Node × List Token)
  | 0, _, _, _, _ => malformed
  | fuel + 1, room, isFirst, done, tokens => do
    if isNext tokens [.flowMappingEnd] then return (mapping done.reverse, tokens.drop 1)
    let tokens ← if isFirst then .ok tokens else
      match tokens with
      | .flowEntry :: rest => .ok rest
      | _ => unexpected tokens
    match tokens with
    | .key :: rest =>
      let (pair, rest) ← readFlowPair .flowMappingEnd fuel room rest
      readFlowMapping fuel room false (pair :: done) rest
    | .flowMappingEnd :: rest => return (mapping done.reverse, rest)
    | _ =>
      let (key, rest) ← read false false fuel room tokens
      readFlowMapping fuel room false ((key, missing) :: done) rest
termination_by structural fuel => fuel

end

/-- The root of the only document, if there is one. -/
def ofTokens (room : Nat) (tokens : List Token) : Except Fault (Option Node) := do
  if tokens.isEmpty then return none
  let body := if isNext tokens [.documentStart] then tokens.drop 1 else tokens
  let fuel := 4 * tokens.length + 4
  let (root, rest) ←
    if body.length < tokens.length && atDocumentEnd body then .ok (missing, body)
    else read true false fuel room body
  let rest := rest.dropWhile (· == .documentEnd)
  if rest.isEmpty then return some root else unexpected rest

end Node

end DecisionTables.Yaml
