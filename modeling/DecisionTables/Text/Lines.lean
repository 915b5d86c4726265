/-!
# Lines of a text

A text file is read in two steps: every line end becomes a line feed, and the
text is then cut at each of the ten line boundaries.
-/

namespace DecisionTables.Text

/-- A character that ends a line. -/
def isLineBoundary (c : Char) : Bool :=
  let n := c.toNat
  (0x0A ≤ n && n ≤ 0x0D) || (0x1C ≤ n && n ≤ 0x1E) || n == 0x85 || n == 0x2028 || n == 0x2029

/-- Write every carriage return, with or without a line feed after it, as one line feed. -/
def unifyLineEnds (s : String) : String :=
  String.ofList (go s.toList []).reverse
where
  go : List Char → List Char → List Char
    | [], done => done
    | '\r' :: '\n' :: rest, done => go rest ('\n' :: done)
    | '\r' :: rest, done => go rest ('\n' :: done)
    | c :: rest, done => go rest (c :: done)

/-- Cut a text at its line boundaries; a boundary at the very end opens no further line. -/
def splitLines (s : String) : List String :=
  go s.toList [] []
where
  go : List Char → List Char → List String → List String
    | [], [], done => done.reverse
    | [], open_, done => (String.ofList open_.reverse :: done).reverse
    | '\r' :: '\n' :: rest, open_, done => go rest [] (String.ofList open_.reverse :: done)
    | c :: rest, open_, done =>
      if isLineBoundary c then go rest [] (String.ofList open_.reverse :: done)
      else go rest (c :: open_) done

/-- Drop the line feeds and carriage returns that end a line. -/
def chompLine (s : String) : String :=
  String.ofList ((s.toList.reverse.dropWhile fun c => c == '\n' || c == '\r').reverse)

end DecisionTables.Text
