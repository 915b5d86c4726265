import DecisionTables.Fields
import DecisionTables.Settings.Defect
import DecisionTables.Tag
import DecisionTables.Value

/-!
# Faults

Everything that can stop the engine.  The engine's own errors carry their causes,
and one function words them; the remaining faults come from the surroundings:
files, file formats and values of the wrong shape.
-/

namespace DecisionTables

/-- Where an engine error was detected. -/
inductive ErrorKind where
  /-- Sheets, settings or table references are malformed. -/
  | configuration
  /-- A source, table or fragment cannot be found. -/
  | resolution
  /-- Several rules of one table are satisfied at once. -/
  | ambiguity
  /-- A condition or assignment cannot be computed. -/
  | computation
  deriving DecidableEq, Repr

/-- The engine's own errors. -/
inductive EngineError where
  | badDelimiter (delimiter : String)
  | unreadableLine (line : String) (defect : Fields.Defect)
  | unknownTag (line : String)
  | missingSubject (line : String)
  | unevenRows (tag : Tag) (table : String) (widths : List Nat)
  | repeatedHeader (table : String)
  | widthMismatch (table : String) (count : Nat) (tag : Tag) (width : Nat)
  | missingDirectory (path : String)
  | settingsNotMapping (path : String)
  | invalidSettings (defects : List (String × Settings.Defect))
  | stateNotNested
  | cyclicTable (table : String)
  | unknownSource (source : String)
  | unknownStoredSource (source : String)
  | missingFragment (fragment : String) (source : Scalar)
  | missingOutcome (table : String) (outcome : String)
  | unknownCondition (name : String)
  | unknownTable (table : String)
  | ambiguousRules (table : String) (rules : List String)
  | notNumeric (text : String) (cell : String)
  | readOnly (fragment : String) (source : Scalar)
  | noBackend (command : String)
  | noRuleSatisfied (command : String)
  deriving DecidableEq, Repr

namespace EngineError

/-- The kind of an error. -/
def kind : EngineError → ErrorKind
  | badDelimiter .. | unreadableLine .. | unknownTag .. | missingSubject .. | unevenRows ..
  | repeatedHeader .. | widthMismatch .. | missingDirectory .. | settingsNotMapping ..
  | invalidSettings .. | stateNotNested | cyclicTable .. => .configuration
  | unknownSource .. | unknownStoredSource .. | missingFragment .. | missingOutcome ..
  | unknownCondition .. | unknownTable .. => .resolution
  | ambiguousRules .. => .ambiguity
  | notNumeric .. | readOnly .. | noBackend .. | noRuleSatisfied .. => .computation

/-- The tags as they are listed for a reader whose line has none of them. -/
def tagList : String :=
  "(" ++ ", ".intercalate (Tag.all.map fun tag => Text.quoted tag.label) ++ ")"

/-- A list of widths. -/
def widthList (widths : List Nat) : String :=
  "[" ++ ", ".intercalate (widths.map toString) ++ "]"

/-- The name of a source of stored values; without a name it is only known to be in memory. -/
def sourceName (source : Scalar) : String :=
  if source.isBlank then "<in-memory>" else source.plainText

/-- The wording of an error. -/
def message : EngineError → String
  | badDelimiter d => "Delimiter must be a single character, got '" ++ d ++ "'"
  | unreadableLine line defect => "Cannot parse line '" ++ line ++ "': " ++ defect.message
  | unknownTag line => "Unknown tag in line '" ++ line ++ "', expected one of " ++ tagList
  | missingSubject line => "Missing subject name in line '" ++ line ++ "'"
  | unevenRows tag table widths =>
    "Uneven " ++ tag.label ++ " rows in table '" ++ table ++ "': widths " ++ widthList widths
  | repeatedHeader table =>
    "More than one " ++ Tag.header.label ++ " row in table '" ++ table ++ "'"
  | widthMismatch table count tag width =>
    "Table '" ++ table ++ "' has " ++ toString count ++ " rules but " ++ tag.label ++
      " rows have " ++ toString width ++ " values"
  | missingDirectory path => "Tables directory not found: " ++ path
  | settingsNotMapping path => "Configuration in " ++ path ++ " must be a mapping"
  | invalidSettings defects =>
    "Invalid configuration: " ++
      "; ".intercalate (defects.map fun d => d.1 ++ ": " ++ d.2.message)
  | stateNotNested => "State must be a mapping of locator name -> mapping of fragments"
  | cyclicTable table => "Cyclic dependency detected while computing table '" ++ table ++ "'"
  | unknownSource source => "Locator '" ++ source ++ "' not found in computation context"
  | unknownStoredSource source => "Locator '" ++ source ++ "' not found in stored state"
  | missingFragment fragment source =>
    "Fragment '" ++ fragment ++ "' not found in locator '" ++ sourceName source ++ "'"
  | missingOutcome table outcome =>
    "Table '" ++ table ++ "' has no outcome named '" ++ outcome ++ "'"
  | unknownCondition name => "Condition '" ++ name ++ "' is not registered"
  | unknownTable table => "Table '" ++ table ++ "' not found"
  | ambiguousRules table rules =>
    "Multiple rules are satisfied in table '" ++ table ++ "': " ++ ", ".intercalate rules
  | notNumeric text cell =>
    "Cannot compare '" ++ text ++ "' numerically in condition '" ++ cell ++ "'"
  | readOnly fragment source =>
    "Cannot assign '" ++ fragment ++ "': locator '" ++ source.plainText ++ "' is read-only"
  | noBackend command => "Cannot perform '" ++ command ++ "': no command backend configured"
  | noRuleSatisfied command => "No rule of command '" ++ command ++ "' is satisfied"

end EngineError

/-- Why a computation stopped. -/
inductive Fault where
  /-- An error of the engine itself. -/
  | engine (error : EngineError)
  /-- An operation that only a more specific source or backend provides. -/
  | notProvided
  /-- A value of a kind that cannot be used here. -/
  | wrongType
  /-- A value of the right kind but of the wrong shape. -/
  | wrongValue
  /-- A number that is too large for its use. -/
  | tooLarge
  /-- Something was looked up in an object that does not have it. -/
  | missingMember
  /-- Something is nested too deep; named conditions that refer to each other have no end at all. -/
  | tooDeep
  | malformedJson
  | malformedYaml
  | malformedEncoding
  | fileNotFound
  | isDirectory
  | notDirectory
  /-- A path, or a name in it, has too many bytes. -/
  | pathTooLong
  deriving DecidableEq, Repr

end DecisionTables
