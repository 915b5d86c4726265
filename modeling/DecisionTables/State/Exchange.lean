import DecisionTables.Json.Reader
import DecisionTables.Json.Writer
import DecisionTables.Nesting
import DecisionTables.State
import DecisionTables.Yaml.Reader
import DecisionTables.Yaml.Writer

/-!
# Exchange of stored states

A stored state as a text in one of two formats, and a new stored state from such
a text.  Both formats carry the same mapping of mappings, and neither carries an
integer that is too long or a value that is nested too deep to be read again.
-/

namespace DecisionTables.StateId

/-- A new stored state of a JSON text. -/
def ofJson (text : String) : Engine StateId := do
  ofValue (← Engine.ofExcept (Json.parse text))

/-- A new stored state of a YAML text. -/
def ofYaml (text : String) : Engine StateId := do
  ofValue (← Engine.ofExcept (Yaml.parse text))

/-- The mapping of mappings, if it is not too deep and every scalar in it has a text. -/
def toWritable (id : StateId) : Engine Value := do
  let value := Value.mapping (← id.export)
  if Nesting.exportRoom < value.depth then throw .tooDeep
  if value.all Scalar.hasText then return value else throw .wrongValue

/-- The state as a JSON text. -/
def toJson (id : StateId) : Engine String := do
  Engine.ofExcept (Json.write (← id.toWritable))

/-- The state as a YAML text. -/
def toYaml (id : StateId) : Engine String := do
  let value ← id.toWritable
  if Nesting.yamlWritingRoom < value.depth then throw .tooDeep
  return Yaml.write value

end DecisionTables.StateId
