/-!
# Defects of settings

What can be wrong with one entry of a configuration.
-/

namespace DecisionTables.Settings

/-- What is wrong with an entry, or with the whole. -/
inductive Defect where
  /-- A text is wanted. -/
  | notText
  /-- A text without characters where one character is wanted. -/
  | tooShort
  /-- A text of several characters where one character is wanted. -/
  | tooLong
  /-- A text in which halves of surrogate pairs stand, where characters are counted or compared. -/
  | notCharacters
  /-- No setting has this name. -/
  | unknown
  /-- The name of an entry is not a text. -/
  | nameNotText
  /-- The whole is not a mapping. -/
  | notMapping
  deriving DecidableEq, Repr

/-- The wording of a defect. -/
def Defect.message : Defect → String
  | notText => "Input should be a valid string"
  | tooShort => "String should have at least 1 character"
  | tooLong => "String should have at most 1 character"
  | notCharacters =>
    "Input should be a valid string, unable to parse raw data as a unicode string"
  | unknown => "Extra inputs are not permitted"
  | nameNotText => "Keys should be strings"
  | notMapping => "Input should be a valid dictionary or instance of EngineConfig"

end DecisionTables.Settings
