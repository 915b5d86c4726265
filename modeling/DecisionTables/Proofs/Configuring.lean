import DecisionTables.Proofs.Restoring

/-!
# Checking a configuration

A configuration is accepted where it is blank, or a mapping of the names of settings to what they
may be set to.  Otherwise its defects are reported, one for each entry that is in the way.  What
was accepted names its directories from the root, so that it describes itself wherever it is read
again.
-/

namespace DecisionTables

namespace Setting

/-! ## Single settings -/

/-- The value is a text. -/
def IsText (value : Value) : Prop :=
  ∃ w : Settings.Wording, value = .scalar w.toScalar

/-- What a setting may be set to: the delimiter to one character, the extension to a text, and a
directory to a text or to nothing. -/
def Allows : Setting → Value → Prop
  | delimiter, value => ∃ c, value = .text (String.singleton c)
  | extension, value => IsText value
  | tables, value | commands, value | tests, value => value = .null ∨ IsText value

variable {setting setting' : Setting} {value : Value} {name : String}

theorem isText_text (s : String) : IsText (.text s) := ⟨.plain s, rfl⟩

theorem isText_units (us : List Nat) : IsText (.scalar (.units us)) := ⟨.halved us, rfl⟩

/-- Every setting but the delimiter may be set to a text. -/
theorem allows_isText (other : setting ≠ delimiter) (text : IsText value) : setting.Allows value := by
  cases setting with
  | delimiter => exact absurd rfl other
  | extension => exact text
  | tables | commands | tests => exact .inr text

theorem defect?_delimiter_text (s : String) : delimiter.defect? (.text s) = none ↔ s.length = 1 := by
  simp only [defect?]
  split
  next empty => simp [String.isEmpty_iff.mp empty]
  next some =>
    have : s.length ≠ 0 := by simpa [String.isEmpty_iff, ← String.length_eq_zero_iff] using some
    split <;> simp <;> omega

theorem exists_singleton {s : String} (single : s.length = 1) : ∃ c, s = String.singleton c := by
  rw [← String.length_toList] at single
  obtain ⟨c, shape⟩ := List.length_eq_one_iff.mp single
  exact ⟨c, String.toList_injective (by simpa using shape)⟩

theorem defect?_eq_none_iff : setting.defect? value = none ↔ setting.Allows value := by
  constructor
  · intro clean
    unfold defect? at clean
    split at clean
    case h_1 s =>
      obtain ⟨c, rfl⟩ := exists_singleton ((defect?_delimiter_text s).mp clean)
      exact ⟨c, rfl⟩
    case h_3 s other => exact allows_isText other (isText_text s)
    case h_4 us other => exact allows_isText other (isText_units us)
    case h_5 | h_6 | h_7 => exact .inl rfl
    case h_2 | h_8 => cases clean
  · intro allowed
    cases setting with
    | delimiter =>
        obtain ⟨c, rfl⟩ := allowed
        simp [defect?_delimiter_text]
    | extension =>
        obtain ⟨w, rfl⟩ := allowed
        cases w <;> rfl
    | tables | commands | tests =>
        rcases allowed with rfl | ⟨w, rfl⟩
        · rfl
        · cases w <;> rfl

/-- The setting with a name. -/
def named? (name : String) : Option Setting :=
  all.find? fun setting => setting.label == name

end Setting

namespace Settings

/-! ## Entries -/

/-- The problem with an entry: a wrong value of a setting, a name that is that of no setting, or one
that is no text. -/
def problem? (entry : Scalar × Value) : Option (String × Defect) :=
  match entry.1 with
  | .text name =>
    match Setting.named? name with
    | some setting => (setting.defect? entry.2).map fun defect => (setting.label, defect)
    | none => some (name, .unknown)
  | key => some (entryName key, .nameNotText)

section

variable {entries : Assoc Scalar Value} {entry : Scalar × Value} {setting : Setting} {value : Value}

end

/-! ## Whole configurations -/

/-- What is reported of a value that does not describe settings: of a mapping one problem for each
entry that does not fit, and a single one where the value is no mapping, or a name in it cannot be
compared with those of the settings. -/
inductive Reports : Value → List (String × Defect) → Prop where
  | whole {value} (other : ∀ entries, value ≠ .mapping entries) : Reports value [("", .notMapping)]
  | name {entries entry} (member : entry ∈ entries) (halved : isHalved entry.1 = true) :
      Reports (.mapping entries) [("", .notCharacters)]
  | entries {entries problems} (names : ∀ entry ∈ entries, isHalved entry.1 = false)
      (each : problems.Perm (entries.filterMap problem?)) : Reports (.mapping entries) problems

section

variable {base : String} {entries : Assoc Scalar Value} {value : Value} {settings : Settings}
  {setting : Setting} {w : Wording}

/-- The directory that settings give for a purpose. -/
def directory? (settings : Settings) : Setting → Option Wording
  | .tables => settings.tables
  | .commands => settings.commands
  | .tests => settings.tests
  | .delimiter | .extension => none

/-- The value of a setting in the configuration that settings make. -/
def valueOf (settings : Settings) : Setting → Value
  | .delimiter => .text settings.delimiter
  | .extension => .scalar settings.extension.toScalar
  | setting => .scalar ((settings.directory? setting).elim .null Wording.toScalar)

/-- Settings that mean the same wherever they are read. -/
structure Settled (settings : Settings) : Prop where
  single : ∃ c, settings.delimiter = String.singleton c
  placed : ∀ {setting w}, settings.directory? setting = some w → w.isEmpty = true ∨ w.isAbsolute = true

end

end Settings

end DecisionTables
