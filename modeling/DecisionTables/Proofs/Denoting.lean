import DecisionTables.Cell

/-!
# Cells and their texts

Every text is a cell, and a cell is shown as the text it was written as.  So no two texts are the
same cell.  Not every cell can be written, though: a literal that looks like an operator would
be read as one.
-/

namespace DecisionTables.Cell

/-! ## Cells as they are shown -/

theorem text_parseBody (negated : Bool) (body : List Char) :
    (parseBody negated body).text = (if negated then "!" else "") ++ String.ofList body := by
  unfold parseBody
  split <;> cases negated <;> simp [text, Operator.sign, ← String.toList_inj]

/-- A cell is shown as it was written. -/
theorem text_parse (b : String) : (parse b).text = b := by
  rw [parse]
  split
  · next body starts =>
      rw [text_parseBody, if_pos rfl, ← String.toList_inj, starts]
      simp
  · rw [text_parseBody, ← String.toList_inj]
    simp

/-! ## Cells that can be written -/

/-- A literal that an exclamation mark or nothing stands before, and that is read as a literal
there. -/
structure IsPlain (literal : String) (negated : Bool) : Prop where
  tilde : literal ≠ "~"
  greater : literal.toList.head? ≠ some '>'
  less : literal.toList.head? ≠ some '<'
  mark : literal.toList.head? = some '!' → negated = true

/-- A cell that can be written: a tilde has no literal, a comparison any, and the literal of an
equality does not look like anything else. -/
def IsWritten (cell : Cell) : Prop :=
  match cell.operator with
  | .any => cell.literal = ""
  | .greaterThan | .lessThan => True
  | .equals => IsPlain cell.literal cell.negated

/-- A body without operator is read as a literal. -/
theorem parseBody_literal {literal : String} {negated : Bool} (plain : IsPlain literal negated) :
    parseBody negated literal.toList = ⟨.equals, literal, negated⟩ := by
  unfold parseBody
  split
  · next starts => exact (plain.tilde (String.toList_inj.mp starts)).elim
  · next starts => exact (plain.greater (by rw [starts]; rfl)).elim
  · next starts => exact (plain.less (by rw [starts]; rfl)).elim
  · rw [String.ofList_toList]

/-- The sign of an operator and the literal behind it are read as what they are. -/
theorem parseBody_sign {cell : Cell} (written : cell.IsWritten) :
    parseBody cell.negated (cell.operator.sign ++ cell.literal).toList = cell := by
  obtain ⟨operator, literal, negated⟩ := cell
  cases operator with
  | any =>
      obtain rfl : literal = "" := written
      simp [Operator.sign, parseBody]
  | greaterThan => simp [Operator.sign, parseBody]
  | lessThan => simp [Operator.sign, parseBody]
  | equals =>
      rw [Operator.sign, String.empty_append]
      exact parseBody_literal written

/-- Nothing that is written without an exclamation mark starts with one. -/
theorem head?_ne_mark {cell : Cell} (written : cell.IsWritten) (unmarked : cell.negated = false) :
    (cell.operator.sign ++ cell.literal).toList.head? ≠ some '!' := by
  obtain ⟨operator, literal, negated⟩ := cell
  cases operator with
  | equals =>
      rw [Operator.sign, String.empty_append]
      intro starts
      have marked : negated = true := IsPlain.mark written starts
      cases marked.symm.trans unmarked
  | _ => simp [Operator.sign]

/-- What can be written is read back. -/
theorem parse_text {cell : Cell} (written : cell.IsWritten) : parse cell.text = cell := by
  have body := parseBody_sign written
  cases marked : cell.negated with
  | true =>
      have shown : cell.text.toList = '!' :: (cell.operator.sign ++ cell.literal).toList := by
        rw [text, marked, if_pos rfl, String.append_assoc, String.toList_append]
        rfl
      rw [parse, shown, ← marked]
      exact body
  | false =>
      have shown : cell.text = cell.operator.sign ++ cell.literal := by
        rw [text, marked, if_neg Bool.false_ne_true, String.append_assoc, String.empty_append]
      rw [parse, shown]
      split
      · next starts => exact (head?_ne_mark written marked (by rw [starts]; rfl)).elim
      · rw [← marked]
        exact body

/-- What a body is read as can be written. -/
theorem isWritten_parseBody {negated : Bool} {body : List Char}
    (unmarked : body.head? = some '!' → negated = true) : (parseBody negated body).IsWritten := by
  unfold parseBody
  split
  · rfl
  · trivial
  · trivial
  · next tilde greater less =>
      refine ⟨fun same => tilde ?_, ?_, ?_, ?_⟩
      · simpa using congrArg String.toList same
      all_goals rw [String.toList_ofList]
      · exact fun starts => (List.head?_eq_some_iff.mp starts).elim greater
      · exact fun starts => (List.head?_eq_some_iff.mp starts).elim less
      · exact unmarked

theorem isWritten_parse (b : String) : (parse b).IsWritten := by
  rw [parse]
  split
  · exact isWritten_parseBody fun _ => rfl
  · next unmarked =>
      exact isWritten_parseBody fun starts => ((List.head?_eq_some_iff.mp starts).elim unmarked).elim

/-- The language of cells is unambiguous.  Every text is a cell and is shown as it was written, so
different texts are different cells.  The cells that texts denote are those without a literal
behind a tilde, with any literal behind a comparison, and, where there is no operator, with a literal
that looks like nothing else; these, and no others, are read back from what is shown of them. -/
theorem texts_denote_cells :
    (∀ b, (parse b).text = b) ∧ (∀ cell, parse cell.text = cell ↔ cell.IsWritten) ∧
    Function.Injective parse ∧ ∀ cell, (∃ b, parse b = cell) ↔ cell.IsWritten := by
  have written : ∀ cell, (∃ b, parse b = cell) ↔ cell.IsWritten := by
    intro cell
    constructor
    · rintro ⟨b, rfl⟩
      exact isWritten_parse b
    · exact fun written => ⟨cell.text, parse_text written⟩
  refine ⟨text_parse, fun cell => ⟨fun back => ?_, parse_text⟩, fun b b' same => ?_, written⟩
  · exact (written cell).mp ⟨cell.text, back⟩
  · rw [← text_parse b, same, text_parse]

/-- Cells whose parts overlap with the signs of the language. -/
example : ["!!x", "!", "~x", "!~", ">", ""].map parse =
    [⟨.equals, "!x", true⟩, ⟨.equals, "", true⟩, ⟨.equals, "~x", false⟩, ⟨.any, "", true⟩,
      ⟨.greaterThan, "", false⟩, ⟨.equals, "", false⟩] := by decide

end DecisionTables.Cell
