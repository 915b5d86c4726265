/-!
# Blank characters

The white space that is trimmed from cells, subjects and coordinates.  The class
is the Unicode white space together with the four ASCII information separators.
-/

namespace DecisionTables.Text

/-- A blank character: Unicode white space or one of U+001C to U+001F. -/
def isBlank (c : Char) : Bool :=
  let n := c.toNat
  (0x09 ≤ n && n ≤ 0x0D) || (0x1C ≤ n && n ≤ 0x20) || n == 0x85 || n == 0xA0 ||
    n == 0x1680 || (0x2000 ≤ n && n ≤ 0x200A) || n == 0x2028 || n == 0x2029 ||
    n == 0x202F || n == 0x205F || n == 0x3000

/-- Drop every leading character of a class. -/
def trimLeft (drop : Char → Bool) (cs : List Char) : List Char :=
  cs.dropWhile drop

/-- Drop every trailing character of a class. -/
def trimRight (drop : Char → Bool) (cs : List Char) : List Char :=
  (cs.reverse.dropWhile drop).reverse

/-- Drop the characters of a class at both ends. -/
def trim (drop : Char → Bool) (cs : List Char) : List Char :=
  trimRight drop (trimLeft drop cs)

/-- The text without the blanks at its two ends. -/
def strip (s : String) : String :=
  String.ofList (trim isBlank s.toList)

theorem isBlank_of_isWhitespace {c : Char} (h : c.isWhitespace = true) : isBlank c = true := by
  simp only [Char.isWhitespace, Bool.or_eq_true, decide_eq_true_eq] at h
  rcases h with ((rfl | rfl) | rfl) | rfl <;> rfl

@[simp] theorem toList_strip (s : String) : (strip s).toList = trim isBlank s.toList := by
  simp [strip]

variable {drop : Char → Bool} {cs more : List Char}

/-! ### Trimming -/

theorem forall_takeWhile (drop : Char → Bool) (cs : List Char) :
    ∀ c ∈ cs.takeWhile drop, drop c = true :=
  List.all_eq_true.mp List.all_takeWhile

/-- Dropping stops at a character that is not of the class. -/
theorem trimLeft_append_cons {c : Char} (kept : drop c = false) (cs rest : List Char) :
    trimLeft drop (cs ++ c :: rest) = trimLeft drop cs ++ c :: rest := by
  rw [trimLeft, trimLeft, List.dropWhile_append, List.dropWhile_cons, kept]
  split
  · next dropped => rw [List.isEmpty_iff.mp dropped]; rfl
  · rfl

theorem trimRight_append_cons {c : Char} (kept : drop c = false) (cs rest : List Char) :
    trimRight drop (cs ++ c :: rest) = cs ++ c :: trimRight drop rest := by
  have reversed : (cs ++ c :: rest).reverse = rest.reverse ++ c :: cs.reverse := by simp
  have dropped := trimLeft_append_cons kept rest.reverse cs.reverse
  rw [trimLeft] at dropped
  rw [trimRight, trimRight, reversed, dropped, trimLeft]
  simp

/-- What is of the class at the start does not count. -/
theorem trim_append_left (dropped : ∀ c ∈ more, drop c = true) (cs : List Char) :
    trim drop (more ++ cs) = trim drop cs := by
  rw [trim, trim, trimLeft, trimLeft, List.dropWhile_append_of_pos dropped]

/-- Nor does what is of the class at the end. -/
theorem trim_append_right (dropped : ∀ c ∈ more, drop c = true) (cs : List Char) :
    trim drop (cs ++ more) = trim drop cs := by
  have behind : ∀ xs, trimRight drop (xs ++ more) = trimRight drop xs := by
    intro xs
    rw [trimRight, trimRight, List.reverse_append,
      List.dropWhile_append_of_pos fun c member => dropped c (List.mem_reverse.mp member)]
  rw [trim, trim, trimLeft, trimLeft, List.dropWhile_append]
  split
  · next all =>
      have none : more.dropWhile drop = [] := by
        rw [← List.append_nil more, List.dropWhile_append_of_pos dropped, List.dropWhile_nil]
      rw [List.isEmpty_iff.mp all, none]
  · exact behind _

theorem exists_trimRight (drop : Char → Bool) (cs : List Char) :
    ∃ more, cs = trimRight drop cs ++ more ∧ ∀ c ∈ more, drop c = true := by
  refine ⟨(cs.reverse.takeWhile drop).reverse, ?_,
    fun c member => forall_takeWhile drop _ c (List.mem_reverse.mp member)⟩
  rw [trimRight, ← List.reverse_append, List.takeWhile_append_dropWhile, List.reverse_reverse]

@[simp] theorem trim_trimLeft (drop : Char → Bool) (cs : List Char) :
    trim drop (trimLeft drop cs) = trim drop cs := by
  have parts : cs.takeWhile drop ++ trimLeft drop cs = cs := List.takeWhile_append_dropWhile
  rw [← trim_append_left (forall_takeWhile drop cs), parts]

@[simp] theorem trim_trimRight (drop : Char → Bool) (cs : List Char) :
    trim drop (trimRight drop cs) = trim drop cs := by
  obtain ⟨more, parts, dropped⟩ := exists_trimRight drop cs
  rw [← trim_append_right dropped, ← parts]

/-- A text that is trimmed stays as it is. -/
@[simp] theorem trim_trim (drop : Char → Bool) (cs : List Char) :
    trim drop (trim drop cs) = trim drop cs :=
  (trim_trimRight drop (trimLeft drop cs)).trans (trim_trimLeft drop cs)

/-- What stands around a text that is trimmed is of the class. -/
theorem exists_trim (drop : Char → Bool) (cs : List Char) :
    ∃ before after, cs = before ++ trim drop cs ++ after ∧ (∀ c ∈ before, drop c = true) ∧
      ∀ c ∈ after, drop c = true := by
  obtain ⟨after, parts, dropped⟩ := exists_trimRight drop (trimLeft drop cs)
  refine ⟨cs.takeWhile drop, after, ?_, forall_takeWhile drop cs, dropped⟩
  rw [trim, List.append_assoc, ← parts, trimLeft, List.takeWhile_append_dropWhile]

theorem length_trim_le (drop : Char → Bool) (cs : List Char) : (trim drop cs).length ≤ cs.length := by
  obtain ⟨before, after, parts, _, _⟩ := exists_trim drop cs
  have lengths := congrArg List.length parts
  rw [List.length_append, List.length_append] at lengths
  omega

theorem trim_of_forall (kept : ∀ c ∈ cs, drop c = false) : trim drop cs = cs := by
  have untrimmed : ∀ ds : List Char, (∀ c ∈ ds, drop c = false) → ds.dropWhile drop = ds := by
    intro ds kept
    cases ds with
    | nil => rfl
    | cons c ds => simp [kept c List.mem_cons_self]
  rw [trim, trimLeft, trimRight, untrimmed cs kept,
    untrimmed cs.reverse fun c member => kept c (List.mem_reverse.mp member), List.reverse_reverse]

end DecisionTables.Text
