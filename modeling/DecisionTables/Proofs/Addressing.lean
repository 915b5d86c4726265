import DecisionTables.Proofs.Denoting
import DecisionTables.Rule

/-!
# Addresses as they are shown

A coordinate is shown by the names of its source and its fragment with two colons between them, and a
constant by its own text.  What is shown is read as the same coordinate, unless two colons in a
row come to stand where none did: behind a source that ends in a colon, or in a constant that is
shown without its source.
-/

namespace DecisionTables

namespace Coordinate

/-! ## Two colons in a row -/

/-- Two colons in a row stand among characters. -/
def Separated (cs : List Char) : Prop := [':', ':'] <:+: cs

section

variable {cs before after more : List Char} {c : Char}

theorem not_separated_nil : ¬ Separated [] := by
  simp [Separated]

theorem separated_cons_iff : Separated (c :: cs) ↔ c = ':' ∧ cs.head? = some ':' ∨ Separated cs := by
  rw [Separated, List.infix_cons_iff, List.cons_prefix_cons, eq_comm]
  cases cs with
  | nil => simp [Separated]
  | cons d cs => simp [Separated, eq_comm]

theorem separated_of_part (within : cs <:+: more) (separated : Separated cs) : Separated more :=
  separated.trans within

theorem separated_append_pair (before after : List Char) : Separated (before ++ ':' :: ':' :: after) :=
  ⟨before, after, by simp⟩

/-- A character that is no colon stands between none of them. -/
theorem separated_append_cons_iff (other : c ≠ ':') :
    Separated (before ++ c :: after) ↔ Separated before ∨ Separated after := by
  induction before with
  | nil => simp [separated_cons_iff, not_separated_nil, other]
  | cons d before ih =>
      rw [List.cons_append, separated_cons_iff, separated_cons_iff, ih]
      cases before with
      | nil => simp [other, not_separated_nil]
      | cons _ _ => simp [or_assoc]

/-- One colon more makes two in a row behind another one. -/
theorem separated_concat_iff : Separated (cs ++ [':']) ↔ Separated cs ∨ cs.getLast? = some ':' := by
  induction cs with
  | nil => simp [separated_cons_iff, not_separated_nil]
  | cons d cs ih =>
      rw [List.cons_append, separated_cons_iff, separated_cons_iff, ih]
      cases cs with
      | nil => simp [not_separated_nil]
      | cons e cs => simp [or_assoc]

theorem splitAtSeparator?_eq_none_iff : splitAtSeparator? cs = none ↔ ¬ Separated cs := by
  fun_induction splitAtSeparator? cs with
  | case1 => simp [not_separated_nil]
  | case2 rest => simpa using separated_append_pair [] rest
  | case3 c rest apart ih =>
      have next : ¬ (c = ':' ∧ rest.head? = some ':') := by
        rintro ⟨rfl, starts⟩
        obtain ⟨rest', rfl⟩ := List.head?_eq_some_iff.mp starts
        exact apart rest' rfl rfl
      rw [Option.map_eq_none_iff, ih, separated_cons_iff, or_iff_right next]

/-- A text is cut where the first two colons in a row stand. -/
theorem splitAtSeparator?_eq_some_iff : splitAtSeparator? cs = some (before, after) ↔
    cs = before ++ ':' :: ':' :: after ∧ ¬ Separated (before ++ [':']) := by
  fun_induction splitAtSeparator? cs generalizing before with
  | case1 => simp
  | case2 rest =>
      cases before with
      | nil => simp [separated_cons_iff, not_separated_nil]
      | cons c before =>
          refine iff_of_false (by simp) ?_
          rintro ⟨same, first⟩
          obtain ⟨rfl, others⟩ := List.cons.inj same
          -- the second colon of the text would stand behind the first one already
          refine first (separated_cons_iff.mpr (.inl ⟨rfl, ?_⟩))
          cases before with
          | nil => rfl
          | cons d before =>
              obtain ⟨rfl, _⟩ := List.cons.inj others
              rfl
  | case3 c rest apart ih =>
      cases before with
      | nil =>
          refine iff_of_false (by simp) ?_
          rintro ⟨same, _⟩
          obtain ⟨rfl, rfl⟩ := List.cons.inj same
          exact apart after rfl rfl
      | cons d before =>
          have next : rest = before ++ ':' :: ':' :: after →
              ¬ (c = ':' ∧ (before ++ [':']).head? = some ':') := by
            rintro rfl ⟨rfl, starts⟩
            cases before with
            | nil => exact apart (':' :: after) rfl rfl
            | cons e before =>
                obtain rfl : e = ':' := by simpa using starts
                exact apart _ rfl rfl
          simp only [Option.map_eq_some_iff, Prod.exists, Prod.mk.injEq, List.cons.injEq, List.cons_append,
            separated_cons_iff]
          constructor
          · rintro ⟨before, _, found, ⟨rfl, rfl⟩, rfl⟩
            obtain ⟨same, first⟩ := ih.mp found
            exact ⟨⟨rfl, same⟩, not_or.mpr ⟨next same, first⟩⟩
          · rintro ⟨⟨rfl, same⟩, first⟩
            exact ⟨before, after, ih.mpr ⟨same, (not_or.mp first).2⟩, ⟨rfl, rfl⟩, rfl⟩

end

/-! ## Coordinates as they are read -/

section

variable {t : String} {before after : List Char}

/-- A text in which no two colons stand in a row is a constant. -/
theorem parse_of_not_separated (plain : ¬ Separated t.toList) : parse t = ⟨constantSource, Text.strip t⟩ := by
  obtain ⟨left, right, parts, _, _⟩ := Text.exists_trim Text.isBlank t.toList
  have trimmed : ¬ Separated (Text.trim Text.isBlank t.toList) :=
    fun separated => plain (separated_of_part ⟨left, right, parts.symm⟩ separated)
  rw [parse, splitAtSeparator?_eq_none_iff.mpr trimmed]
  rfl

/-- Any other text is cut at the first two colons, and both parts are trimmed; it does not matter whether
the text was trimmed before. -/
theorem parse_of_separated (parts : t.toList = before ++ ':' :: ':' :: after)
    (first : ¬ Separated (before ++ [':'])) :
    parse t = ⟨Text.strip (String.ofList before), Text.strip (String.ofList after)⟩ := by
  have colon : Text.isBlank ':' = false := rfl
  have trimmed : Text.trim Text.isBlank t.toList =
      Text.trimLeft Text.isBlank before ++ ':' :: ':' :: Text.trimRight Text.isBlank after := by
    have behind := Text.trimRight_append_cons colon [] after
    rw [List.nil_append] at behind
    rw [parts, Text.trim, Text.trimLeft_append_cons colon, Text.trimRight_append_cons colon, behind]
    rfl
  have first' : ¬ Separated (Text.trimLeft Text.isBlank before ++ [':']) := by
    rw [← Text.trimLeft_append_cons colon]
    exact fun separated => first (separated_of_part (List.dropWhile_suffix _).isInfix separated)
  rw [parse, splitAtSeparator?_eq_some_iff.mpr ⟨trimmed, first'⟩]
  simp [Text.strip]

theorem exists_separated (separated : Separated t.toList) : ∃ before after,
    t.toList = before ++ ':' :: ':' :: after ∧ ¬ Separated (before ++ [':']) := by
  cases cut : splitAtSeparator? t.toList with
  | none => exact (splitAtSeparator?_eq_none_iff.mp cut separated).elim
  | some parts => exact ⟨parts.1, parts.2, splitAtSeparator?_eq_some_iff.mp cut⟩

theorem strip_constantSource : Text.strip constantSource = constantSource := by decide

theorem not_separated_constantSource : ¬ Separated constantSource.toList :=
  splitAtSeparator?_eq_none_iff.mp (by decide)

theorem last_constantSource : constantSource.toList.getLast? ≠ some ':' := by decide

/-- Both parts of a coordinate that is read are trimmed, and its source holds no two colons in a row. -/
structure IsRead (c : Coordinate) : Prop where
  source : Text.strip c.source = c.source
  fragment : Text.strip c.fragment = c.fragment
  single : ¬ Separated c.source.toList

theorem isRead_parse (t : String) : (parse t).IsRead := by
  by_cases separated : Separated t.toList
  · obtain ⟨before, after, parts, first⟩ := exists_separated separated
    obtain ⟨left, right, trimmed, _, _⟩ := Text.exists_trim Text.isBlank before
    rw [parse_of_separated parts first]
    refine ⟨by simp [Text.strip], by simp [Text.strip], fun doubled => first ?_⟩
    have within : Text.trim Text.isBlank before <:+: before := ⟨left, right, trimmed.symm⟩
    rw [Text.toList_strip, String.toList_ofList] at doubled
    exact separated_concat_iff.mpr (.inl (separated_of_part within doubled))
  · rw [parse_of_not_separated separated]
    exact ⟨strip_constantSource, by simp [Text.strip], not_separated_constantSource⟩

/-- Behind blanks no two colons in a row come to stand but by two more. -/
theorem not_separated_blanks {blanks : List Char} (first : ¬ Separated (before ++ [':']))
    (apart : blanks ≠ []) (blank : ∀ c ∈ blanks, Text.isBlank c = true) :
    ¬ Separated (before ++ ':' :: blanks ++ [':']) := by
  have other : ∀ c ∈ blanks, c ≠ ':' := by
    rintro _ member rfl
    exact Bool.false_ne_true (blank ':' member)
  obtain ⟨b, blanks, rfl⟩ := List.exists_cons_of_ne_nil apart
  rw [separated_concat_iff, List.append_cons, separated_append_cons_iff (other b List.mem_cons_self)]
  rintro ((doubled | within) | last)
  · exact first doubled
  · exact other ':' (List.mem_cons_of_mem _ (within.subset List.mem_cons_self)) rfl
  · rw [List.getLast?_append, List.getLast?_eq_some_getLast (List.cons_ne_nil b blanks),
      Option.some_or] at last
    exact other _ (List.getLast_mem _) (Option.some.inj last)

/-- The source of a text ends in a colon where only blanks stand between a colon and the first two
colons in a row. -/
theorem source_parse_ends_iff : (parse t).source.toList.getLast? = some ':' ↔
    ∃ before blanks after, t.toList = before ++ ':' :: blanks ++ ':' :: ':' :: after ∧ blanks ≠ [] ∧
      (∀ c ∈ blanks, Text.isBlank c = true) ∧ ¬ Separated (before ++ [':']) := by
  constructor
  · intro ends
    by_cases separated : Separated t.toList
    · obtain ⟨whole, after, parts, first⟩ := exists_separated separated
      obtain ⟨left, blanks, trimmed, _, blank⟩ := Text.exists_trim Text.isBlank whole
      rw [parse_of_separated parts first, Text.toList_strip, String.toList_ofList] at ends
      obtain ⟨inner, shape⟩ := List.getLast?_eq_some_iff.mp ends
      rw [shape] at trimmed
      have cut : whole = left ++ inner ++ ':' :: blanks := by simpa using trimmed
      refine ⟨left ++ inner, blanks, after, by rw [parts, cut], ?_, blank, ?_⟩
      · rintro rfl
        exact first (by simpa [cut] using separated_append_pair (left ++ inner) [])
      · exact fun doubled => first (separated_of_part ⟨[], blanks ++ [':'], by simp [cut]⟩ doubled)
    · rw [parse_of_not_separated separated] at ends
      exact (last_constantSource ends).elim
  · rintro ⟨before, blanks, after, parts, apart, blank, first⟩
    have trimmed : Text.trim Text.isBlank (before ++ ':' :: blanks) =
        Text.trimLeft Text.isBlank before ++ [':'] := by
      have colon : Text.isBlank ':' = false := rfl
      rw [List.append_cons, Text.trim_append_right blank, Text.trim, Text.trimLeft_append_cons colon,
        Text.trimRight_append_cons colon]
      rfl
    rw [parse_of_separated parts (not_separated_blanks first apart blank), Text.toList_strip,
      String.toList_ofList, trimmed, List.getLast?_concat]

end

/-! ## Coordinates as they are shown -/

theorem toList_text_of_source {c : Coordinate} (named : c.source ≠ constantSource) :
    c.text.toList = c.source.toList ++ ':' :: ':' :: c.fragment.toList := by
  rw [text_of_source_ne named]
  simp [separator]

variable {c : Coordinate}

/-- A constant that is shown without its source is read as the same constant if no two colons in a row
stand in it: what is read of others is shorter. -/
theorem parse_fragment_iff (read : c.IsRead) (constant : c.isConstant = true) :
    parse c.fragment = c ↔ ¬ Separated c.fragment.toList := by
  constructor
  · intro same separated
    obtain ⟨before, after, parts, first⟩ := exists_separated separated
    rw [parse_of_separated parts first] at same
    have shorter := Text.length_trim_le Text.isBlank after
    have kept := congrArg (fun c : Coordinate => c.fragment.toList.length) same
    simp only [parts, Text.toList_strip, String.toList_ofList, List.length_append, List.length_cons] at kept
    omega
  · intro plain
    rw [parse_of_not_separated plain, read.fragment]
    exact Coordinate.ext (beq_iff_eq.mp constant).symm rfl

/-- Any other coordinate is read as the same if its source does not end in a colon: if it does, the two
colons behind it stand one place too early. -/
theorem parse_text_iff_of_source (read : c.IsRead) (named : c.source ≠ constantSource) :
    parse c.text = c ↔ c.source.toList.getLast? ≠ some ':' := by
  have shown := toList_text_of_source named
  constructor
  · intro same ends
    obtain ⟨inner, shape⟩ := List.getLast?_eq_some_iff.mp ends
    have parts : c.text.toList = inner ++ ':' :: ':' :: (':' :: c.fragment.toList) := by simp [shown, shape]
    have first : ¬ Separated (inner ++ [':']) := by
      rw [← shape]
      exact read.single
    rw [parse_of_separated parts first] at same
    have shorter := Text.length_trim_le Text.isBlank inner
    have kept := congrArg (fun c : Coordinate => c.source.toList.length) same
    simp only [shape, Text.toList_strip, String.toList_ofList, List.length_append, List.length_cons] at kept
    omega
  · intro apart
    have first : ¬ Separated (c.source.toList ++ [':']) := by
      rw [separated_concat_iff]
      exact not_or.mpr ⟨read.single, apart⟩
    rw [parse_of_separated shown first, String.ofList_toList, String.ofList_toList, read.source, read.fragment]

theorem parse_text_iff (read : c.IsRead) : parse c.text = c ↔
    ¬ (c.isConstant = true ∧ Separated c.fragment.toList) ∧ c.source.toList.getLast? ≠ some ':' := by
  cases constant : c.isConstant with
  | true =>
      have source : c.source = constantSource := beq_iff_eq.mp constant
      rw [text, if_pos constant, parse_fragment_iff read constant, source]
      simp [last_constantSource]
  | false =>
      rw [parse_text_iff_of_source read (beq_eq_false_iff_ne.mp constant)]
      simp

/-- What is shown of a coordinate, as traces and failed tests show it before the cell of a condition, is
read as the coordinate itself, wherever colons, blanks and two colons in a row stand in the text
that it was read from.  It is not for a constant that is written with its source and in which two
colons stand in a row, and not where only blanks stand between a colon and the first two colons
in a row. -/
theorem shown_addresses_are_read_back (t : String) :
    (parse (parse t).text = parse t ↔
      ¬ ((parse t).isConstant = true ∧ Separated (parse t).fragment.toList) ∧
      ¬ ∃ before blanks after, t.toList = before ++ ':' :: blanks ++ ':' :: ':' :: after ∧ blanks ≠ [] ∧
        (∀ c ∈ blanks, Text.isBlank c = true) ∧ ¬ Separated (before ++ [':'])) ∧
    ∀ cell, (Condition.parse t cell).text = (parse t).text ++ " " ++ cell := by
  constructor
  · rw [parse_text_iff (isRead_parse t), ← source_parse_ends_iff]
  · intro cell
    rw [Condition.text, Condition.parse, Cell.text_parse]

/-- A source that ends in a colon, and a constant with two colons in a row, are shown as addresses of
something else. -/
theorem shown_addresses_mislead :
    (parse "a: ::b" = ⟨"a:", "b"⟩ ∧ parse (parse "a: ::b").text = ⟨"a", ":b"⟩) ∧
    (parse "constant::a::b" = ⟨constantSource, "a::b"⟩ ∧
      parse (parse "constant::a::b").text = ⟨"a", "b"⟩) ∧
    ¬ ∀ t, parse (parse t).text = parse t :=
  ⟨by decide, by decide, fun all => absurd (all "a: ::b") (by decide)⟩

end Coordinate

end DecisionTables
