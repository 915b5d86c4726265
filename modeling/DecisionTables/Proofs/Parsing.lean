import Mathlib
import DecisionTables.Proofs.Arranging
import DecisionTables.Proofs.Escaping
import DecisionTables.Proofs.Laying

/-!
# Reading what was written

What is written for a value in JavaScript object notation is read as this value, whatever may
follow it in a list or mapping.  So the text of a value says everything about it.
-/

namespace DecisionTables

/-- A scalar that the notation can carry: an integer that is not too long, a number of the format,
and a text without halves of pairs. -/
def Scalar.Portable : Scalar → Prop
  | .int i => Scalar.hasText (.int i) = true
  | .float x => x.Proper
  | .units _ => False
  | _ => True

theorem Scalar.hasText_of_portable {s : Scalar} (portable : s.Portable) : s.hasText = true := by
  cases s with
  | int i => exact portable
  | _ => rfl

namespace Json

open Numeral (AllDigits Leads Laid Stops head?_digit toList_integerText)

/-- What may follow a value: nothing, or what goes on with a list or mapping or ends it. -/
def Ends (rest : List Char) : Prop :=
  ∀ c ∈ rest.head?, c = ',' ∨ c = ']' ∨ c = '\x7d'

theorem Ends.stops {rest : List Char} (ends : Ends rest) : Stops rest := by
  intro c first
  rcases ends c first with rfl | rfl | rfl <;> decide

/-! ## Numbers -/

section

variable {cs whole part rest : List Char}

theorem spanFraction_digits (digits : AllDigits part) (nonempty : part ≠ [])
    (stops : ∀ c ∈ rest.head?, Numeral.isDigit c = false) :
    spanFraction ('.' :: (part ++ rest)) = ('.' :: part, rest) := by
  have filled : part.isEmpty = false := by rwa [List.isEmpty_eq_false_iff]
  simp only [spanFraction, Numeral.spanDigits_append digits stops, filled, Bool.false_eq_true, if_false]

theorem spanFraction_other (pointless : ∀ c ∈ rest.head?, c ≠ '.') :
    spanFraction rest = ([], rest) := by
  cases rest with
  | nil => rfl
  | cons c rest =>
      rw [spanFraction]
      exact fun _ same => pointless c rfl (List.cons.inj same).1

theorem spanExponent_other (stops : Stops rest) : spanExponent rest = ([], rest) := by
  cases rest with
  | nil => rfl
  | cons c rest =>
      obtain ⟨_, _, small, large⟩ := stops c rfl
      simp [spanExponent, small, large]

theorem spanExponent_text (e : Int) (stops : Stops rest) :
    spanExponent (Binary64.exponentText e ++ rest) = (Binary64.exponentText e, rest) := by
  obtain ⟨ds, digits, nonempty, _, text⟩ := Numeral.exponentText_eq e
  have filled : ds.isEmpty = false := by rwa [List.isEmpty_eq_false_iff]
  have span := Numeral.spanDigits_append digits fun c first => (stops c first).1
  rw [text]
  by_cases negative : e < 0
  · simp [if_pos negative, spanExponent, span, filled]
  · simp [if_neg negative, spanExponent, span, filled]

theorem leading_eq (leads : Leads whole) : (if whole.head? == some '0' then ['0'] else whole) = whole := by
  split
  · rename_i zero
    exact (leads.2.2 (eq_of_beq zero)).symm
  · rfl

theorem number_integer (leads : Leads whole) (stops : Stops rest) (negative : Bool)
    (few : whole.length ≤ Numeral.integerLimit) :
    number negative (whole ++ rest) = .ok (.scalar (.int (if negative then
      -(Numeral.natOfDigits whole : Int) else Numeral.natOfDigits whole)), rest) := by
  have filled : whole.isEmpty = false := by
    rw [List.isEmpty_eq_false_iff]
    exact leads.2.1
  have pointless : spanFraction rest = ([], rest) :=
    spanFraction_other fun c first => (stops c first).2.1
  simp only [number, Numeral.spanDigits_append leads.1 fun c first => (stops c first).1, leading_eq leads,
    List.drop_left, pointless, spanExponent_other stops, filled, if_neg (Nat.not_lt.mpr few)]
  rfl

theorem number_float {fraction exponent tail behind : List Char} {negative : Bool} {x : Binary64}
    (leads : Leads whole) (stops : ∀ c ∈ tail.head?, Numeral.isDigit c = false)
    (first : spanFraction tail = (fraction, behind)) (second : spanExponent behind = (exponent, rest))
    (nonempty : fraction ++ exponent ≠ [])
    (read : Numeral.decimal? negative (whole ++ fraction ++ exponent) = some x) :
    number negative (whole ++ tail) = .ok (.scalar (.float x), rest) := by
  have filled : whole.isEmpty = false := by
    rw [List.isEmpty_eq_false_iff]
    exact leads.2.1
  have float : (fraction.isEmpty && exponent.isEmpty) = false := by
    cases fraction with
    | nil =>
        rw [List.isEmpty_nil, Bool.true_and, List.isEmpty_eq_false_iff]
        exact nonempty
    | cons c cs => rfl
  simp only [number, Numeral.spanDigits_append leads.1 stops, leading_eq leads, List.drop_left, first,
    second, filled, float, read, Bool.false_eq_true, if_false]

/-- What is laid out for a number is read as the number. -/
theorem number_laid {d : Decimal} (laid : Laid cs d) (stops : Stops rest) (negative : Bool) :
    number negative (cs ++ rest) =
      .ok (.scalar (.float (Binary64.ofDecimal negative d.digits d.exponent)), rest) := by
  have read := Numeral.decimal?_of_laid laid negative
  have ends : ∀ c ∈ rest.head?, Numeral.isDigit c = false := fun c first => (stops c first).1
  cases laid with
  | @point whole part leads digits nonempty =>
      rw [List.append_assoc]
      refine number_float leads (by simp [Numeral.isDigit]) (spanFraction_digits digits nonempty ends)
        (spanExponent_other stops) (by simp) ?_
      rwa [List.append_nil]
  | @power c part digit digits e =>
      obtain ⟨ds, _, _, _, text⟩ := Numeral.exponentText_eq e
      have leads : Leads [c] := ⟨List.forall_mem_singleton.mpr digit, List.cons_ne_nil _ _, by simp⟩
      have letter : ∀ x ∈ (Binary64.exponentText e ++ rest).head?, x = 'e' := by
        rw [text]
        simp
      have nonempty : Binary64.exponentText e ≠ [] := by
        rw [text]
        exact List.cons_ne_nil _ _
      have second := spanExponent_text e stops
      rw [List.append_assoc, List.cons_append, ← List.singleton_append]
      refine number_float leads ?_ ?_ second
        (List.append_ne_nil_of_right_ne_nil (Numeral.fractionText part) nonempty) read
      · cases part with
        | nil =>
            intro x first
            rw [letter x first]
            rfl
        | cons y ys => simp [Numeral.fractionText, Numeral.isDigit]
      · cases part with
        | nil =>
            refine spanFraction_other fun x first => ?_
            rw [letter x first]
            decide
        | cons y ys =>
            refine spanFraction_digits digits (List.cons_ne_nil _ _) fun x first => ?_
            rw [letter x first]
            rfl

end

/-! ## Scalars -/

section

variable {c : Char} {cs rest : List Char} {fuel room : Nat}

/-- The start of a value that stands on its own or in a list or mapping. -/
def Starts (cs : List Char) : Prop :=
  ∃ c tail, cs = c :: tail ∧ isSpace c = false ∧ c ≠ ']' ∧ c ≠ '\x7d'

theorem Starts.skip_eq (starts : Starts cs) : skip cs = cs := by
  obtain ⟨c, tail, rfl, visible, _⟩ := starts
  exact List.dropWhile_cons_of_neg (by rw [visible]; exact Bool.false_ne_true)

theorem Starts.append (starts : Starts cs) (rest : List Char) : Starts (cs ++ rest) := by
  obtain ⟨c, tail, rfl, first⟩ := starts
  exact ⟨c, tail ++ rest, rfl, first⟩

theorem digit_ne {d : Char} (digit : Numeral.isDigit c = true) (other : Numeral.isDigit d = false) :
    c ≠ d := by
  rintro rfl
  rw [digit] at other
  cases other

theorem starts_digit (digit : Numeral.isDigit c = true) : Starts (c :: cs) := by
  refine ⟨c, cs, rfl, ?_, digit_ne digit rfl, digit_ne digit rfl⟩
  rw [isSpace, beq_false_of_ne (digit_ne digit rfl), beq_false_of_ne (digit_ne digit rfl),
    beq_false_of_ne (digit_ne digit rfl), beq_false_of_ne (digit_ne digit rfl)]
  rfl

theorem word?_eq_none (none : ∀ entry ∈ words, ¬ entry.1.toList <+: cs) : word? cs = .none := by
  rw [word?, List.findSome?_eq_none_iff]
  intro entry member
  have other := none entry member
  rw [← List.isPrefixOf_iff_prefix] at other
  exact if_neg other

theorem word?_digit (digit : Numeral.isDigit c = true) : word? (c :: cs) = none := by
  have other : ∀ d ds, Numeral.isDigit d = false → ¬ d :: ds <+: c :: cs :=
    fun d ds no start => digit_ne digit no (List.cons_prefix_cons.mp start).1.symm
  refine word?_eq_none ?_
  simp only [words, List.forall_mem_cons]
  exact ⟨other _ _ rfl, other _ _ rfl, other _ _ rfl, other _ _ rfl, other _ _ rfl, other _ _ rfl,
    fun _ impossible => absurd impossible List.not_mem_nil⟩

theorem word?_negative (digit : Numeral.isDigit c = true) : word? ('-' :: c :: cs) = none := by
  have other : ∀ d ds, d ≠ '-' → ¬ d :: ds <+: '-' :: c :: cs :=
    fun d ds no start => no (List.cons_prefix_cons.mp start).1
  refine word?_eq_none ?_
  simp only [words, List.forall_mem_cons]
  refine ⟨other _ _ (by decide), other _ _ (by decide), other _ _ (by decide), other _ _ (by decide),
    other _ _ (by decide), fun start => ?_, fun _ impossible => absurd impossible List.not_mem_nil⟩
  have second := (List.cons_prefix_cons.mp start).2
  exact digit_ne digit rfl (List.cons_prefix_cons.mp second).1.symm

theorem value_digit (digit : Numeral.isDigit c = true) :
    value (fuel + 1) room (c :: cs) = number false (c :: cs) := by
  have other : ∀ d, Numeral.isDigit d = false → ∀ rest, c :: cs = d :: rest → False :=
    fun d no rest same => digit_ne digit no (List.cons.inj same).1
  rw [value, word?_digit digit]
  all_goals exact other _ rfl

theorem value_negative (digit : Numeral.isDigit c = true) :
    value (fuel + 1) room ('-' :: c :: cs) = number true (c :: cs) := by
  rw [value, word?_negative digit]

/-- A number is read behind its sign. -/
theorem value_sign {ds : List Char} (leads : ∀ c ∈ ds.head?, Numeral.isDigit c = true) (nonempty : ds ≠ [])
    (negative : Bool) :
    value (fuel + 1) room ((if negative then '-' :: ds else ds) ++ rest) = number negative (ds ++ rest) := by
  cases ds with
  | nil => exact absurd rfl nonempty
  | cons c cs =>
      cases negative with
      | false => exact value_digit (leads c rfl)
      | true => exact value_negative (leads c rfl)

theorem value_integer {i : Int} (portable : (Scalar.int i).Portable) (stops : Stops rest) :
    value (fuel + 1) room ((Scalar.integerText i).toList ++ rest) = .ok (.scalar (.int i), rest) := by
  have leads := Numeral.leads_toDigits i.natAbs
  rw [Scalar.Portable, Scalar.hasText, decide_eq_true_eq, Nat.pow_eq,
    ← Nat.length_toDigits_le_iff (by decide) (by decide)] at portable
  rw [toList_integerText, value_sign (head?_digit leads.1) leads.2.1, number_integer leads stops _ portable,
    Numeral.natOfDigits_toDigits]
  by_cases negative : i < 0
  · rw [if_pos (decide_eq_true negative), show -(i.natAbs : Int) = i by omega]
  · rw [decide_eq_false negative, if_neg Bool.false_ne_true, show (i.natAbs : Int) = i by omega]

theorem value_float {x : Binary64} (proper : x.Proper) (stops : Stops rest) :
    value (fuel + 1) room ((x.render numberLayout).toList ++ rest) = .ok (.scalar (.float x), rest) := by
  cases x with
  | nan => rfl
  | infinite negative => cases negative <;> rfl
  | finite negative units =>
      obtain ⟨cs, d, laid, read, text⟩ :=
        Binary64.exists_laid_finite numberLayout (by decide) proper
      obtain ⟨nonempty, leads⟩ := Laid.head?_digit laid
      rw [text, String.toList_ofList, value_sign leads nonempty, number_laid laid stops, read]

theorem toList_writeText (s : String) :
    (writeText s).toList = '"' :: (s.toList.flatMap writeChar ++ ['"']) := by
  rw [writeText, String.toList_ofList, List.cons_append]

theorem value_text (s : String) :
    value (fuel + 1) room ((writeText s).toList ++ rest) = .ok (.text s, rest) := by
  rw [toList_writeText, List.cons_append, List.append_assoc, List.singleton_append, value,
    stringRest_flatMap, String.ofList_toList]
  rfl

/-- A scalar that is written is read as the scalar. -/
theorem value_writeScalar {s : Scalar} (portable : s.Portable) (ends : Ends rest) :
    value (fuel + 1) room ((writeScalar s).toList ++ rest) = .ok (.scalar s, rest) := by
  cases s with
  | null => rfl
  | bool b => cases b <;> rfl
  | int i => exact value_integer portable ends.stops
  | float x => exact value_float portable ends.stops
  | text s => exact value_text s
  | units us => exact portable.elim

theorem starts_sign {ds : List Char} (leads : ∀ c ∈ ds.head?, Numeral.isDigit c = true) (nonempty : ds ≠ [])
    (negative : Bool) : Starts (if negative then '-' :: ds else ds) := by
  cases ds with
  | nil => exact absurd rfl nonempty
  | cons c cs =>
      cases negative with
      | false => exact starts_digit (leads c rfl)
      | true => exact ⟨'-', c :: cs, rfl, by decide⟩

theorem starts_writeScalar {s : Scalar} (portable : s.Portable) : Starts (writeScalar s).toList := by
  cases s with
  | null => exact ⟨'n', _, rfl, by decide⟩
  | bool b =>
      cases b with
      | false => exact ⟨'f', _, rfl, by decide⟩
      | true => exact ⟨'t', _, rfl, by decide⟩
  | int i =>
      have leads := Numeral.leads_toDigits i.natAbs
      have starts := starts_sign (head?_digit leads.1) leads.2.1 (decide (i < 0))
      rwa [← toList_integerText] at starts
  | float x =>
      cases x with
      | nan => exact ⟨'N', _, rfl, by decide⟩
      | infinite negative =>
          cases negative with
          | false => exact ⟨'I', _, rfl, by decide⟩
          | true => exact ⟨'-', _, rfl, by decide⟩
      | finite negative units =>
          obtain ⟨cs, d, laid, _, text⟩ :=
            Binary64.exists_laid_finite numberLayout (by decide) portable
          obtain ⟨nonempty, leads⟩ := Laid.head?_digit laid
          have starts := starts_sign leads nonempty negative
          rwa [← String.toList_ofList (l := if negative then _ else _), ← text] at starts
  | text s => exact ⟨'"', _, toList_writeText s, by decide⟩
  | units us => exact portable.elim

end

/-! ## Lists and mappings -/

/-- Texts with a comma and a blank between them. -/
def joined (parts : List (List Char)) : List Char :=
  [',', ' '].intercalate parts

/-- The characters of a value. -/
def characters (v : Value) : List Char :=
  (writeArranged v).toList

/-- The characters of an entry of a mapping. -/
def entryCharacters (entry : Scalar × Value) : List Char :=
  (writeKey entry.1).toList ++ ':' :: ' ' :: characters entry.2

theorem entryCharacters_text (key : String) (v : Value) :
    entryCharacters (.text key, v) = (writeText key).toList ++ ':' :: ' ' :: characters v := rfl

theorem toList_intercalate (parts : List String) :
    (", ".intercalate parts).toList = joined (parts.map String.toList) := by
  rw [String.toList_intercalate]
  rfl

theorem joined_cons_cons (first second : List Char) (parts : List (List Char)) :
    joined (first :: second :: parts) = first ++ ',' :: ' ' :: joined (second :: parts) := by
  rw [joined, List.intercalate_cons_cons, List.append_assoc]
  rfl

theorem joined_single (part : List Char) : joined [part] = part :=
  List.intercalate_singleton

theorem characters_list (items : List Value) :
    characters (.list items) = '[' :: (joined (items.map characters) ++ [']']) := by
  have each : (writeItems items).map String.toList = items.map characters := by
    induction items with
    | nil => rfl
    | cons item rest ih => rw [writeItems, List.map_cons, List.map_cons, ih, characters]
  rw [characters, writeArranged, String.toList_append, String.toList_append, toList_intercalate, each]
  rfl

theorem characters_mapping (entries : Assoc Scalar Value) :
    characters (.mapping entries) = '\x7b' :: (joined (entries.map entryCharacters) ++ ['\x7d']) := by
  have each : (writeEntries entries).map String.toList = entries.map entryCharacters := by
    induction entries with
    | nil => rfl
    | cons entry rest ih =>
        obtain ⟨key, value⟩ := entry
        rw [writeEntries, List.map_cons, List.map_cons, ih, String.toList_append, String.toList_append,
          List.append_assoc]
        rfl
  rw [characters, writeArranged, String.toList_append, String.toList_append, toList_intercalate, each]
  rfl

section

variable {v : Value} {cs next rest : List Char} {fuel room : Nat}

/-- What is written for a value is read as the value, with room for its levels. -/
def Reads (v : Value) : Prop :=
  ∀ fuel room rest, (characters v).length < fuel → v.depth ≤ room → Ends rest →
    value fuel room (characters v ++ rest) = .ok (v, rest)

theorem listRest_last {done : List Value} (read : value fuel room cs = .ok (v, ']' :: rest)) :
    listRest (fuel + 1) room done cs = .ok ((v :: done).reverse, rest) := by
  rw [listRest, read]
  rfl

theorem listRest_more {done : List Value} (read : value fuel room cs = .ok (v, ',' :: ' ' :: next))
    (starts : skip next = next) :
    listRest (fuel + 1) room done cs = listRest fuel room (v :: done) next := by
  rw [listRest, read]
  change listRest fuel room (v :: done) (skip next) = _
  rw [starts]

theorem value_list {items : List Value} (starts : Starts cs)
    (read : listRest fuel room [] cs = .ok (items, rest)) :
    value (fuel + 1) (room + 1) ('[' :: cs) = .ok (.list items, rest) := by
  rw [value, Nesting.descend_succ, starts.skip_eq]
  obtain ⟨c, tail, rfl, _, other, _⟩ := starts
  split
  · rename_i same
    exact absurd (List.cons.inj same).1 other
  · rw [read]
    rfl

theorem value_mapping {entries : Assoc Scalar Value} (starts : Starts cs)
    (read : mappingRest fuel room [] cs = .ok (entries, rest)) :
    value (fuel + 1) (room + 1) ('\x7b' :: cs) = .ok (.mapping entries, rest) := by
  rw [value, Nesting.descend_succ, starts.skip_eq]
  obtain ⟨c, tail, rfl, _, _, other⟩ := starts
  split
  · rename_i same
    exact absurd (List.cons.inj same).1 other
  · rw [read]
    rfl

theorem mappingRest_last {done : Assoc Scalar Value} {key : String} (starts : skip cs = cs)
    (read : value fuel room cs = .ok (v, '\x7d' :: rest)) :
    mappingRest (fuel + 1) room done ((writeText key).toList ++ ':' :: ' ' :: cs) =
      .ok (done.insert (.text key) v, rest) := by
  rw [toList_writeText, List.cons_append, List.append_assoc, List.singleton_append, mappingRest,
    stringRest_flatMap, String.ofList_toList]
  change (value fuel room (skip cs) >>= _) = _
  rw [starts, read]
  rfl

theorem mappingRest_more {done : Assoc Scalar Value} {key : String} (starts : skip cs = cs)
    (read : value fuel room cs = .ok (v, ',' :: ' ' :: next)) (starts' : skip next = next) :
    mappingRest (fuel + 1) room done ((writeText key).toList ++ ':' :: ' ' :: cs) =
      mappingRest fuel room (done.insert (.text key) v) next := by
  rw [toList_writeText, List.cons_append, List.append_assoc, List.singleton_append, mappingRest,
    stringRest_flatMap, String.ofList_toList]
  change (value fuel room (skip cs) >>= _) = _
  rw [starts, read]
  change mappingRest fuel room (done.insert (.text key) v) (skip next) = _
  rw [starts']

theorem Starts.joined {parts : List (List Char)} (starts : Starts cs) : Starts (joined (cs :: parts)) := by
  cases parts with
  | nil => rwa [joined_single]
  | cons part parts =>
      rw [joined_cons_cons]
      exact starts.append _

/-- The items of a list are read one by one. -/
theorem listRest_items {items done : List Value} (nonempty : items ≠ [])
    (each : ∀ item ∈ items, Reads item ∧ Starts (characters item))
    (enough : (joined (items.map characters)).length + 1 < fuel) (deep : Value.itemsDepth items ≤ room) :
    listRest fuel room done (joined (items.map characters) ++ ']' :: rest) =
      .ok (done.reverse ++ items, rest) := by
  induction items generalizing fuel done with
  | nil => exact absurd rfl nonempty
  | cons item later ih =>
      obtain ⟨⟨reads, starts⟩, others⟩ := List.forall_mem_cons.mp each
      rw [Value.itemsDepth, Nat.max_le] at deep
      cases fuel with
      | zero => exact absurd enough (Nat.not_lt_zero _)
      | succ fuel =>
      cases later with
      | nil =>
          rw [List.map_singleton, joined_single] at enough ⊢
          have read := reads fuel room (']' :: rest) (by omega) deep.1 (by simp [Ends])
          rw [listRest_last read, List.reverse_cons]
      | cons second later =>
          have starts' := (List.forall_mem_cons.mp others).1.2
          rw [List.map_cons, List.map_cons, joined_cons_cons, List.length_append, List.length_cons,
            List.length_cons] at enough
          rw [List.map_cons, List.map_cons, joined_cons_cons, List.append_assoc]
          have read := reads fuel room (',' :: ' ' :: (joined ((second :: later).map characters) ++ ']' :: rest))
            (by omega) deep.1 (by simp [Ends])
          refine (listRest_more read (starts'.joined.append _).skip_eq).trans ?_
          rw [ih (List.cons_ne_nil _ _) others (Nat.lt_of_succ_lt_succ (by rw [List.map_cons]; omega)) deep.2,
            List.reverse_cons, List.append_assoc, List.singleton_append]

theorem starts_entry {entry : Scalar × Value} (text : ∃ s, entry.1 = .text s) :
    Starts (entryCharacters entry) := by
  obtain ⟨s, text⟩ := text
  have quoted : Starts (writeText s).toList := ⟨'"', _, toList_writeText s, by decide⟩
  rw [entryCharacters, text]
  exact quoted.append _

/-- The entries of a mapping with distinct texts as keys are read one by one. -/
theorem mappingRest_entries {entries done : Assoc Scalar Value} (nonempty : entries ≠ [])
    (distinct : Assoc.Distinct (done ++ entries)) (texts : Scalar.AllTexts entries)
    (each : ∀ entry ∈ entries, Reads entry.2 ∧ Starts (characters entry.2))
    (enough : (joined (entries.map entryCharacters)).length + 1 < fuel)
    (deep : Value.entriesDepth entries ≤ room) :
    mappingRest fuel room done (joined (entries.map entryCharacters) ++ '\x7d' :: rest) =
      .ok (done ++ entries, rest) := by
  induction entries generalizing fuel done with
  | nil => exact absurd rfl nonempty
  | cons entry later ih =>
      obtain ⟨⟨reads, starts⟩, others⟩ := List.forall_mem_cons.mp each
      obtain ⟨⟨key, text⟩, texts'⟩ := List.forall_mem_cons.mp texts
      obtain ⟨name, v⟩ := entry
      obtain rfl : name = .text key := text
      dsimp only at reads starts
      have inserted : done.insert (.text key) v = done ++ [(.text key, v)] :=
        Assoc.insert_of_fresh v fun other member =>
          (List.pairwise_append.mp distinct).2.2 other member _ List.mem_cons_self
      rw [Value.entriesDepth, Nat.max_le] at deep
      cases fuel with
      | zero => exact absurd enough (Nat.not_lt_zero _)
      | succ fuel =>
      cases later with
      | nil =>
          rw [List.map_singleton, joined_single, entryCharacters_text, List.length_append, List.length_cons,
            List.length_cons] at enough
          rw [List.map_singleton, joined_single, entryCharacters_text, List.append_assoc]
          have read := reads fuel room ('\x7d' :: rest) (by omega) deep.1 (by simp [Ends])
          refine (mappingRest_last (starts.append _).skip_eq read).trans ?_
          rw [inserted]
      | cons second later =>
          have starts' := starts_entry (List.forall_mem_cons.mp texts').1
          rw [List.map_cons, List.map_cons, joined_cons_cons, entryCharacters_text, List.length_append,
            List.length_append, List.length_cons, List.length_cons, List.length_cons, List.length_cons] at enough
          rw [List.map_cons, List.map_cons, joined_cons_cons, entryCharacters_text, List.append_assoc,
            List.append_assoc]
          have read := reads fuel room
            (',' :: ' ' :: (joined ((second :: later).map entryCharacters) ++ '\x7d' :: rest))
            (by omega) deep.1 (by simp [Ends])
          refine (mappingRest_more (starts.append _).skip_eq read (starts'.joined.append _).skip_eq).trans ?_
          rw [List.append_cons] at distinct
          rw [inserted, ih (List.cons_ne_nil _ _) distinct texts' others
            (Nat.lt_of_succ_lt_succ (by rw [List.map_cons]; omega)) deep.2, List.append_assoc,
            List.singleton_append]

end

/-! ## Values -/

theorem starts_characters {v : Value} (keyed : v.Keyed Scalar.Portable) : Starts (characters v) := by
  cases keyed with
  | scalar portable => exact starts_writeScalar portable
  | list each => exact ⟨'[', _, characters_list _, by decide⟩
  | mapping texts distinct each => exact ⟨'\x7b', _, characters_mapping _, by decide⟩

/-- What is written for a value is read as the value. -/
theorem reads_of_keyed {v : Value} (keyed : v.Keyed Scalar.Portable) : Reads v := by
  induction keyed with
  | scalar portable =>
      intro fuel room rest enough _ ends
      cases fuel with
      | zero => exact absurd enough (Nat.not_lt_zero _)
      | succ fuel => exact value_writeScalar portable ends
  | @list items each ih =>
      intro fuel room rest enough deep ends
      cases fuel with
      | zero => exact absurd enough (Nat.not_lt_zero _)
      | succ fuel =>
      cases room with
      | zero => exact absurd deep (Nat.not_succ_le_zero _)
      | succ room =>
      rw [characters_list, List.length_cons, List.length_append, List.length_singleton] at enough
      rw [characters_list, List.cons_append, List.append_assoc, List.singleton_append]
      cases items with
      | nil => rfl
      | cons item items =>
          have starts := starts_characters (each item List.mem_cons_self)
          exact value_list (starts.joined.append _) (listRest_items (List.cons_ne_nil _ _)
            (fun item member => ⟨ih item member, starts_characters (each item member)⟩)
            (Nat.lt_of_succ_lt_succ enough) (Nat.le_of_succ_le_succ deep))
  | @mapping entries texts distinct each ih =>
      intro fuel room rest enough deep ends
      cases fuel with
      | zero => exact absurd enough (Nat.not_lt_zero _)
      | succ fuel =>
      cases room with
      | zero => exact absurd deep (Nat.not_succ_le_zero _)
      | succ room =>
      rw [characters_mapping, List.length_cons, List.length_append, List.length_singleton] at enough
      rw [characters_mapping, List.cons_append, List.append_assoc, List.singleton_append]
      cases entries with
      | nil => rfl
      | cons entry entries =>
          have texts : Scalar.AllTexts (entry :: entries) :=
            fun entry member => (texts entry member).imp fun _ => And.left
          have starts := starts_entry (texts entry List.mem_cons_self)
          exact value_mapping (starts.joined.append _) (mappingRest_entries
            (List.cons_ne_nil _ _) distinct texts
            (fun entry member => ⟨ih entry member, starts_characters (each entry member)⟩)
            (Nat.lt_of_succ_lt_succ enough) (Nat.le_of_succ_le_succ deep))

/-- What is written for a value that is not too deep is parsed as the value. -/
theorem parse_writeArranged {v : Value} (keyed : v.Keyed Scalar.Portable) (deep : v.depth ≤ Nesting.jsonRoom) :
    parse (writeArranged v) = .ok v := by
  have read := reads_of_keyed keyed (characters v).length.succ Nesting.jsonRoom [] (Nat.lt_succ_self _) deep
    (fun _ impossible => by cases impossible)
  rw [List.append_nil] at read
  have starts := (starts_characters keyed).skip_eq
  rw [parse, parseWithin]
  dsimp only
  rw [show (writeArranged v).toList = characters v from rfl, starts, read]
  rfl

/-- The text of a value says which value it is. -/
theorem writeArranged_inj {v w : Value} (left : v.Keyed Scalar.Portable) (right : w.Keyed Scalar.Portable)
    (same : writeArranged v = writeArranged w) : v = w := by
  have characters_eq : characters v = characters w := congrArg String.toList same
  have ends : Ends [] := fun _ impossible => by cases impossible
  have read := reads_of_keyed left (characters v).length.succ (max v.depth w.depth) []
    (Nat.lt_succ_self _) (Nat.le_max_left _ _) ends
  have read' := reads_of_keyed right (characters w).length.succ (max v.depth w.depth) []
    (Nat.lt_succ_self _) (Nat.le_max_right _ _) ends
  rw [characters_eq, read'] at read
  cases read
  rfl

end Json

end DecisionTables
