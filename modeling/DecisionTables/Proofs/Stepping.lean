import Mathlib
import DecisionTables.Proofs.Scanning

/-!
# Steps of the scanner

What one token does to the state of the scanner, and how steps add up: reading on leads from one
state to another, and the tokens are those of the last state.
-/

namespace DecisionTables.Yaml.Scanner

/-! ## Reading on -/

/-- In so many steps everything is read, and certain tokens are found. -/
inductive Scans : Nat → Scanner → List Token → Prop where
  | done {s t} (last : s.next = .ok (t, true)) : Scans 1 s t.tokens.toList
  | more {n s t tokens} (next : s.next = .ok (t, false)) (rest : Scans n t tokens) :
      Scans (n + 1) s tokens

/-- Reading on leads from one state to another, in no more steps than there are characters between
the two. -/
def Reaches (s t : Scanner) : Prop :=
  ∃ n, n + t.cursor.rest.length ≤ s.cursor.rest.length ∧
    ∀ k tokens, Scans k t tokens → Scans (k + n) s tokens

section

variable {s t u : Scanner} {n fuel : Nat} {tokens : List Token}

theorem Scans.run_eq (scans : Scans n s tokens) (enough : n ≤ fuel) : run fuel s = tokens := by
  induction scans generalizing fuel with
  | done last =>
      obtain ⟨fuel, rfl⟩ := Nat.exists_eq_succ_of_ne_zero (Nat.one_le_iff_ne_zero.mp enough)
      rw [run, last]
  | more next _ ih =>
      obtain ⟨fuel, rfl⟩ := Nat.exists_eq_succ_of_ne_zero (Nat.ne_zero_of_lt enough)
      rw [run, next]
      exact ih (Nat.le_of_succ_le_succ enough)

theorem Reaches.refl (s : Scanner) : Reaches s s :=
  ⟨0, (Nat.zero_add _).le, fun _ _ scans => scans⟩

theorem Reaches.trans (first : Reaches s t) (second : Reaches t u) : Reaches s u := by
  obtain ⟨n, length, back⟩ := first
  obtain ⟨n', length', back'⟩ := second
  refine ⟨n' + n, by omega, fun k tokens scans => ?_⟩
  rw [← Nat.add_assoc]
  exact back _ _ (back' _ _ scans)

/-- Where the next token and all that follows are the same. -/
theorem Reaches.of_next_eq (same : s.next = t.next)
    (length : t.cursor.rest.length ≤ s.cursor.rest.length) : Reaches s t := by
  refine ⟨0, by rwa [Nat.zero_add], fun k tokens scans => ?_⟩
  cases scans with
  | done last => exact .done (same.trans last)
  | more next rest => exact .more (same.trans next) rest

/-- One token further. -/
theorem Reaches.of_step (next : s.next = .ok (t, false))
    (length : t.cursor.rest.length < s.cursor.rest.length) : Reaches s t :=
  ⟨1, by omega, fun _ _ scans => .more next scans⟩

end

/-! ## Blanks and line breaks -/

/-- The reader stands at a sign or at the end, with the lines to come. -/
def Waits (s : Scanner) : Prop :=
  s.cursor.ending = none ∧ ∃ column cs, Stands column cs ∧ s.cursor.rest = cs.drop column

section

variable {s : Scanner} {ch : Char} {cs : List Char} {column n : Nat}

theorem waits_of_sign (ending : s.cursor.ending = none) (rest_eq : s.cursor.rest = ch :: cs)
    (ascii : isPlainAscii ch = true) (blank : ch ≠ ' ') (remark : ch ≠ '#') : s.Waits := by
  have spaces : blanks 1 = [' '] := rfl
  refine ⟨ending, 1, blanks 1 ++ ch :: cs, .line ascii blank remark ?_, ?_⟩
  · rw [spaces]
    rfl
  · rw [drop_blanks, rest_eq]

theorem Waits.skipToToken_eq (waits : s.Waits) : skipToToken (n + 1) s = s := by
  obtain ⟨_, column, cs, stands, rest_eq⟩ := waits
  have lineBreak := stands.lineBreak?_eq rest_eq
  have spaces : s.cursor.skipSpaces = s.cursor := by
    cases stands with
    | finish => exact (Cursor.skipSpaces_blanks (n := 0) rest_eq (by simp)).trans (Cursor.onward_zero rest_eq)
    | line _ blank _ _ =>
        rw [drop_blanks] at rest_eq
        exact (Cursor.skipSpaces_blanks (n := 0) rest_eq (by simpa using blank)).trans
          (Cursor.onward_zero rest_eq)
  have remark : s.cursor.skipRemark = s.cursor := by
    refine if_neg ?_
    rw [Cursor.peek?, rest_eq]
    cases stands with
    | finish => simp
    | line _ _ remark _ =>
        rw [drop_blanks]
        simpa using remark
  rw [skipToToken, spaces, remark, lineBreak]
  rfl

theorem Waits.supplied_eq (waits : s.Waits) : s.supplied = .ok s := by
  have free : s.cursor.stop? = none := by
    rw [Cursor.stop?, waits.1, ite_self]
  rw [supplied, free]

/-- Blanks in front of a sign are skipped. -/
theorem skipToToken_blanks (rest_eq : s.cursor.rest = blanks column ++ ch :: cs)
    (ascii : isPlainAscii ch = true) (blank : ch ≠ ' ') (remark : ch ≠ '#') :
    skipToToken (n + 1) s = s.moveTo (s.cursor.onward column (ch :: cs)) := by
  have peek : (s.cursor.onward column (ch :: cs)).skipRemark = s.cursor.onward column (ch :: cs) :=
    if_neg (by simpa [Cursor.peek?] using remark)
  rw [skipToToken, Cursor.skipSpaces_blanks rest_eq (by simpa using blank), peek,
    Cursor.lineBreak?_ascii Cursor.onward_rest ascii]

/-- A line break is skipped together with the blanks behind it. -/
theorem skipToToken_line (level : s.level = 0) (ending : s.cursor.ending = none)
    (rest_eq : s.cursor.rest = '\n' :: cs) (stands : Stands column cs) : skipToToken (n + 2) s =
      { s with cursor := (s.cursor.below cs).onward column (cs.drop column), keyAllowed := true } := by
  have spaces : s.cursor.skipSpaces = s.cursor :=
    (Cursor.skipSpaces_blanks (n := 0) rest_eq (by simp)).trans (Cursor.onward_zero rest_eq)
  have remark : s.cursor.skipRemark = s.cursor := if_neg (by simp [Cursor.peek?, rest_eq])
  rw [skipToToken, spaces, remark, Cursor.lineBreak?_newline rest_eq]
  dsimp only
  rw [level, beq_self_eq_true, Bool.or_true]
  cases stands with
  | finish => exact Waits.skipToToken_eq ⟨ending, 0, [], .finish, rfl⟩
  | line ascii blank remark _ =>
      rw [skipToToken_blanks Cursor.below_rest ascii blank remark, drop_blanks]
      rfl

theorem next_eq_of_skip {t : Scanner} (waits : t.Waits)
    (same : skipToToken (s.cursor.rest.length + 1) s = t) : s.next = t.next := by
  rw [next, next, same, waits.skipToToken_eq]

theorem Reaches.line (level : s.level = 0) (ending : s.cursor.ending = none)
    (rest_eq : s.cursor.rest = '\n' :: cs) (stands : Stands column cs) :
    Reaches s { s with cursor := (s.cursor.below cs).onward column (cs.drop column), keyAllowed := true } := by
  refine .of_next_eq (next_eq_of_skip ⟨ending, column, cs, stands, rfl⟩ ?_) ?_
  · rw [rest_eq]
    exact skipToToken_line level ending rest_eq stands
  · rw [rest_eq, List.length_cons, Cursor.onward_rest, List.length_drop]
    omega

variable (column) in
theorem Reaches.blanks (ending : s.cursor.ending = none) (rest_eq : s.cursor.rest = blanks column ++ ch :: cs)
    (ascii : isPlainAscii ch = true) (blank : ch ≠ ' ') (remark : ch ≠ '#') :
    Reaches s (s.moveTo (s.cursor.onward column (ch :: cs))) := by
  refine .of_next_eq (next_eq_of_skip (waits_of_sign ending rfl ascii blank remark)
    (skipToToken_blanks rest_eq ascii blank remark)) ?_
  rw [rest_eq, List.length_append, moveTo, Cursor.onward_rest]
  omega

/-! ## The next token -/

/-- What happens at the next sign or at the end. -/
def resume (s : Scanner) : Except Fault (Scanner × Bool) :=
  match s.cursor.peek? with
  | none => do return (← s.finishDocument, true)
  | some c => do return (← (← s.token c).supplied, false)

theorem Waits.next_eq (waits : s.Waits) :
    s.next = (do let s ← s.dropStale; resume (s.closeBlocks s.cursor.column)) := by
  rw [next, waits.skipToToken_eq, waits.supplied_eq]
  rfl

theorem dropStale_eq (reach : ∀ p ∈ s.places, s.inReach p = true) : s.dropStale = .ok s := by
  have stale : s.places.any (fun p => !s.inReach p && p.required) = false := by
    rw [List.any_eq_false]
    intro p member
    rw [reach p member]
    simp
  rw [dropStale, stale, List.filter_eq_self.mpr reach]
  rfl

/-- Places for keys on another line are given up. -/
theorem Reaches.drop_places (waits : s.Waits)
    (stale : ∀ p ∈ s.places, p.line ≠ s.cursor.line ∧ p.required = false) : Reaches s { s with places := [] } := by
  have out : ∀ p ∈ s.places, s.inReach p = false := fun p member => by
    rw [inReach, beq_false_of_ne (stale p member).1, Bool.false_and]
  have optional : s.places.any (fun p => !s.inReach p && p.required) = false := by
    rw [List.any_eq_false]
    intro p member
    rw [(stale p member).2, Bool.and_false]
    exact Bool.false_ne_true
  have dropped : s.dropStale = .ok { s with places := [] } := by
    rw [dropStale, optional, List.filter_eq_nil_iff.mpr fun p member => by rw [out p member]; simp]
    rfl
  have waits' : Waits { s with places := [] } := waits
  refine .of_next_eq ?_ (Nat.le_refl _)
  rw [waits.next_eq, waits'.next_eq, dropped, dropStale_eq (fun _ impossible => absurd impossible List.not_mem_nil)]

theorem closeBlocks_inside (inside : s.indent ≤ column) : s.closeBlocks column = s := by
  rw [closeBlocks]
  split
  · unfold closeBlocks.go
    split
    · rfl
    · exact if_neg (not_lt.mpr inside)
  · rfl

/-- A block ends where a line starts further out. -/
theorem Reaches.close {i : Int} {outer : List Int} (waits : s.Waits) (level : s.level = 0)
    (places : s.places = []) (outer_eq : s.outer = i :: outer) (outside : (s.cursor.column : Int) < s.indent) :
    Reaches s { s.emit .blockEnd with indent := i, outer := outer } := by
  have next_eq {t : Scanner} (waits : t.Waits) (places : t.places = []) :
      t.next = resume (t.closeBlocks t.cursor.column) := by
    rw [waits.next_eq, dropStale_eq (by rw [places]; exact fun _ impossible => absurd impossible List.not_mem_nil)]
    rfl
  have waits' : Waits { s.emit .blockEnd with indent := i, outer := outer } := waits
  refine .of_next_eq ?_ (Nat.le_refl _)
  rw [next_eq waits places, next_eq waits' places]
  refine congrArg resume ?_
  have open_level : (s.level == 0) = true := by rw [level]; rfl
  have one : closeBlocks.go s.cursor.column s.outer s =
      closeBlocks.go s.cursor.column outer { s.emit .blockEnd with indent := i, outer := outer } := by
    rw [outer_eq, closeBlocks.go, if_pos outside]
  exact (if_pos open_level).trans (one.trans (if_pos open_level).symm)

/-- One token is read at a sign inside of the open block. -/
theorem Reaches.token {t : Scanner} (waits : s.Waits) (reach : ∀ p ∈ s.places, s.inReach p = true)
    (inside : s.indent ≤ s.cursor.column) (rest_eq : s.cursor.rest = ch :: cs) (token : s.token ch = .ok t)
    (ending : t.cursor.ending = none) (length : t.cursor.rest.length < s.cursor.rest.length) :
    Reaches s t := by
  have peek : s.cursor.peek? = some ch := by rw [Cursor.peek?, rest_eq]; rfl
  have free : t.supplied = .ok t := by
    rw [supplied, Cursor.stop?, ending, ite_self]
  refine .of_step ?_ length
  rw [waits.next_eq, dropStale_eq reach]
  change resume (s.closeBlocks s.cursor.column) = _
  rw [closeBlocks_inside inside, resume, peek]
  dsimp only
  rw [token]
  change (do return (← t.supplied, false)) = _
  rw [free]
  rfl

end

/-! ## Scalars -/

section

variable {s : Scanner} {ch : Char} {more cs tail : List Char}

theorem startsLikeMark_append (mark : startsLikeMark cs = false) (follows : Follows tail) :
    startsLikeMark (cs ++ tail) = false := by
  obtain ⟨d, rest, rfl, dash, point⟩ : ∃ d rest, tail = d :: rest ∧ (d == '-') = false ∧ (d == '.') = false := by
    cases follows
    · exact ⟨_, _, rfl, rfl, rfl⟩
    · exact ⟨_, _, rfl, rfl, rfl⟩
  rcases cs with _ | ⟨a, _ | ⟨b, _ | ⟨e, others⟩⟩⟩
  · simp [startsLikeMark, dash, point]
  · cases rest <;> simp [startsLikeMark, dash, point]
  · simp [startsLikeMark, dash, point]
  · exact mark

theorem atMark_eq_false (mark : startsLikeMark s.cursor.rest = false) :
    s.cursor.atMark '-' = false ∧ s.cursor.atMark '.' = false := by
  have none := Cursor.atDocumentMark_eq_false mark
  rwa [Cursor.atDocumentMark, Bool.or_eq_false_iff] at none

/-- What can stand without quotes starts a plain scalar. -/
theorem startsPlain_unquoted {next : Option Char} (unquoted : Unquoted (ch :: more))
    (second : endsWord next = true → endsWord more.head? = true) : startsPlain false ch next = true := by
  obtain ⟨ascii, ⟨d, others, same, blank, opening, _⟩, _, _⟩ := unquoted
  obtain ⟨rfl, rfl⟩ := List.cons_eq_cons.mp same
  obtain ⟨sign, gaps⟩ := isOpeningSign_eq_false.mp opening
  have signs : "-?:,[]\x7b\x7d#&*!|>'\"%@\x60".toList =
    '-' :: '?' :: ':' :: ',' :: '[' :: ']' :: '\x7b' :: '\x7d' :: '#' :: openingSigns.drop 6 := rfl
  rw [List.all_cons, Bool.and_eq_true] at ascii
  rw [startsPlain, isGap_ascii ascii.1, beq_false_of_ne blank, String.contains_char_eq, signs]
  by_cases special : ch = '-' ∨ ch = '?' ∨ ch = ':'
  · have inside : endsWord next = false := by
      refine Bool.eq_false_iff.mpr fun gap => ?_
      obtain ⟨question, colon, dash⟩ := gaps (second gap)
      rcases special with equal | equal | equal
      · exact dash equal
      · exact question equal
      · exact colon equal
    rcases special with rfl | rfl | rfl <;> simp [inside]
  · simp only [not_or] at special
    have out : ch ∉ openingSigns.drop 6 := fun inside => sign (List.drop_subset 6 _ inside)
    have first (d : Char) (inside : d ∈ openingSigns) : ch ≠ d := fun equal => sign (equal ▸ inside)
    simp [special.1, special.2.1, special.2.2, out, first ',' (by simp [openingSigns]),
      first '[' (by simp [openingSigns]), first ']' (by simp [openingSigns]),
      first '\x7b' (by simp [openingSigns]), first '\x7d' (by simp [openingSigns]),
      first '#' (by simp [openingSigns])]

/-- What can start a plain scalar starts one. -/
theorem token_plain (level : s.level = 0) (unquoted : Unquoted (ch :: more))
    (rest_eq : s.cursor.rest = ch :: (more ++ tail)) (follows : Follows tail) :
    s.token ch = s.plainScalarToken := by
  have second : endsWord s.cursor.second? = true → endsWord more.head? = true := by
    rw [Cursor.second?, rest_eq]
    cases more with
    | nil => exact fun _ => rfl
    | cons d others => exact id
  have plain := startsPlain_unquoted unquoted second
  obtain ⟨_, ⟨d, others, same, _, opening, _⟩, _, mark⟩ := unquoted
  obtain ⟨rfl, rfl⟩ := List.cons_eq_cons.mp same
  obtain ⟨sign, gaps⟩ := isOpeningSign_eq_false.mp opening
  obtain ⟨dashes, points⟩ := atMark_eq_false (s := s) (rest_eq ▸ startsLikeMark_append mark follows)
  have other (d : Char) (inside : d ∈ openingSigns) : (ch == d) = false :=
    beq_false_of_ne fun equal => sign (equal ▸ inside)
  have gapped (d : Char) (inside : d = '-' ∨ d = '?' ∨ d = ':') :
      (ch == d && endsWord s.cursor.second?) = false := by
    by_cases gap : endsWord s.cursor.second? = true
    · obtain ⟨question, colon, dash⟩ := gaps (second gap)
      rcases inside with rfl | rfl | rfl
      · rw [beq_false_of_ne dash, Bool.false_and]
      · rw [beq_false_of_ne question, Bool.false_and]
      · rw [beq_false_of_ne colon, Bool.false_and]
    · rw [Bool.eq_false_iff.mpr gap, Bool.and_false]
  have inner : (s.level != 0) = false := by rw [level]; rfl
  unfold token
  simp only [other '%' (by simp [openingSigns]), other '[' (by simp [openingSigns]),
    other '\x7b' (by simp [openingSigns]), other ']' (by simp [openingSigns]),
    other '\x7d' (by simp [openingSigns]), other ',' (by simp [openingSigns]),
    other '|' (by simp [openingSigns]), other '>' (by simp [openingSigns]),
    other '\'' (by simp [openingSigns]), other '"' (by simp [openingSigns]), dashes, points,
    gapped '-' (.inl rfl), gapped '?' (.inr (.inl rfl)), gapped ':' (.inr (.inr rfl)), inner, plain,
    Bool.false_and, Bool.and_false, Bool.false_or, Bool.false_eq_true, if_false, if_true]

/-- A single quote starts a text in quotes. -/
theorem token_quote (rest_eq : s.cursor.rest = '\'' :: more) : s.token '\'' = s.quotedScalarToken false := by
  obtain ⟨dashes, points⟩ := atMark_eq_false (s := s) (rest_eq ▸ rfl)
  simp [token, dashes, points]

theorem token_dash (rest_eq : s.cursor.rest = '-' :: ' ' :: more) : s.token '-' = s.blockEntry := by
  obtain ⟨dashes, points⟩ := atMark_eq_false (s := s) (rest_eq ▸ rfl)
  have gap : endsWord s.cursor.second? = true := by
    rw [Cursor.second?, rest_eq]
    rfl
  simp [token, dashes, points, gap]

theorem token_question (rest_eq : s.cursor.rest = '?' :: ' ' :: more) : s.token '?' = s.explicitKey := by
  obtain ⟨dashes, points⟩ := atMark_eq_false (s := s) (rest_eq ▸ rfl)
  have gap : endsWord s.cursor.second? = true := by
    rw [Cursor.second?, rest_eq]
    rfl
  simp [token, dashes, points, gap]

theorem token_value (rest_eq : s.cursor.rest = ':' :: more) (gap : endsWord more.head? = true) :
    s.token ':' = s.valueSign := by
  obtain ⟨dashes, points⟩ := atMark_eq_false (s := s) (rest_eq ▸ rfl)
  have second : endsWord s.cursor.second? = true := by
    rw [Cursor.second?, rest_eq]
    cases more <;> exact gap
  simp [token, dashes, points, second]

end

section

variable {s s' : Scanner} {c : Cursor} {t : Token} {place : KeyPlace}

theorem plainScalarToken_eq {text : List Char} {newLine : Bool} (saved : s.savePlace = .ok s')
    (scanned : plainScalar (s'.level != 0) (s'.indent + 1) s'.cursor = (text, c, newLine)) :
    s.plainScalarToken = .ok (((s'.allowKey newLine).emit (.plain (String.ofList text))).moveTo c) := by
  simp only [plainScalarToken, saved, bind, Except.bind, scanned]
  rfl

theorem quotedScalarToken_eq {double : Bool} {units : List Nat} (saved : s.savePlace = .ok s')
    (scanned : quotedScalar double (s'.cursor.advance.rest.length + 1) [] s'.cursor.advance =
      .ok (units, c)) :
    s.quotedScalarToken double =
      .ok (((s'.allowKey false).emit (.literal (.ofUnits units))).moveTo c) := by
  simp only [quotedScalarToken, saved, bind, Except.bind, scanned]
  rfl

theorem openFor_eq {opened : Bool} (level : s.level = 0) (allowed : s.keyAllowed = true)
    (blocks : s.openBlock s.cursor.column = (opened, s')) :
    s.openFor t = .ok (if opened then s'.emit t else s') := by
  simp [openFor, level, allowed, blocks]

/-- The colon behind a key that is remembered. -/
theorem valueSign_eq {opened : Bool} (found : (s.places.find? fun p => p.level == s.level) = some place)
    (level : s.level = 0)
    (blocks : (insertAt { s with places := s.places.filter fun p => p.level != s.level } place.token
      .key).openBlock place.column = (opened, s')) :
    s.valueSign = .ok ((((if opened then s'.insertAt place.token .blockMappingStart
      else s').allowKey false).emit .value).advanceBy 1) := by
  have level' : (insertAt { s with places := s.places.filter fun p => p.level != s.level } place.token
      .key).level = 0 := level
  simp only [valueSign, found, level', blocks]
  rfl

end

/-- The state outside of flow collections. -/
def block (c : Cursor) (tokens : List Token) (indent : Int) (outer : List Int) (keyAllowed : Bool)
    (places : List KeyPlace) : Scanner :=
  ⟨c, tokens.toArray, 0, indent, outer, keyAllowed, places⟩

/-- The place for a key at a position. -/
def keyPlace (c : Cursor) (tokens : List Token) (indent : Int) : KeyPlace :=
  ⟨0, tokens.length, indent == c.column, c.index, c.line, c.column⟩

section

variable {c c' : Cursor} {tokens : List Token} {indent : Int} {outer : List Int} {allowed : Bool}
  {places : List KeyPlace} {cs rest : List Char} {x : Scalar} {t : Token} {column : Nat} {ch : Char}

theorem savePlace_block : (block c tokens indent outer allowed []).savePlace =
    .ok (block c tokens indent outer allowed (if allowed then [keyPlace c tokens indent] else [])) := by
  cases allowed with
  | false => rfl
  | true => simp [savePlace, block, keyPlace, dropPlace]

theorem emit_block : (block c tokens indent outer allowed places).emit t =
    block c (tokens ++ [t]) indent outer allowed places := by
  simp [emit, block]

theorem plainScalarToken_block {newLine : Bool} (read : plainScalar false (indent + 1) c = (cs, c', newLine)) :
    (block c tokens indent outer allowed []).plainScalarToken = .ok (block c' (tokens ++ [.plain (String.ofList cs)])
      indent outer newLine (if allowed then [keyPlace c tokens indent] else [])) := by
  refine (plainScalarToken_eq savePlace_block read).trans ?_
  change Except.ok (((block c tokens indent outer newLine _).emit _).moveTo _) = _
  rw [emit_block]
  rfl

theorem quotedScalarToken_block {s : String} (printable : IsPrintable s) (rest_eq : c.rest = quotedLine s ++ rest)
    (follows : Follows rest) : (block c tokens indent outer allowed []).quotedScalarToken false =
      .ok (block (c.onward (quotedLine s).length rest) (tokens ++ [.literal (.text s)]) indent outer false
        (if allowed then [keyPlace c tokens indent] else [])) := by
  refine (quotedScalarToken_eq savePlace_block (quotedScalar_line printable rest_eq follows)).trans ?_
  change Except.ok (((block c tokens indent outer false _).emit
    (.literal (.ofUnits (s.toList.map Char.toNat)))).moveTo _) = _
  rw [emit_block, Scalar.ofUnits_map_toNat, String.ofList_toList]
  rfl

variable (tokens outer allowed) in
/-- A scalar in front of its colon. -/
theorem token_key (spells : Spells x cs t) (rest_eq : c.rest = cs ++ ':' :: rest)
    (gap : endsWord rest.head? = true) (inside : indent ≤ c.column) : ∃ ch more, cs = ch :: more ∧
      (block c tokens indent outer allowed []).token ch = .ok (block (c.onward cs.length (':' :: rest))
        (tokens ++ [t]) indent outer false (if allowed then [keyPlace c tokens indent] else [])) := by
  cases spells with
  | @plain s cs unquoted value =>
      have whole := unquoted
      obtain ⟨_, ⟨ch, more, rfl, _⟩, _, _⟩ := whole
      exact ⟨ch, more, rfl, (token_plain rfl unquoted rest_eq (.colon gap)).trans
        (plainScalarToken_block (plainScalar_key unquoted rest_eq gap (by omega)))⟩
  | quoted printable =>
      exact ⟨'\'', _, rfl, (token_quote (s := block c _ _ _ _ _) rest_eq).trans
        (quotedScalarToken_block printable rest_eq (.colon gap))⟩

variable (tokens outer allowed) in
/-- A scalar at the end of a line, where the next line does not belong to it: behind a plain scalar the
reader stands in the next line already. -/
theorem token_line (spells : Spells x cs t) (rest_eq : c.rest = cs ++ '\n' :: rest)
    (stands : Stands column rest) (inside : indent ≤ c.column) (outside : (column : Int) ≤ indent) :
    ∃ ch more, cs = ch :: more ∧ ∃ c' allowed',
      (block c tokens indent outer allowed []).token ch = .ok (block c' (tokens ++ [t]) indent outer allowed'
        (if allowed then [keyPlace c tokens indent] else [])) ∧
      (c' = c.onward cs.length ('\n' :: rest) ∨ allowed' = true ∧
        c' = ((c.onward cs.length ('\n' :: rest)).below rest).onward column (rest.drop column)) := by
  cases spells with
  | @plain s cs unquoted value =>
      have whole := unquoted
      obtain ⟨_, ⟨ch, more, rfl, _⟩, _, _⟩ := whole
      exact ⟨ch, more, rfl, _, true, (token_plain rfl unquoted rest_eq (.line rest)).trans
        (plainScalarToken_block (plainScalar_line unquoted rest_eq stands (by omega) (by omega))),
        .inr ⟨rfl, rfl⟩⟩
  | quoted printable =>
      exact ⟨'\'', _, rfl, _, false, (token_quote (s := block c _ _ _ _ _) rest_eq).trans
        (quotedScalarToken_block printable rest_eq (.line rest)), .inl rfl⟩

theorem no_places : ∀ p ∈ (block c tokens indent outer allowed []).places,
    (block c tokens indent outer allowed []).inReach p = true :=
  fun _ impossible => absurd impossible List.not_mem_nil

variable (tokens outer allowed) in
/-- A scalar at the end of a line is read as one token. -/
theorem reaches_scalar (ending : c.ending = none) (spells : Spells x cs t) (rest_eq : c.rest = cs ++ '\n' :: rest)
    (stands : Stands column rest) (inside : indent < c.column) (outside : (column : Int) ≤ indent) :
    Reaches (block c tokens indent outer allowed [])
      (block (((c.onward cs.length ('\n' :: rest)).below rest).onward column (rest.drop column))
        (tokens ++ [t]) indent outer true []) := by
  obtain ⟨ch, more, rfl, c', allowed', token, place⟩ :=
    token_line tokens outer allowed spells rest_eq stands inside.le outside
  obtain ⟨_, _, same, ascii, blank, remark⟩ := spells.first
  obtain ⟨rfl, rfl⟩ := List.cons_eq_cons.mp same
  have waits : (block c tokens indent outer allowed []).Waits :=
    waits_of_sign ending rest_eq ascii blank remark
  have optional : (indent == (c.column : Int)) = false := beq_false_of_ne inside.ne
  have behind : Reaches (block c' (tokens ++ [t]) indent outer allowed'
      (if allowed then [keyPlace c tokens indent] else []))
      (block (((c.onward (ch :: more).length ('\n' :: rest)).below rest).onward column (rest.drop column))
        (tokens ++ [t]) indent outer true (if allowed then [keyPlace c tokens indent] else [])) := by
    rcases place with rfl | ⟨rfl, rfl⟩
    · exact .line rfl ending rfl stands
    · exact .refl _
  refine (Reaches.token waits no_places inside.le rest_eq token ?_ ?_).trans (behind.trans
    (.drop_places ⟨ending, column, rest, stands, rfl⟩ ?_))
  · rcases place with rfl | ⟨_, rfl⟩ <;> exact ending
  · have length : c'.rest.length ≤ ('\n' :: rest).length := by
      rcases place with rfl | ⟨_, rfl⟩
      · exact Nat.le_refl _
      · rw [Cursor.onward_rest, List.length_drop, List.length_cons]
        omega
    change c'.rest.length < c.rest.length
    rw [rest_eq, List.length_append, List.length_cons]
    omega
  · intro p member
    cases allowed with
    | false => exact absurd member List.not_mem_nil
    | true =>
        rw [List.mem_singleton.mp member]
        exact ⟨(Nat.lt_succ_self c.line).ne, optional⟩

/-- The token that opens a block where none is open. -/
def opening (indent : Int) (column : Nat) (t : Token) : List Token :=
  if indent < column then [t] else []

/-- The blocks around a block that is opened where none is open. -/
def around (indent : Int) (column : Nat) (outer : List Int) : List Int :=
  if indent < column then indent :: outer else outer

theorem insertAt_block (more : List Token) : (block c (tokens ++ more) indent outer allowed places).insertAt
    tokens.length t = block c (tokens ++ t :: more) indent outer allowed places := by
  have inserted : (tokens ++ more).insertIdx tokens.length t = tokens ++ t :: more := by
    induction tokens with
    | nil => rfl
    | cons first rest ih => exact congrArg (first :: ·) ih
  rw [insertAt, block, List.insertIdxIfInBounds_toArray, inserted]
  rfl

theorem openBlock_block (inside : indent ≤ column) : (block c tokens indent outer allowed places).openBlock column =
    (decide (indent < column), block c tokens column (around indent column outer) allowed places) := by
  change (if indent < column then (true, block c tokens column (indent :: outer) allowed places)
    else (false, block c tokens indent outer allowed places)) = _
  rw [around]
  by_cases further : indent < column
  · rw [if_pos further, if_pos further, decide_eq_true further]
  · rw [if_neg further, if_neg further, decide_eq_false further, ← le_antisymm inside (not_lt.mp further)]

theorem advanceBy_block (rest_eq : c.rest = ch :: rest) (ascii : isPlainAscii ch = true) :
    (block c tokens indent outer allowed places).advanceBy 1 =
      block (c.onward 1 rest) tokens indent outer allowed places :=
  congrArg (fun c => block c tokens indent outer allowed places) (Cursor.advance_ascii rest_eq ascii)

variable (c' tokens outer t) in
/-- The colon behind a key, which may be the first in its mapping. -/
theorem token_colon (rest_eq : c'.rest = ':' :: rest) (gap : endsWord rest.head? = true)
    (inside : indent ≤ c.column) :
    (block c' (tokens ++ [t]) indent outer false [keyPlace c tokens indent]).token ':' =
      .ok (block (c'.onward 1 rest) (tokens ++ opening indent c.column .blockMappingStart ++ [.key, t, .value])
        c.column (around indent c.column outer) false []) := by
  have found : ([keyPlace c tokens indent].find? fun p => p.level == 0) =
      some (keyPlace c tokens indent) := rfl
  have blocks : ((block c' (tokens ++ [t]) indent outer false []).insertAt tokens.length .key).openBlock
      c.column = (decide (indent < c.column),
        block c' (tokens ++ [.key, t]) c.column (around indent c.column outer) false []) := by
    rw [insertAt_block, openBlock_block inside]
  have opened : (if decide (indent < c.column) then
        (block c' (tokens ++ [.key, t]) c.column (around indent c.column outer) false []).insertAt tokens.length
          .blockMappingStart
      else block c' (tokens ++ [.key, t]) c.column (around indent c.column outer) false []) =
      block c' (tokens ++ opening indent c.column .blockMappingStart ++ [.key, t]) c.column
        (around indent c.column outer) false [] := by
    rw [opening]
    by_cases further : indent < c.column
    · rw [if_pos (decide_eq_true further), if_pos further, insertAt_block, List.append_assoc]
      rfl
    · rw [if_neg (by simpa using further), if_neg further, List.append_nil]
  rw [token_value rest_eq gap]
  refine (valueSign_eq found rfl blocks).trans ?_
  change Except.ok ((((if decide (indent < c.column) then (block _ _ _ _ _ _).insertAt tokens.length _
    else block _ _ _ _ _ _).allowKey false).emit .value).advanceBy 1) = _
  rw [opened]
  change Except.ok (((block c' (tokens ++ opening indent c.column .blockMappingStart ++ [.key, t]) c.column
    (around indent c.column outer) false []).emit .value).advanceBy 1) = _
  rw [emit_block, advanceBy_block rest_eq rfl, List.append_assoc _ [Token.key, t]]
  rfl

variable (tokens outer) in
/-- A key in front of its colon is read as one more key of the mapping at its column. -/
theorem reaches_key (ending : c.ending = none) (spells : Spells x cs t) (rest_eq : c.rest = cs ++ ':' :: rest)
    (gap : endsWord rest.head? = true) (inside : indent ≤ c.column) (short : cs.length ≤ keyReach) :
    Reaches (block c tokens indent outer true [])
      (block (c.onward (cs.length + 1) rest)
        (tokens ++ opening indent c.column .blockMappingStart ++ [.key, t, .value]) c.column
        (around indent c.column outer) false []) := by
  obtain ⟨ch, more, rfl, token⟩ := token_key tokens outer true spells rest_eq gap inside
  obtain ⟨_, _, same, ascii, blank, remark⟩ := spells.first
  obtain ⟨rfl, rfl⟩ := List.cons_eq_cons.mp same
  have waits : (block c tokens indent outer true []).Waits := waits_of_sign ending rest_eq ascii blank remark
  have colon := token_colon (c.onward (ch :: more).length (':' :: rest)) tokens outer t Cursor.onward_rest
    gap inside
  rw [Cursor.onward_onward] at colon
  refine (Reaches.token waits no_places inside rest_eq token ending ?_).trans
    (Reaches.token (waits_of_sign ending rfl rfl (by decide) (by decide)) (fun p member => ?_) ?_ rfl colon ending ?_)
  · change (':' :: rest).length < c.rest.length
    rw [rest_eq]
    simp only [List.length_append, List.length_cons]
    omega
  · rw [List.mem_singleton.mp member]
    change (c.line == c.line && decide (c.index + (ch :: more).length - c.index ≤ keyReach)) = true
    rw [beq_self_eq_true, Nat.add_sub_cancel_left, decide_eq_true short]
    rfl
  · exact inside.trans (Int.ofNat_le.mpr (Nat.le_add_right _ _))
  · exact Nat.lt_succ_self rest.length

/-! ## Signs -/

theorem openFor_block (start : Token) (inside : indent ≤ c.column) :
    (block c tokens indent outer true []).openFor start =
      .ok (block c (tokens ++ opening indent c.column start) c.column (around indent c.column outer) true []) := by
  have blocks : (block c tokens indent outer true []).openBlock c.column =
      (decide (indent < c.column), block c tokens c.column (around indent c.column outer) true []) :=
    openBlock_block inside
  rw [openFor_eq rfl rfl blocks, opening]
  by_cases further : indent < c.column
  · simp [further, emit_block]
  · simp [further]

theorem emitted_block (rest_eq : c.rest = ch :: rest) (ascii : isPlainAscii ch = true) :
    ((block c tokens indent outer allowed []).emit t).advanceBy 1 =
      block (c.onward 1 rest) (tokens ++ [t]) indent outer allowed [] := by
  rw [emit_block, advanceBy_block rest_eq ascii]

/-- Behind a sign that may be the first in a list or mapping and a blank, the next sign is reached. -/
theorem reaches_sign {d : Char} {start : Token} (ending : c.ending = none) (rest_eq : c.rest = ch :: ' ' :: d :: rest)
    (ascii : isPlainAscii ch = true) (blank : ch ≠ ' ') (remark : ch ≠ '#')
    (ascii' : isPlainAscii d = true) (blank' : d ≠ ' ') (remark' : d ≠ '#') (inside : indent ≤ c.column)
    (token : (block c tokens indent outer true []).token ch = .ok (block (c.onward 1 (' ' :: d :: rest))
      (tokens ++ opening indent c.column start ++ [t]) c.column (around indent c.column outer) true [])) :
    Reaches (block c tokens indent outer true [])
      (block (c.onward 2 (d :: rest)) (tokens ++ opening indent c.column start ++ [t]) c.column
        (around indent c.column outer) true []) := by
  refine (Reaches.token (waits_of_sign ending rest_eq ascii blank remark) no_places inside rest_eq token ending
    ?_).trans (.blanks 1 ending rfl ascii' blank' remark')
  change (' ' :: d :: rest).length < c.rest.length
  rw [rest_eq]
  exact Nat.lt_succ_self _

variable (tokens outer) in
theorem reaches_dash {d : Char} (ending : c.ending = none) (rest_eq : c.rest = '-' :: ' ' :: d :: rest)
    (ascii : isPlainAscii d = true) (blank : d ≠ ' ') (remark : d ≠ '#') (inside : indent ≤ c.column) :
    Reaches (block c tokens indent outer true [])
      (block (c.onward 2 (d :: rest)) (tokens ++ opening indent c.column .blockSequenceStart ++ [.blockEntry])
        c.column (around indent c.column outer) true []) := by
  refine reaches_sign ending rest_eq rfl (by decide) (by decide) ascii blank remark inside ?_
  rw [token_dash (s := block c tokens indent outer true []) rest_eq, blockEntry, openFor_block _ inside]
  exact congrArg Except.ok (emitted_block rest_eq rfl)

variable (tokens outer) in
theorem reaches_question {d : Char} (ending : c.ending = none) (rest_eq : c.rest = '?' :: ' ' :: d :: rest)
    (ascii : isPlainAscii d = true) (blank : d ≠ ' ') (remark : d ≠ '#') (inside : indent ≤ c.column) :
    Reaches (block c tokens indent outer true [])
      (block (c.onward 2 (d :: rest)) (tokens ++ opening indent c.column .blockMappingStart ++ [.key])
        c.column (around indent c.column outer) true []) := by
  refine reaches_sign ending rest_eq rfl (by decide) (by decide) ascii blank remark inside ?_
  rw [token_question (s := block c tokens indent outer true []) rest_eq, explicitKey, openFor_block _ inside]
  exact congrArg Except.ok (emitted_block rest_eq rfl)

variable (tokens outer) in
/-- The colon below its key. -/
theorem reaches_value {d : Char} (ending : c.ending = none) (rest_eq : c.rest = ':' :: ' ' :: d :: rest)
    (ascii : isPlainAscii d = true) (blank : d ≠ ' ') (remark : d ≠ '#') :
    Reaches (block c tokens c.column outer true [])
      (block (c.onward 2 (d :: rest)) (tokens ++ [.value]) c.column outer true []) := by
  have token : (block c tokens c.column outer true []).token ':' = .ok (block (c.onward 1 (' ' :: d :: rest))
      (tokens ++ opening c.column c.column .blockMappingStart ++ [.value]) c.column
      (around c.column c.column outer) true []) := by
    rw [token_value (s := block c tokens c.column outer true []) rest_eq rfl]
    change (do
      let s ← (block c tokens c.column outer true []).openFor .blockMappingStart
      return ((← (s.allowKey (s.level == 0)).dropPlace).emit .value).advanceBy 1) = _
    rw [openFor_block _ (le_refl _)]
    exact congrArg Except.ok (emitted_block rest_eq rfl)
  have reached := reaches_sign ending rest_eq rfl (by decide) (by decide) ascii blank remark (le_refl _) token
  rwa [opening, around, if_neg (lt_irrefl _), if_neg (lt_irrefl _), List.append_nil] at reached

/-! ## Empty lists and mappings -/

/-- The signs around a list or mapping, and their tokens. -/
inductive Brackets : Char → Char → Token → Token → Prop where
  | list : Brackets '[' ']' .flowSequenceStart .flowSequenceEnd
  | mapping : Brackets '\x7b' '\x7d' .flowMappingStart .flowMappingEnd

theorem Brackets.start_sign {close : Char} {start finish : Token} (brackets : Brackets ch close start finish) :
    isPlainAscii ch = true ∧ ch ≠ ' ' ∧ ch ≠ '#' := by
  cases brackets <;> decide

theorem Brackets.finish_sign {close : Char} {start finish : Token}
    (brackets : Brackets ch close start finish) : isPlainAscii close = true ∧ close ≠ ' ' ∧ close ≠ '#' := by
  cases brackets <;> decide

theorem token_open {s : Scanner} {close : Char} {start finish : Token} (brackets : Brackets ch close start finish)
    (rest_eq : s.cursor.rest = ch :: rest) : s.token ch = s.flowStart start := by
  cases brackets <;>
  · obtain ⟨dashes, points⟩ := atMark_eq_false (s := s) (rest_eq ▸ rfl)
    simp [token, dashes, points]

theorem token_close {s : Scanner} {close : Char} {start finish : Token} (brackets : Brackets ch close start finish)
    (rest_eq : s.cursor.rest = close :: rest) : s.token close = s.flowEnd finish := by
  cases brackets <;>
  · obtain ⟨dashes, points⟩ := atMark_eq_false (s := s) (rest_eq ▸ rfl)
    simp [token, dashes, points]

/-- The state behind the sign that opens a flow collection. -/
def opened (c : Cursor) (tokens : List Token) (indent : Int) (outer : List Int) (places : List KeyPlace) :
    Scanner :=
  ⟨c, tokens.toArray, 1, indent, outer, true, places⟩

/-- The place is at a position outside of flow collections, and no key has to follow. -/
structure Optional (c : Cursor) (p : KeyPlace) : Prop where
  level : p.level = 0
  required : p.required = false
  line : p.line = c.line
  index : p.index = c.index

variable (tokens allowed) in
theorem optional_of_inside (inside : indent < c.column) :
    ∀ p ∈ if allowed then [keyPlace c tokens indent] else [], Optional c p := by
  intro p member
  split at member
  · rw [List.mem_singleton.mp member]
    exact ⟨rfl, beq_false_of_ne inside.ne, rfl, rfl⟩
  · exact absurd member List.not_mem_nil

variable (tokens indent outer allowed) in
theorem token_open_block {close : Char} {start finish : Token} (brackets : Brackets ch close start finish)
    (rest_eq : c.rest = ch :: cs) : (block c tokens indent outer allowed []).token ch =
      .ok (opened (c.onward 1 cs) (tokens ++ [start]) indent outer
        (if allowed then [keyPlace c tokens indent] else [])) := by
  rw [token_open (s := block c tokens indent outer allowed []) brackets rest_eq, flowStart]
  change (do
    let s ← (block c tokens indent outer allowed []).savePlace
    return ((({ s with level := s.level + 1 } : Scanner).allowKey true).emit start).advanceBy 1) = _
  rw [savePlace_block]
  change Except.ok (⟨c.advance, tokens.toArray.push start, 1, indent, outer, true, _⟩ : Scanner) = _
  rw [Cursor.advance_ascii rest_eq brackets.start_sign.1, List.push_toArray]
  rfl

/-- Places outside of a flow collection stay when one is dropped inside. -/
theorem dropPlace_opened {place : Cursor} (loose : ∀ p ∈ places, Optional place p) :
    (opened c tokens indent outer places).dropPlace = .ok (opened c tokens indent outer places) := by
  have optional : places.any (fun p => p.level == 1 && p.required) = false := by
    rw [List.any_eq_false]
    intro p member
    rw [(loose p member).required, Bool.and_false]
    exact Bool.false_ne_true
  have kept : places.filter (fun p => p.level != 1) = places :=
    List.filter_eq_self.mpr fun p member => by rw [(loose p member).level]; rfl
  rw [dropPlace, opened]
  dsimp only
  rw [optional, kept]
  rfl

variable (tokens indent outer) in
theorem token_close_opened {close : Char} {start finish : Token} (brackets : Brackets ch close start finish)
    (rest_eq : c.rest = close :: cs) {place : Cursor} (loose : ∀ p ∈ places, Optional place p) :
    (opened c tokens indent outer places).token close =
      .ok (block (c.onward 1 cs) (tokens ++ [finish]) indent outer false places) := by
  rw [token_close (s := opened c tokens indent outer places) brackets rest_eq, flowEnd,
    dropPlace_opened loose]
  change Except.ok (⟨c.advance, tokens.toArray.push finish, 0, indent, outer, false, places⟩ : Scanner) = _
  rw [Cursor.advance_ascii rest_eq brackets.finish_sign.1, List.push_toArray]
  rfl

/-- An empty list or mapping at the end of a line is read as two tokens. -/
theorem reaches_empty {close : Char} {start finish : Token} (brackets : Brackets ch close start finish)
    (ending : c.ending = none) (rest_eq : c.rest = ch :: close :: '\n' :: rest) (stands : Stands column rest)
    (inside : indent < c.column) :
    Reaches (block c tokens indent outer allowed [])
      (block (((c.onward 2 ('\n' :: rest)).below rest).onward column (rest.drop column))
        (tokens ++ [start, finish]) indent outer true []) := by
  obtain ⟨ascii, blank, remark⟩ := brackets.start_sign
  obtain ⟨ascii', blank', remark'⟩ := brackets.finish_sign
  have begins := token_open_block tokens indent outer allowed brackets rest_eq
  have loose := optional_of_inside tokens allowed inside
  generalize (if allowed then [keyPlace c tokens indent] else []) = places at begins loose
  have ends := token_close_opened (tokens ++ [start]) indent outer brackets
    (c := c.onward 1 (close :: '\n' :: rest)) rfl loose
  rw [List.append_assoc, Cursor.onward_onward] at ends
  refine (Reaches.token (waits_of_sign ending rest_eq ascii blank remark) no_places inside.le rest_eq begins ending
    ?_).trans ((Reaches.token (waits_of_sign ending rfl ascii' blank' remark') (fun p member => ?_) ?_ rfl ends
      ending ?_).trans ((Reaches.line rfl ending rfl stands).trans
        (.drop_places ⟨ending, column, rest, stands, rfl⟩ fun p member => ?_)))
  · change (close :: '\n' :: rest).length < c.rest.length
    rw [rest_eq]
    exact Nat.lt_succ_self _
  · change (p.line == c.line && decide (c.index + 1 - p.index ≤ keyReach)) = true
    rw [(loose p member).line, (loose p member).index, beq_self_eq_true, Nat.add_sub_cancel_left]
    rfl
  · change indent ≤ ((c.column + 1 : Nat) : Int)
    omega
  · exact Nat.lt_succ_self _
  · rw [(loose p member).line]
    exact ⟨(Nat.lt_succ_self c.line).ne, (loose p member).required⟩

end

end DecisionTables.Yaml.Scanner
