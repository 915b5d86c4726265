import DecisionTables.Proofs.Denoting
import DecisionTables.Proofs.Repeating
import DecisionTables.Proofs.Selecting

/-!
# Complementary cells

An exclamation mark turns a cell around: of every text that can be compared either the cell
holds or the one with the mark, and a text that one of them cannot be compared with is an
error for both.  So two rules with such cells in one row exclude each other, and a table of
nothing but these two cells always selects one of its rules: the subject has one text,
however often and wherever in a decision it is read.
-/

namespace DecisionTables

/-! ## Cells -/

namespace Cell

/-- The cell that holds where this one does not. -/
def complement (cell : Cell) : Cell :=
  { cell with negated := !cell.negated }

@[simp] theorem complement_complement (cell : Cell) : cell.complement.complement = cell := by
  rw [complement, complement, Bool.not_not]

/-- The number of a text, else the text. -/
def numberOf (s : String) : Except String Binary64 :=
  match Numeral.read? s with
  | some x => .ok x
  | none => .error s

/-- How a text compares with the literal of a cell, else the text that is no number. -/
def compare (cell : Cell) (value : String) : Except String Bool :=
  match cell.operator with
  | .any => .ok true
  | .equals => .ok (value == cell.literal)
  | .greaterThan => do
    let left ← numberOf value
    let right ← numberOf cell.literal
    return right.lt left
  | .lessThan => do
    let left ← numberOf value
    let right ← numberOf cell.literal
    return left.lt right

theorem number_eq (cell : Cell) (s : String) :
    cell.number s = (numberOf s).mapError fun text => .notNumeric text cell.text := by
  unfold number numberOf
  cases Numeral.read? s <;> rfl

/-- A cell compares as its operator and its literal say, and an error names the cell. -/
theorem holds_eq (cell : Cell) (value : String) :
    cell.holds value = (cell.compare value).mapError fun text => .notNumeric text cell.text := by
  unfold holds compare
  cases cell.operator with
  | any => rfl
  | equals => rfl
  | _ =>
      simp only [number_eq]
      cases numberOf value with
      | error text => rfl
      | ok left => cases numberOf cell.literal <;> rfl

/-- A cell and its complement give opposite results, or both fail on the same text. -/
theorem accepts_complement (cell : Cell) (value : String) :
    (∃ holds, cell.accepts value = .ok holds ∧ cell.complement.accepts value = .ok (!holds)) ∨
      ∃ text, cell.accepts value = .error (.notNumeric text cell.text) ∧
        cell.complement.accepts value = .error (.notNumeric text cell.complement.text) := by
  have same : cell.complement.compare value = cell.compare value := rfl
  unfold accepts
  rw [holds_eq, holds_eq, same]
  cases cell.compare value with
  | error text => exact .inr ⟨text, rfl, rfl⟩
  | ok result =>
      refine .inl ⟨result != cell.negated, rfl, congrArg Except.ok ?_⟩
      change (result != !cell.negated) = !(result != cell.negated)
      cases result <;> cases cell.negated <;> rfl

theorem accepts_complement_of_ok {cell : Cell} {value : String} {holds : Bool}
    (accepted : cell.accepts value = .ok holds) : cell.complement.accepts value = .ok (!holds) := by
  rcases cell.accepts_complement value with ⟨_, here, there⟩ | ⟨_, failed, _⟩
  · cases here.symm.trans accepted
    exact there
  · cases failed.symm.trans accepted

/-! ### Cells as they are written -/

theorem complement_parseBody (negated : Bool) (body : List Char) :
    (parseBody negated body).complement = parseBody (!negated) body := by
  unfold parseBody
  split <;> rfl

/-- A text with an exclamation mark before it denotes the complement of what the text denotes, if this
has no mark itself. -/
theorem parse_not {b : String} (plain : b.toList.head? ≠ some '!') :
    parse ("!" ++ b) = (parse b).complement := by
  have marked : ("!" ++ b).toList = '!' :: b.toList := by simp
  have unmarked : parse b = parseBody false b.toList := by
    rw [parse]
    split
    · next body starts =>
        rw [starts] at plain
        exact (plain rfl).elim
    · rfl
  rw [parse, marked, unmarked]
  exact (complement_parseBody false _).symm

end Cell

/-! ## Conditions and rules -/

/-- Two conditions on one subject, by a cell and its complement. -/
structure Condition.Opposes (c d : Condition) : Prop where
  subject : d.subject = c.subject
  cell : d.cell = c.cell.complement

namespace Condition.Opposes

variable {k : Knowledge} {resolve : Resolver} {c d : Condition} {p q : Progress}

theorem parse {b : String} (plain : b.toList.head? ≠ some '!') (subject : String) :
    (Condition.parse subject b).Opposes (Condition.parse subject ("!" ++ b)) :=
  ⟨rfl, Cell.parse_not plain⟩

theorem symm (opposes : c.Opposes d) : d.Opposes c := by
  refine ⟨opposes.subject.symm, ?_⟩
  rw [opposes.cell, Cell.complement_complement]

/-- Of two such conditions only one can stand. -/
theorem not_stands (opposes : c.Opposes d) (stands : c.Stands k resolve true) :
    ¬ d.Stands k resolve true := by
  rintro ⟨text', settled', accepted'⟩
  obtain ⟨text, settled, accepted⟩ := stands
  rw [opposes.subject] at settled'
  obtain rfl := settled.unique settled'
  rw [opposes.cell, Cell.accepts_complement_of_ok accepted] at accepted'
  cases accepted'

end Condition.Opposes

namespace Rule

variable {resolve : Resolver} {r : Rule} {c : Condition} {text : String} {holds : Bool}
  {p q : Progress}

/-- A rule with a single condition is satisfied as the cell says of the text of the subject. -/
theorem runFrom_check_single (single : r.conditions = [c])
    (read : runFrom (resolve c.subject) p = (.ok text, q)) (accepted : c.cell.accepts text = .ok holds) :
    ∃ q', runFrom (r.check resolve) p = (.ok holds, q') ∧ q'.known = q.known := by
  have evaluated := Condition.runFrom_evaluate_ok read accepted
  refine ⟨(q.reported (.condition c.text holds)).reported (.rule r.name holds), ?_, rfl⟩
  rw [check, single, Condition.allHold, bind_assoc, runFrom_bind_ok evaluated]
  cases holds <;> rfl

end Rule

/-! ## Tables -/

namespace Table

variable {resolve : Resolver} {t : Table} {first second : Rule} {c d : Condition} {text : String}
  {holds : Bool} {p q : Progress}

/-- A table of two rules with nothing but opposite conditions has the one of them satisfied whose
condition holds. -/
theorem runFrom_satisfiedRule?_opposed (steady : resolve.Steady) (rules : t.rules = [first, second])
    (here : first.conditions = [c]) (there : second.conditions = [d]) (opposes : c.Opposes d)
    (read : runFrom (resolve c.subject) p = (.ok text, q)) (accepted : c.cell.accepts text = .ok holds) :
    ∃ q', runFrom (t.satisfiedRule? resolve) p =
      (.ok (some (if holds then first else second)), q') := by
  obtain ⟨q₁, checked, known⟩ := Rule.runFrom_check_single here read accepted
  have again : runFrom (resolve d.subject) q₁ = (.ok text, q₁) := by
    rw [opposes.subject]
    refine steady.settles read q₁ ?_
    rw [known]
    exact .refl _
  have turned : d.cell.accepts text = .ok (!holds) := by
    rw [opposes.cell]
    exact Cell.accepts_complement_of_ok accepted
  obtain ⟨q₂, checked', _⟩ := Rule.runFrom_check_single there again turned
  have satisfied : runFrom (Rule.satisfied resolve t.rules) p =
      (.ok [if holds then first else second], q₂) := by
    rw [rules, Rule.satisfied, runFrom_bind_ok checked, Rule.satisfied, bind_assoc,
      runFrom_bind_ok checked']
    cases holds <;> rfl
  rw [satisfiedRule?, runFrom_bind_ok satisfied]
  exact ⟨_, rfl⟩

end Table

/-! ## Contexts -/

namespace ContextId

variable {σ σ' : Store} {ctx : ContextId} {r r' : Rule} {c d : Condition}

/-- A context in which something is settled is in the store. -/
theorem inside_of_settles {k : Knowledge} {subject : Coordinate} {text : String}
    (settled : k.Settles (σ.resolver ctx) subject text) : ctx.index < σ.contexts.size := by
  by_contra outside
  have blank : (σ.context ctx).registry = [] := by
    rw [Store.context, Array.getD_eq_getD_getElem?, Array.getElem?_eq_none (Nat.le_of_not_lt outside)]
    rfl
  have ran := settled ⟨⟨k.outcomes, k.verdicts, []⟩, #[]⟩ (.refl k)
  rw [Store.resolver, blank] at ran
  cases ran

/-- A rule that was found satisfied keeps every rule with an opposite condition from being so. -/
theorem check_excludes (member : c ∈ r.conditions) (member' : d ∈ r'.conditions) (opposes : c.Opposes d)
    (ran : runFrom (ctx.evaluate fun resolve => r.check resolve) σ = (.ok true, σ')) :
    (runFrom (ctx.evaluate fun resolve => r'.check resolve) σ').1 ≠ .ok true := by
  obtain ⟨q, checked, rfl⟩ := value_of_evaluate ran
  have stands := Rule.stand_of_check (σ.steady_resolver ctx) checked c member
  have ⟨_, settled, _⟩ := stands
  have inside := inside_of_settles settled
  have resolver := Store.resolver_withProgress inside q
  have known : ((σ.withProgress ctx q).progress ctx).known = q.known := by
    rw [Progress.known, Store.memo_withProgress inside]
    rfl
  intro checked'
  rw [ctx.runFrom_evaluate, resolver] at checked'
  have onward := (Rule.uniform_check r').along Progress.along_onward (σ.steady_resolver ctx).onward
    ((σ.withProgress ctx q).progress ctx)
  have later := Rule.stand_of_check (σ.steady_resolver ctx) (Prod.ext checked' rfl) d member'
  exact opposes.not_stands (stands.mono (known ▸ onward.known)) later

/-- Of rules that are found satisfied together no two have opposite conditions. -/
theorem satisfied_excludes (member : c ∈ r.conditions) (member' : d ∈ r'.conditions)
    (opposes : c.Opposes d) {rules found : List Rule}
    (ran : runFrom (ctx.evaluate fun resolve => Rule.satisfied resolve rules) σ = (.ok found, σ')) :
    ¬ (r ∈ found ∧ r' ∈ found) := by
  rintro ⟨inside, inside'⟩
  obtain ⟨q, satisfied, _⟩ := value_of_evaluate ran
  have stand := Rule.stand_of_satisfied (σ.steady_resolver ctx) satisfied
  exact opposes.not_stands (stand r inside c member) (stand r' inside' d member')

/-- A table of two rules whose only conditions are opposite selects the one whose condition holds, if the
subject has a text and this can be compared. -/
theorem select_opposed {t : Table} {first second : Rule} (rules : t.rules = [first, second])
    (here : first.conditions = [c]) (there : second.conditions = [d]) (opposes : c.Opposes d)
    {text : String} (read : (runFrom (ctx.read c.subject) σ).1 = .ok text) {holds : Bool}
    (accepted : c.cell.accepts text = .ok holds) :
    (runFrom (ctx.evaluate fun resolve => t.satisfiedRule? resolve) σ).1 =
      .ok (some (if holds then first else second)) := by
  rw [ContextId.read, ctx.runFrom_evaluate] at read
  obtain ⟨q, satisfied⟩ := Table.runFrom_satisfiedRule?_opposed (σ.steady_resolver ctx) rules here there
    opposes (Prod.ext read rfl) accepted
  rw [ctx.runFrom_evaluate, satisfied]

/-- A rule that is satisfied is selected, and the outcome is its own. -/
theorem decide_of_satisfiedRule? {t : Table} {r : Rule}
    (satisfied : (runFrom (ctx.evaluate fun resolve => t.satisfiedRule? resolve) σ).1 = .ok (some r)) :
    (runFrom (ctx.evaluate fun resolve => t.select resolve) σ).1 = .ok r ∧
      (runFrom (ctx.evaluate fun resolve => t.decide resolve) σ).1 = .ok r.outcome := by
  rw [ctx.runFrom_evaluate] at satisfied
  rw [ctx.runFrom_evaluate, ctx.runFrom_evaluate, Table.decide, runFrom_return, Table.select,
    runFrom_return]
  change (runFrom (t.satisfiedRule? (σ.resolver ctx)) (σ.progress ctx)).1 = _ at satisfied
  rw [satisfied]
  exact ⟨rfl, rfl⟩

/-- A cell and the cell with an exclamation mark before it part the texts: on each they give opposite
results or fail alike.  So two rules that have them in one row are never both satisfied, whatever else
they ask, neither in a decision nor one after the other in a context.  And a table of two rules with
these cells alone selects one of the two, whenever the subject has a text that can be compared; it neither
falls back nor is ambiguous, wherever the text comes from. -/
theorem complementary_cells_part {b : String} (plain : b.toList.head? ≠ some '!') :
    (∀ value,
      (∃ holds, (Cell.parse b).accepts value = .ok holds ∧
        (Cell.parse ("!" ++ b)).accepts value = .ok (!holds)) ∨
      ∃ text, (Cell.parse b).accepts value = .error (.notNumeric text b) ∧
        (Cell.parse ("!" ++ b)).accepts value = .error (.notNumeric text ("!" ++ b))) ∧
    ∀ (σ : Store) (ctx : ContextId) (subject : String) (r r' : Rule),
      (Condition.parse subject b ∈ r.conditions →
        Condition.parse subject ("!" ++ b) ∈ r'.conditions →
        (∀ rules found σ', runFrom (ctx.evaluate fun resolve => Rule.satisfied resolve rules) σ =
          (.ok found, σ') → ¬ (r ∈ found ∧ r' ∈ found)) ∧
        (∀ σ', runFrom (ctx.evaluate fun resolve => r.check resolve) σ = (.ok true, σ') →
          (runFrom (ctx.evaluate fun resolve => r'.check resolve) σ').1 ≠ .ok true) ∧
        ∀ σ', runFrom (ctx.evaluate fun resolve => r'.check resolve) σ = (.ok true, σ') →
          (runFrom (ctx.evaluate fun resolve => r.check resolve) σ').1 ≠ .ok true) ∧
      (r.conditions = [Condition.parse subject b] →
        r'.conditions = [Condition.parse subject ("!" ++ b)] →
        ∀ t : Table, t.rules = [r, r'] ∨ t.rules = [r', r] →
        ∀ value, (runFrom (ctx.read (Coordinate.parse subject)) σ).1 = .ok value →
        ∀ holds, (Cell.parse b).accepts value = .ok holds →
        let chosen := if holds then r else r'
        (runFrom (ctx.evaluate fun resolve => t.satisfiedRule? resolve) σ).1 = .ok (some chosen) ∧
        (runFrom (ctx.evaluate fun resolve => t.select resolve) σ).1 = .ok chosen ∧
        (runFrom (ctx.evaluate fun resolve => t.decide resolve) σ).1 = .ok chosen.outcome) := by
  constructor
  · intro value
    have parted := (Cell.parse b).accepts_complement value
    rw [← Cell.parse_not plain, Cell.text_parse, Cell.text_parse] at parted
    exact parted
  intro σ ctx subject r r'
  have opposes := Condition.Opposes.parse plain subject
  constructor
  · intro member member'
    exact ⟨fun rules found σ' => satisfied_excludes member member' opposes,
      fun σ' => check_excludes member member' opposes,
      fun σ' => check_excludes member' member opposes.symm⟩
  · intro here there t rules value read holds accepted chosen
    have satisfied : (runFrom (ctx.evaluate fun resolve => t.satisfiedRule? resolve) σ).1 =
        .ok (some chosen) := by
      rcases rules with rules | rules
      · exact select_opposed rules here there opposes read accepted
      · -- the rule with the mark comes first, so the first condition is the one that is turned around
        have turned : (Condition.parse subject ("!" ++ b)).cell.accepts value = .ok (!holds) := by
          rw [opposes.cell]
          exact Cell.accepts_complement_of_ok accepted
        have swapped : chosen = if !holds then r' else r := by
          cases holds <;> rfl
        rw [swapped]
        exact select_opposed rules there here opposes.symm read turned
    exact ⟨satisfied, decide_of_satisfiedRule? satisfied⟩

/-- A stored state of a value and of a named condition that is about it. -/
def heated : Store :=
  { Store.empty with
    sources := #[.stored (.text "boiler") [(.text "degrees", .scalar (.int 90))] [],
      .ofConditions [("hot", .parse "boiler::degrees" ">80")]]
    states := #[[(.text "boiler", ⟨0⟩), (.text "conditions", ⟨1⟩)]] }

/-- A rule of a single condition with a verdict. -/
def ruling (subject cell verdict : String) : Rule :=
  ⟨verdict, [⟨.row .condition, subject, cell⟩, ⟨.row .outcome, "verdict", verdict⟩]⟩

/-- A table that asks a named condition, and one that asks that table whether the pressure is above seven
or not. -/
def valves : List Table :=
  [.make "pressure" [⟨"high", [⟨.row .condition, "conditions::hot", "true"⟩,
      ⟨.row .outcome, "bar", "9"⟩]⟩] none,
    .make "valve" [ruling "pressure::bar" "!>7" "closed", ruling "pressure::bar" ">7" "open"] none]

/-- The store with a context over these tables and that state. -/
def overHeated : Store :=
  (runFrom (ContextId.open ⟨0⟩ (some (.ofList valves)) (.requestOf []) none) heated).2

theorem valve_opens :
    (runFrom (ContextId.evaluate ⟨0⟩ fun resolve =>
      (Table.make "valve" [ruling "pressure::bar" "!>7" "closed",
        ruling "pressure::bar" ">7" "open"] none).decide resolve) overHeated).1 =
      .ok [("verdict", "open")] := by
  have plain : (">7" : String).toList.head? ≠ some '!' := by decide
  have read : (runFrom (ContextId.read ⟨0⟩ (Coordinate.parse "pressure::bar")) overHeated).1 =
      .ok "9" := by decide +kernel
  have accepted : (Cell.parse ">7").accepts "9" = .ok true := by decide +kernel
  exact (((complementary_cells_part plain).2 overHeated ⟨0⟩ "pressure::bar"
    (ruling "pressure::bar" ">7" "open") (ruling "pressure::bar" "!>7" "closed")).2 rfl rfl _
    (.inr rfl) "9" read true accepted).2.2

end ContextId

end DecisionTables
