import DecisionTables.Proofs.Pairing

/-!
# Writing fragments

What a write changes, on the sources alone: one fragment of one source, in place or at
the end.  Everything else of the source stays as it is, and so do all other sources and
their order.
-/

namespace DecisionTables

/-! ## Changing one value -/

namespace Assoc

variable {κ : Type u} {ν : Type v} [BEq κ]

/-- Change the value of a key; without the key nothing changes. -/
def adjust (a : Assoc κ ν) (key : κ) (f : ν → ν) : Assoc κ ν :=
  match a with
  | [] => []
  | (k, v) :: rest => if k == key then (k, f v) :: rest else (k, v) :: adjust rest key f

theorem adjust_of_missing {a : Assoc κ ν} {key : κ} (missing : find? a key = none) (f : ν → ν) :
    adjust a key f = a := by
  induction a with
  | nil => rfl
  | cons entry rest ih =>
      obtain ⟨k, v⟩ := entry
      rw [find?] at missing
      split at missing
      · cases missing
      · rename_i differ
        rw [adjust, if_neg differ, ih missing]

theorem find?_eq_none {a : Assoc κ ν} {key : κ} (differ : ∀ e ∈ a, (e.1 == key) = false) :
    find? a key = none := by
  cases found : find? a key with
  | none => rfl
  | some value =>
      obtain ⟨k, same, member⟩ := exists_mem_of_find? found
      rw [differ _ member] at same
      cases same

/-- Writing a value replaces it in place, or adds it at the end. -/
theorem insert_eq_append (a : Assoc κ ν) (key : κ) (value : ν) :
    ∃ kept added, insert a key value = kept ++ added ∧
      List.Forall₂ (fun e f => e.1 = f.1 ∧ ((e.1 == key) = false → e.2 = f.2)) a kept ∧
      ∀ e ∈ added, e.1 = key := by
  induction a with
  | nil =>
      refine ⟨[], [(key, value)], rfl, .nil, fun e member => ?_⟩
      rw [List.mem_singleton.mp member]
  | cons entry rest ih =>
      obtain ⟨k, v⟩ := entry
      have unchanged : List.Forall₂ (fun e f : κ × ν => e.1 = f.1 ∧ ((e.1 == key) = false → e.2 = f.2))
          rest rest := List.forall₂_same.mpr fun _ _ => ⟨rfl, fun _ => rfl⟩
      rw [insert]
      split
      · rename_i same
        refine ⟨(k, value) :: rest, [], (List.append_nil _).symm, .cons ⟨rfl, fun differ => ?_⟩ unchanged,
          fun _ impossible => absurd impossible List.not_mem_nil⟩
        rw [same] at differ
        cases differ
      · obtain ⟨kept, added, split, related, new⟩ := ih
        exact ⟨(k, v) :: kept, added, congrArg _ split, .cons ⟨rfl, fun _ => rfl⟩ related, new⟩

end Assoc

/-! ## Sources -/

namespace Source

/-- The source with a fragment replaced or added; only stored values can be written. -/
def put (s : Source) (fragment : String) (value : Value) : Source :=
  match s.content with
  | .memory kind values defaults =>
    { s with content := .memory kind (values.insert (.text fragment) value) defaults }
  | _ => s

theorem eq_put_of_write {s t : Source} {fragment : String} {value : Value}
    (written : s.write fragment value = .ok t) : t = s.put fragment value := by
  obtain ⟨name, content⟩ := s
  cases content with
  | memory kind values defaults =>
      cases written
      rfl
  | _ => cases written

/-- Nothing is ever written to the source, and no result of it is remembered by its identity. -/
def Fixed (s : Source) : Prop :=
  match s.content with
  | .constant | .table _ => True
  | _ => False

theorem not_fixed_of_write {s t : Source} {fragment : String} {value : Value}
    (written : s.write fragment value = .ok t) : ¬ s.Fixed := by
  intro fixed
  obtain ⟨name, content⟩ := s
  cases content with
  | memory kind values defaults => exact fixed
  | _ => cases written

/-- A fragment under the same name, and of the same value unless that name was written. -/
def KeptEntry (written : String → Prop) (e f : Scalar × Value) : Prop :=
  e.1 = f.1 ∧ ((∀ fragment, written fragment → (e.1 == .text fragment) = false) → e.2 = f.2)

/-- A source after writes to some fragments: nothing but its values has changed, existing fragments
keep their places, those that were not written keep what they are, and new ones come last. -/
structure Rewritten (written : String → Prop) (s t : Source) : Prop where
  alike : s.Alike t
  values : ∃ kept added, t.values = kept ++ added ∧
    List.Forall₂ (KeptEntry written) s.values kept ∧
    ∀ e ∈ added, ∃ fragment, written fragment ∧ e.1 = .text fragment

theorem KeptEntry.refl (written : String → Prop) (e : Scalar × Value) : KeptEntry written e e :=
  ⟨rfl, fun _ => rfl⟩

theorem KeptEntry.trans {written : String → Prop} {e f g : Scalar × Value}
    (first : KeptEntry written e f) (second : KeptEntry written f g) : KeptEntry written e g := by
  refine ⟨first.1.trans second.1, fun differ => (first.2 differ).trans (second.2 ?_)⟩
  rw [← first.1]
  exact differ

namespace Rewritten

variable {written : String → Prop} {s t u : Source}

theorem refl (written : String → Prop) (s : Source) : s.Rewritten written s where
  alike := .refl s
  values := ⟨s.values, [], (List.append_nil _).symm, List.forall₂_same.mpr fun _ _ => .refl _ _,
    fun _ impossible => absurd impossible List.not_mem_nil⟩

theorem put {fragment : String} (target : written fragment) (s : Source) (value : Value) :
    s.Rewritten written (s.put fragment value) := by
  obtain ⟨name, content⟩ := s
  cases content with
  | memory kind values defaults =>
      obtain ⟨kept, added, split, related, new⟩ := values.insert_eq_append (.text fragment) value
      refine ⟨rfl, kept, added, split, ?_, fun e member => ⟨fragment, target, new e member⟩⟩
      exact related.imp fun _ _ pair => ⟨pair.1, fun differ => pair.2 (differ fragment target)⟩
  | _ => exact refl written _

theorem trans (first : s.Rewritten written t) (second : t.Rewritten written u) :
    s.Rewritten written u := by
  obtain ⟨alike, kept, added, split, related, new⟩ := first
  obtain ⟨alike', kept', added', split', related', new'⟩ := second
  rw [split] at related'
  obtain ⟨again, newly, rfl, againRelated, newlyRelated⟩ := forall₂_append related'
  refine ⟨alike.trans _ _ _ alike', again, newly ++ added', ?_, ?_, ?_⟩
  · rw [split', List.append_assoc]
  · refine forall₂_trans ?_ related againRelated
    exact fun _ _ _ => KeptEntry.trans
  · intro e member
    rcases List.mem_append.mp member with inside | inside
    · obtain ⟨f, before, same⟩ := exists_of_forall₂_mem newlyRelated inside
      obtain ⟨fragment, target, key⟩ := new f before
      exact ⟨fragment, target, same.1.symm.trans key⟩
    · exact new' e inside

/-- A fragment that was not written is found as before. -/
theorem find?_eq (rewritten : s.Rewritten written t) {fragment : String}
    (untouched : ¬ written fragment) :
    t.values.find? (.text fragment) = s.values.find? (.text fragment) := by
  have apart : ∀ key : Scalar, (key == .text fragment) = true →
      ∀ other, written other → (key == .text other) = false := by
    intro key same other target
    rw [Scalar.eq_text_of_beq same, Scalar.text_beq]
    exact beq_eq_false_iff_ne.mpr fun equal => untouched (equal ▸ target)
  obtain ⟨_, kept, added, split, related, new⟩ := rewritten
  have absent : Assoc.find? added (.text fragment) = none := by
    refine Assoc.find?_eq_none fun e member => ?_
    obtain ⟨other, target, key⟩ := new e member
    rw [key, Scalar.text_beq]
    exact beq_eq_false_iff_ne.mpr fun equal => untouched (equal ▸ target)
  rw [split]
  generalize s.values = values at related
  clear split
  induction related with
  | nil => exact absent
  | @cons e f _ _ head _ ih =>
      obtain ⟨k, v⟩ := e
      obtain ⟨k', v'⟩ := f
      obtain ⟨same, value⟩ := head
      simp only at same value
      subst same
      rw [List.cons_append, Assoc.find?, Assoc.find?]
      split
      · rename_i found
        rw [value (apart k found)]
      · exact ih

end Rewritten

end Source

/-! ## Stored sources -/

/-- The sources of a stored state, by name. -/
abbrev Holdings := Assoc Scalar Source

namespace Holdings

/-- The stored values, as a caller sees them. -/
def shown (held : Holdings) : Assoc Scalar Value :=
  held.mapValues fun s => .mapping s.values

/-- The sources with one fragment written; without its source nothing changes. -/
def put (held : Holdings) (c : Coordinate) (value : Value) : Holdings :=
  held.adjust (.text c.source) fun s => s.put c.fragment value

/-- The sources with texts written to coordinates, one after the other. -/
def putAll (held : Holdings) : List (Coordinate × String) → Holdings
  | [] => held
  | (c, text) :: rest => (held.put c (.text text)).putAll rest

/-- Sources under the same names in the same order, each rewritten at most where its name and a
fragment were written. -/
def Rewritten (written : Scalar → String → Prop) : Holdings → Holdings → Prop :=
  List.Forall₂ fun e f => e.1 = f.1 ∧ e.2.Rewritten (written e.1) f.2

variable {written : Scalar → String → Prop} {held held' held'' : Holdings}

theorem Rewritten.refl (written : Scalar → String → Prop) (held : Holdings) :
    held.Rewritten written held :=
  List.forall₂_same.mpr fun _ _ => ⟨rfl, .refl _ _⟩

theorem Rewritten.trans (first : held.Rewritten written held')
    (second : held'.Rewritten written held'') : held.Rewritten written held'' := by
  refine forall₂_trans ?_ first second
  rintro e f g ⟨name, rewritten⟩ ⟨name', rewritten'⟩
  rw [← name] at name' rewritten'
  exact ⟨name', rewritten.trans rewritten'⟩

/-- A source that was rewritten is found under its name. -/
theorem Rewritten.find? (rewritten : held.Rewritten written held') {name : String} {s : Source}
    (found : Assoc.find? held (.text name) = some s) :
    ∃ t, Assoc.find? held' (.text name) = some t ∧ s.Rewritten (written (.text name)) t := by
  induction rewritten with
  | nil => cases found
  | @cons e f _ _ head _ ih =>
      obtain ⟨k, v⟩ := e
      obtain ⟨_, w⟩ := f
      obtain ⟨rfl, rewritten⟩ := head
      rw [Assoc.find?] at found ⊢
      split at found
      · rename_i same
        cases found
        rw [if_pos same]
        exact ⟨w, rfl, Scalar.eq_text_of_beq same ▸ rewritten⟩
      · rename_i differ
        rw [if_neg differ]
        exact ih found

theorem rewritten_put (c : Coordinate) (value : Value) (held : Holdings)
    (target : ∀ name, (name == .text c.source) = true → written name c.fragment) :
    held.Rewritten written (held.put c value) := by
  induction held with
  | nil => exact .nil
  | cons entry rest ih =>
      obtain ⟨name, s⟩ := entry
      rw [put, Assoc.adjust]
      split
      · rename_i same
        exact .cons ⟨rfl, .put (target name same) s value⟩ (Rewritten.refl written rest)
      · exact .cons ⟨rfl, .refl _ s⟩ ih

theorem rewritten_putAll (writes : List (Coordinate × String)) (held : Holdings)
    (targets : ∀ w ∈ writes, ∀ name, (name == .text w.1.source) = true → written name w.1.fragment) :
    held.Rewritten written (held.putAll writes) := by
  induction writes generalizing held with
  | nil => exact .refl written held
  | cons w rest ih =>
      obtain ⟨c, text⟩ := w
      exact (rewritten_put c (.text text) held (targets _ List.mem_cons_self)).trans
        (ih _ fun w member => targets w (List.mem_cons_of_mem _ member))

end Holdings

end DecisionTables
