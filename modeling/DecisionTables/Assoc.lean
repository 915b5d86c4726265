/-!
# Ordered associations

A finite map that remembers the order in which its keys first came.  Writing to a
key that is present keeps its place and its spelling.
-/

namespace DecisionTables

/-- Pairs of keys and values in the order of first insertion. -/
abbrev Assoc (κ : Type u) (ν : Type v) := List (κ × ν)

namespace Assoc

variable {κ : Type u} {ν : Type v}

/-- The keys in order. -/
def keys (a : Assoc κ ν) : List κ :=
  List.map Prod.fst a

/-- The values in order. -/
def values (a : Assoc κ ν) : List ν :=
  List.map Prod.snd a

/-- Apply a function to every value. -/
def mapValues {μ : Type w} (f : ν → μ) (a : Assoc κ ν) : Assoc κ μ :=
  List.map (fun entry => (entry.1, f entry.2)) a

@[simp] theorem keys_nil : keys ([] : Assoc κ ν) = [] := rfl

@[simp] theorem keys_cons (entry : κ × ν) (a : Assoc κ ν) :
    keys (entry :: a) = entry.1 :: keys a := rfl

@[simp] theorem keys_mapValues {μ : Type w} (f : ν → μ) (a : Assoc κ ν) :
    keys (mapValues f a) = keys a := by
  simp [keys, mapValues, Function.comp_def]

variable [BEq κ]

/-- The value of a key. -/
def find? (a : Assoc κ ν) (key : κ) : Option ν :=
  match a with
  | [] => none
  | (k, v) :: rest => if k == key then some v else find? rest key

/-- The key has a value. -/
def contains (a : Assoc κ ν) (key : κ) : Bool :=
  (find? a key).isSome

/-- Write a value: in place when the key is present, otherwise at the end. -/
def insert (a : Assoc κ ν) (key : κ) (value : ν) : Assoc κ ν :=
  match a with
  | [] => [(key, value)]
  | (k, v) :: rest =>
    if k == key then (k, value) :: rest else (k, v) :: insert rest key value

/-- Write several pairs one after the other. -/
def insertAll (a : Assoc κ ν) (entries : List (κ × ν)) : Assoc κ ν :=
  entries.foldl (fun acc entry => insert acc entry.1 entry.2) a

/-- The association that a list of pairs builds; a later value replaces an earlier one. -/
def ofList (entries : List (κ × ν)) : Assoc κ ν :=
  insertAll [] entries

@[simp] theorem find?_nil (key : κ) : find? ([] : Assoc κ ν) key = none := rfl

/-- What is found under a key is there under a key that is equal to it. -/
theorem exists_mem_of_find? {a : Assoc κ ν} {key : κ} {value : ν}
    (found : find? a key = some value) : ∃ k, (k == key) = true ∧ (k, value) ∈ a := by
  induction a with
  | nil => cases found
  | cons entry rest ih =>
      obtain ⟨k, v⟩ := entry
      rw [find?] at found
      split at found
      · rename_i same
        cases found
        exact ⟨k, same, List.mem_cons_self⟩
      · obtain ⟨k', same, member⟩ := ih found
        exact ⟨k', same, List.mem_cons_of_mem _ member⟩

theorem mem_of_find? [LawfulBEq κ] {a : Assoc κ ν} {key : κ} {value : ν}
    (found : find? a key = some value) : (key, value) ∈ a := by
  obtain ⟨k, same, member⟩ := exists_mem_of_find? found
  rw [← eq_of_beq same]
  exact member

/-- A present key keeps its place, and a new key comes last. -/
theorem keys_insert (a : Assoc κ ν) (key : κ) (value : ν) :
    keys (insert a key value) = if contains a key then keys a else keys a ++ [key] := by
  induction a with
  | nil => rfl
  | cons entry rest ih =>
    obtain ⟨k, v⟩ := entry
    by_cases h : (k == key) = true
    · simp [insert, contains, find?, keys, h]
    · simp only [insert, contains, find?, h, Bool.false_eq_true, if_false, keys_cons, ih]
      split <;> simp_all [contains]

/-- What is in an association was there before or was written. -/
theorem mem_or_eq_of_mem_insert {a : Assoc κ ν} {key : κ} {value : ν} {entry : κ × ν}
    (member : entry ∈ insert a key value) :
    entry ∈ a ∨ entry.2 = value ∧ (entry.1 = key ∨ (entry.1 == key) = true) := by
  induction a with
  | nil =>
      rw [insert, List.mem_singleton] at member
      cases member
      exact .inr ⟨rfl, .inl rfl⟩
  | cons head rest ih =>
      obtain ⟨k, v⟩ := head
      rw [insert] at member
      split at member
      · rename_i same
        rcases List.mem_cons.mp member with rfl | later
        · exact .inr ⟨rfl, .inr same⟩
        · exact .inl (List.mem_cons_of_mem _ later)
      · rcases List.mem_cons.mp member with rfl | later
        · exact .inl List.mem_cons_self
        · exact (ih later).imp_left (List.mem_cons_of_mem _)

theorem forall_mem_insertAll [LawfulBEq κ] {P : κ × ν → Prop} {a : Assoc κ ν}
    {entries : List (κ × ν)} (old : ∀ entry ∈ a, P entry) (new : ∀ entry ∈ entries, P entry) :
    ∀ entry ∈ insertAll a entries, P entry := by
  induction entries generalizing a with
  | nil => exact old
  | cons head rest ih =>
      refine ih (fun entry member => ?_) fun entry member => new entry (List.mem_cons_of_mem _ member)
      rcases mem_or_eq_of_mem_insert member with before | ⟨value, key⟩
      · exact old entry before
      · have same : entry = head := Prod.ext (key.elim id eq_of_beq) value
        rw [same]
        exact new head List.mem_cons_self

/-- Writing what is there already changes nothing. -/
theorem insert_of_find? {a : Assoc κ ν} {key : κ} {value : ν} (found : find? a key = some value) :
    insert a key value = a := by
  induction a with
  | nil => cases found
  | cons entry rest ih =>
      obtain ⟨k, v⟩ := entry
      rw [find?] at found
      rw [insert]
      split at found
      · rename_i same
        cases found
        rw [if_pos same]
      · rename_i differ
        rw [if_neg differ, ih found]

/-- What was written last under a key is what is found there. -/
theorem find?_insert_self (a : Assoc κ ν) {key : κ} (value : ν) (h : (key == key) = true) :
    find? (insert a key value) key = some value := by
  induction a with
  | nil => simp [insert, find?, h]
  | cons entry rest ih =>
    obtain ⟨k, v⟩ := entry
    by_cases hk : (k == key) = true <;> simp [insert, find?, hk, ih]

/-- Writing under one key leaves every other key alone. -/
theorem find?_insert_of_ne [PartialEquivBEq κ] (a : Assoc κ ν) {key other : κ} (value : ν)
    (h : (key == other) = false) : find? (insert a key value) other = find? a other := by
  induction a with
  | nil => simp [insert, find?, h]
  | cons entry rest ih =>
    obtain ⟨k, v⟩ := entry
    by_cases hk : (k == key) = true
    · have hne : (k == other) = false := by
        cases hko : k == other with
        | false => rfl
        | true =>
          have := PartialEquivBEq.trans (PartialEquivBEq.symm hk) hko
          rw [h] at this
          exact this.symm
      simp [insert, find?, hk, hne]
    · simp [insert, find?, hk, ih]

theorem find?_insert [LawfulBEq κ] (a : Assoc κ ν) (key other : κ) (value : ν) :
    find? (insert a key value) other = if key == other then some value else find? a other := by
  cases same : key == other with
  | true =>
      rw [← eq_of_beq same]
      exact find?_insert_self a value BEq.rfl
  | false => exact find?_insert_of_ne a value same

/-- No key is equal to an earlier one. -/
def Distinct (a : Assoc κ ν) : Prop :=
  List.Pairwise (fun e f => (e.1 == f.1) = false) a

theorem distinct_iff_keys (a : Assoc κ ν) :
    Distinct a ↔ (keys a).Pairwise fun k l => (k == l) = false := by
  rw [keys, List.pairwise_map]
  rfl

theorem mem_insert {a : Assoc κ ν} {key : κ} {value : ν} {entry : κ × ν}
    (member : entry ∈ insert a key value) : entry.1 ∈ keys a ∨ entry.1 = key := by
  induction a with
  | nil =>
      rw [insert, List.mem_singleton] at member
      exact .inr (congrArg Prod.fst member)
  | cons head rest ih =>
      obtain ⟨k, v⟩ := head
      rw [insert] at member
      rw [keys_cons, List.mem_cons]
      split at member
      · rcases List.mem_cons.mp member with rfl | later
        · exact .inl (.inl rfl)
        · exact .inl (.inr (List.mem_map_of_mem later))
      · rcases List.mem_cons.mp member with rfl | later
        · exact .inl (.inl rfl)
        · rcases ih later with old | new
          · exact .inl (.inr old)
          · exact .inr new

theorem Distinct.insert {a : Assoc κ ν} (distinct : Distinct a) (key : κ) (value : ν) :
    Distinct (insert a key value) := by
  induction a with
  | nil => exact List.pairwise_singleton _ _
  | cons head rest ih =>
      obtain ⟨k, v⟩ := head
      obtain ⟨apart, distinct⟩ := List.pairwise_cons.mp distinct
      rw [Assoc.insert]
      split
      · exact List.pairwise_cons.mpr ⟨apart, distinct⟩
      · rename_i differ
        refine List.pairwise_cons.mpr ⟨fun entry member => ?_, ih distinct⟩
        rcases mem_insert member with old | new
        · obtain ⟨other, inside, same⟩ := List.mem_map.mp old
          rw [← same]
          exact apart other inside
        · rw [new]
          exact Bool.eq_false_iff.mpr differ

theorem Distinct.insertAll {a : Assoc κ ν} (distinct : Distinct a) (entries : List (κ × ν)) :
    Distinct (insertAll a entries) := by
  induction entries generalizing a with
  | nil => exact distinct
  | cons entry rest ih => exact ih (distinct.insert entry.1 entry.2)

/-- Building an association never leaves two equal keys. -/
theorem distinct_ofList (entries : List (κ × ν)) : Distinct (ofList entries) :=
  Distinct.insertAll List.Pairwise.nil entries

/-- Where no two keys are equal, every entry is found under its key. -/
theorem Distinct.find?_of_mem [ReflBEq κ] {a : Assoc κ ν} (distinct : Distinct a) {key : κ}
    {value : ν} (member : (key, value) ∈ a) : find? a key = some value := by
  induction a with
  | nil => exact absurd member List.not_mem_nil
  | cons head rest ih =>
      obtain ⟨k, v⟩ := head
      obtain ⟨apart, distinct⟩ := List.pairwise_cons.mp distinct
      rw [find?]
      rcases List.mem_cons.mp member with same | later
      · cases same
        rw [if_pos BEq.rfl]
      · rw [if_neg (Bool.eq_false_iff.mp (apart _ later))]
        exact ih distinct later

theorem insert_of_fresh {a : Assoc κ ν} {key : κ} (value : ν)
    (fresh : ∀ entry ∈ a, (entry.1 == key) = false) :
    Assoc.insert a key value = a ++ [(key, value)] := by
  induction a with
  | nil => rfl
  | cons head rest ih =>
      obtain ⟨k, v⟩ := head
      have differ : (k == key) = false := fresh (k, v) List.mem_cons_self
      rw [Assoc.insert, differ, ih fun entry member => fresh entry (List.mem_cons_of_mem _ member)]
      rfl

theorem insertAll_of_distinct {a : Assoc κ ν} {entries : List (κ × ν)}
    (distinct : Distinct (a ++ entries)) : insertAll a entries = a ++ entries := by
  induction entries generalizing a with
  | nil => rw [List.append_nil]; rfl
  | cons entry rest ih =>
      obtain ⟨k, v⟩ := entry
      have apart := (List.pairwise_append.mp distinct).2.2
      have inserted : Assoc.insert a k v = a ++ [(k, v)] :=
        insert_of_fresh v fun other member => apart other member (k, v) List.mem_cons_self
      rw [List.append_cons] at distinct ⊢
      rw [← inserted] at distinct ⊢
      exact ih distinct

/-- Building an association of distinct keys changes nothing. -/
theorem Distinct.ofList_eq {a : Assoc κ ν} (distinct : Distinct a) : ofList a = a :=
  insertAll_of_distinct (a := []) distinct

end Assoc

end DecisionTables
