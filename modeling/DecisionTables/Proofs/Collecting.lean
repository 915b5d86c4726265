import Mathlib
import DecisionTables.Loading
import DecisionTables.Proofs.Accounting
import DecisionTables.Proofs.Arranging
import DecisionTables.Proofs.Circling
import DecisionTables.Proofs.Duplicating
import DecisionTables.Proofs.Tracing

/-!
# Collected sheets

A directory of sheets is read in the order of the file names, whatever order it is listed in.  What
comes of it has one table for each name that a sheet gives, in the order in which the names come
first, and it is the table of the last sheet that gives the name.  All ways to look at the
collection, and a context that is opened on it, agree on this.  If a sheet cannot be read, then
nothing comes of it but the fault of the first such sheet.
-/

namespace DecisionTables

/-! ## Keys in order -/

namespace Assoc

theorem ofList_concat {κ : Type u} {ν : Type v} [BEq κ] (entries : List (κ × ν)) (entry : κ × ν) :
    ofList (entries ++ [entry]) = insert (ofList entries) entry.1 entry.2 :=
  List.foldl_append

section

variable {κ : Type u} {ν : Type v} [BEq κ] [LawfulBEq κ]

/-- Every key that is written is there once, where it was written first. -/
theorem keys_ofList (entries : List (κ × ν)) : keys (ofList entries) = (entries.map Prod.fst).eraseDups := by
  induction entries using List.reverseRecOn with
  | nil => rfl
  | append_singleton entries entry ih =>
      have known : contains (ofList entries) entry.1 = true ↔ entry.1 ∈ entries.map Prod.fst := by
        rw [contains_ofList_iff]
        simp
      rw [ofList_concat, keys_insert, List.map_append, List.eraseDups_append, ih]
      split
      · next present => simp [List.removeAll, known.mp present]
      · next absent =>
          have new := mt known.mpr absent
          simp [List.removeAll, new, List.eraseDups_cons]

theorem mem_keys_iff {a : Assoc κ ν} {key : κ} : key ∈ a.keys ↔ (a.find? key).isSome := by
  constructor
  · intro member
    obtain ⟨entry, inside, rfl⟩ := List.mem_map.mp member
    exact contains_of_mem BEq.rfl inside
  · intro found
    obtain ⟨value, same⟩ := Option.isSome_iff_exists.mp found
    exact List.mem_map_of_mem (mem_of_find? same)

/-- Where no two keys are equal, the order of the entries does not matter for what is found. -/
theorem find?_perm {a b : Assoc κ ν} (distinct : Distinct a) (same : a.Perm b) (key : κ) :
    find? a key = find? b key := by
  have distinct' : Distinct b := Distinct.perm distinct same
  refine Option.ext fun value => ⟨fun found => ?_, fun found => ?_⟩
  · exact distinct'.find?_of_mem (same.mem_iff.mp (mem_of_find? found))
  · exact distinct.find?_of_mem (same.mem_iff.mpr (mem_of_find? found))

end

end Assoc

/-! ## Tables under their names -/

namespace Catalog

variable {tables : List Table} {name : String} {t : Table}

/-- The table is the last one with the name. -/
def IsLast (tables : List Table) (name : String) (t : Table) : Prop :=
  ∃ before after, tables = before ++ t :: after ∧ t.name = name ∧ ∀ u ∈ after, u.name ≠ name

theorem table_eq_ok_iff {c : Catalog} : c.table name = .ok t ↔ c.entries.find? name = some t := by
  rw [table]
  cases c.entries.find? name <;> simp

theorem names_ofList (tables : List Table) : (ofList tables).names = (tables.map Table.name).eraseDups := by
  refine (Assoc.keys_ofList _).trans ?_
  rw [List.map_map]
  rfl

/-- A collection has the last of the tables with a name under this name. -/
theorem table_ofList_iff : (ofList tables).table name = .ok t ↔ IsLast tables name t := by
  have searched : (ofList tables).entries.find? name = tables.reverse.find? fun t => t.name == name := by
    refine (Assoc.find?_ofList _ name).trans ?_
    rw [← List.map_reverse, List.find?_map, Option.map_map]
    exact Option.map_id'
  rw [table_eq_ok_iff, searched, List.find?_eq_some_iff_append]
  constructor
  · rintro ⟨named, after, before, same, others⟩
    refine ⟨before.reverse, after.reverse, ?_, eq_of_beq named, fun u member equal => ?_⟩
    · rw [← List.reverse_inj, same]
      simp
    · have differ := others u (List.mem_reverse.mp member)
      rw [equal, BEq.rfl] at differ
      cases differ
  · rintro ⟨before, after, rfl, named, others⟩
    refine ⟨beq_iff_eq.mpr named, after.reverse, before.reverse, by simp, fun u member => ?_⟩
    rw [Bool.not_eq_true', beq_eq_false_iff_ne]
    exact others u (List.mem_reverse.mp member)

end Catalog

/-! ## Tables that a context registers -/

namespace Assoc

/-- Under texts that are keys of another association the same is found as in this one. -/
theorem find?_map_text {ν : Type v} {μ : Type w} (f : ν → μ) (a : Assoc String ν) (key : String) :
    find? (a.map fun entry => (Scalar.text entry.1, f entry.2)) (.text key) = (find? a key).map f := by
  induction a with
  | nil => rfl
  | cons entry rest ih =>
      rw [List.map_cons, find?, find?, Scalar.text_beq, ih]
      split <;> rfl

end Assoc

namespace Catalog

variable {tables : List Table} {name : String}

/-- What a context registers for the tables of a collection is found under their names. -/
theorem find?_tableSources : Assoc.find? ((ContextId.tableSources (some (ofList tables))).map fun s =>
      (s.name, some s)) (.text name) = ((ofList tables).entries.find? name).map (some ∘ Source.ofTable) := by
  rw [← Assoc.find?_map_text]
  refine congrArg (Assoc.find? · _) ?_
  rw [ContextId.tableSources, Catalog.tables, Assoc.values, List.map_map, List.map_map]
  refine List.map_congr_left fun entry member => ?_
  have own := name_of_mem_entries member
  exact congrArg (fun key => (Scalar.text key, some (Source.ofTable entry.2))) own

theorem distinct_tableSources (tables : List Table) : Assoc.Distinct
    ((ContextId.tableSources (some (ofList tables))).map fun s => (s.name, some s)) := by
  rw [ContextId.tableSources, List.map_map]
  refine List.pairwise_map.mpr ((names_apart tables).imp fun differ => ?_)
  exact (Scalar.text_beq _ _).trans (beq_eq_false_iff_ne.mpr differ)

end Catalog

namespace Brought

variable {tables : List Table} {name : String} {request : Source}

/-- What a context brings along under the name of a table is the table, and under no other name it is one. -/
theorem find?_sources_iff (requested : request.InMemory) {t : Table} :
    ((ofContext request.name (some (.ofList tables))).sources request).find? (.text name) =
      some (.ofTable t) ↔ (Catalog.ofList tables).table name = .ok t := by
  rw [sources, Assoc.find?_mapValues, ofContext, adding,
    Assoc.find?_insertAll (Catalog.distinct_tableSources tables), Catalog.find?_tableSources,
    Catalog.table_eq_ok_iff]
  cases (Catalog.ofList tables).entries.find? name with
  | some u =>
      refine ⟨fun same => ?_, fun same => by cases same; rfl⟩
      have content := congrArg Source.content (Option.some.inj same)
      exact congrArg some (Content.table.inj content)
  | none =>
      refine ⟨fun found => ?_, fun impossible => by cases impossible⟩
      obtain ⟨what, there, same⟩ := Option.map_eq_some_iff.mp found
      obtain ⟨_, _, member⟩ := Assoc.exists_mem_of_find? there
      rcases Assoc.mem_or_eq_of_mem_insert member with constant | ⟨requests, _⟩
      · cases List.mem_singleton.mp constant
        cases congrArg Source.content same
      · -- the request is no table
        obtain ⟨_, _, _, content⟩ := requested
        obtain rfl : what = none := requests
        obtain rfl : request = .ofTable t := same
        cases content

end Brought

namespace Catalog

/-- A context that is opened on a collection has every table of it under its name, and no other one,
unless the state brings a source of this name; then it has that one. -/
def Serves (c : Catalog) : Prop :=
  ∀ {room : Option Nat} {s : Session}, s.Reached room → ∀ {state : StateId}, s.Holds state →
    ∀ {request : Source}, request.InMemory → ∀ backend : Option Backend,
      ∃ ctx opened, runFrom (ContextId.open state (some c) request backend) s.store = (.ok ctx, opened) ∧
        ∀ name,
          ((s.store.holdings state).find? (.text name) = none →
            ∀ t, opened.registered ctx (.text name) = some (.ofTable t) ↔ c.table name = .ok t) ∧
          ∀ source, (s.store.holdings state).find? (.text name) = some source →
            opened.registered ctx (.text name) = some source

theorem serves_ofList (tables : List Table) : (ofList tables).Serves := by
  intro room s reached state held request requested backend
  have tidy := reached.tidy held
  obtain ⟨ctx, opened, ran, equipped, _⟩ :=
    ContextId.exists_open_equipped tidy (some (ofList tables)) request backend
  have distinct : (s.store.holdings state).Distinct := Assoc.Distinct.mapValues _ tidy.distinct
  refine ⟨ctx, opened, ran, fun name => ⟨fun absent t => ?_, fun source there => ?_⟩⟩
  · rw [Store.registered, equipped.entries, Holdings.opening, Assoc.find?_insertAll distinct, absent,
      Option.none_or]
    exact Brought.find?_sources_iff requested
  · rw [Store.registered, equipped.entries, Holdings.opening, Assoc.find?_insertAll distinct, there]
    rfl

/-- What a collection of a list of tables has to be, in all ways to look at it. -/
structure Collects (c : Catalog) (tables : List Table) : Prop where
  names : c.names = (tables.map Table.name).eraseDups
  single : c.names.Nodup
  size : c.size = c.names.length
  listed : List.Forall₂ (fun name t => c.table name = .ok t) c.names c.tables
  contains : ∀ name, c.contains name = true ↔ name ∈ c.names
  found : ∀ name t, c.table name = .ok t ↔ IsLast tables name t
  missing : ∀ name, name ∉ c.names → c.table name = .error (.unknownTable name)
  serves : c.Serves

theorem collects_ofList (tables : List Table) : (ofList tables).Collects tables where
  names := names_ofList tables
  single := Assoc.Distinct.nodup_keys (Assoc.distinct_ofList _)
  size := (length_names _).symm
  listed := by
    rw [names, Assoc.keys, Catalog.tables, Assoc.values, List.forall₂_map_left_iff, List.forall₂_map_right_iff,
      List.forall₂_same]
    intro entry member
    exact table_eq_ok_iff.mpr ((Assoc.distinct_ofList _).find?_of_mem member)
  contains name := Assoc.mem_keys_iff.symm
  found _ _ := table_ofList_iff
  missing name absent := by
    have unknown := mt Assoc.mem_keys_iff.mpr absent
    rw [table, Option.not_isSome_iff_eq_none.mp unknown]
  serves := serves_ofList tables

end Catalog

/-! ## Trees that are listed in another order -/

namespace Files

/-- The same files, listed in another order. -/
structure Relisted (fs fs' : Files) : Prop where
  home : fs'.home = fs.home
  entries : fs.entries.Perm fs'.entries

/-- The name that a place adds to the directory around it. -/
def nameIn (around : Place) : Place → Option String
  | [] => none
  | name :: place => if place = around then some name else none

theorem nameIn_eq_some_iff {around place : Place} {name : String} :
    nameIn around place = some name ↔ place = name :: around := by
  cases place with
  | nil => simp [nameIn]
  | cons first rest =>
      rw [nameIn, List.cons.injEq]
      split
      · next same => simp [same]
      · next differ => simp [differ]

variable {fs fs' : Files} {path : String} {place : Place}

theorem names_of_find (found : fs.find path = .ok (place, .directory)) :
    fs.names path = .ok (fs.entries.keys.filterMap (nameIn place)) := by
  rw [names, found]
  rfl

/-- The names in a directory are those under which something stands in it. -/
theorem mem_names_iff {name : String} : name ∈ fs.entries.keys.filterMap (nameIn place) ↔
    (fs.entryAt? (name :: place)).isSome := by
  rw [List.mem_filterMap]
  simp only [nameIn_eq_some_iff, exists_eq_right]
  exact Assoc.mem_keys_iff

theorem nodup_names (distinct : fs.entries.Distinct) : (fs.entries.keys.filterMap (nameIn place)).Nodup := by
  refine distinct.nodup_keys.filterMap fun p q name here there => ?_
  rw [nameIn_eq_some_iff.mp here, nameIn_eq_some_iff.mp there]

namespace Relisted

variable (relisted : fs.Relisted fs') (distinct : fs.entries.Distinct)
include relisted distinct

theorem entryAt?_eq (place : Place) : fs'.entryAt? place = fs.entryAt? place := by
  cases place with
  | nil => rfl
  | cons name around => exact (Assoc.find?_perm distinct relisted.entries _).symm

theorem follow_eq (place : Place) (steps : List String) : fs'.follow place steps = fs.follow place steps := by
  induction steps generalizing place with
  | nil => rfl
  | cons step rest ih =>
      rw [follow, follow, relisted.entryAt?_eq distinct place]
      simp only [ih]

/-- Every path leads to the same place. -/
theorem find_eq (path : String) : fs'.find path = fs.find path := by
  have same : fs'.start path = fs.start path := by rw [start, start, relisted.home]
  simp only [find, same, relisted.follow_eq distinct, relisted.entryAt?_eq distinct]

theorem load_eq (path delimiter : String) : Table.load fs' path delimiter = Table.load fs path delimiter := by
  simp only [Table.load, read, content, relisted.find_eq distinct]

end Relisted

end Files

/-! ## Sheets in the order of their names -/

namespace Catalog

variable {extension : Settings.Wording} {names names' : List String}

theorem mem_sheetNames_iff {name : String} :
    name ∈ sheetNames extension names ↔ name ∈ names ∧ extension.isEndOf name = true := by
  rw [sheetNames, List.mem_mergeSort, List.mem_filter]

theorem pairwise_sheetNames (extension : Settings.Wording) (names : List String) :
    (sheetNames extension names).Pairwise (· ≤ ·) := by
  have ordered : (sheetNames extension names).Pairwise fun a b => decide (a ≤ b) = true :=
    List.pairwise_mergeSort ?trans ?total _
  case trans => exact fun a b c ab bc => decide_eq_true ((of_decide_eq_true ab).trans (of_decide_eq_true bc))
  case total =>
    intro a b
    rw [Bool.or_eq_true, decide_eq_true_iff, decide_eq_true_iff]
    exact le_total a b
  exact ordered.imp of_decide_eq_true

theorem strict_sheetNames (single : names.Nodup) : (sheetNames extension names).Pairwise (· < ·) := by
  have single' : (sheetNames extension names).Nodup :=
    (List.mergeSort_perm _ _).nodup_iff.mpr (single.filter _)
  exact ((pairwise_sheetNames extension names).and single').imp fun both => lt_of_le_of_ne both.1 both.2

/-- Names that are listed in another order are read in the same order. -/
theorem sheetNames_perm (same : names.Perm names') : sheetNames extension names = sheetNames extension names' := by
  have moved : (sheetNames extension names).Perm (sheetNames extension names') :=
    ((List.mergeSort_perm _ _).trans (same.filter _)).trans (List.mergeSort_perm _ _).symm
  exact moved.eq_of_pairwise (fun _ _ _ _ => le_antisymm) (pairwise_sheetNames _ _) (pairwise_sheetNames _ _)

end Catalog

/-! ## Reading one sheet after the other -/

section

variable {α β ε : Type} {f : α → Except ε β}

theorem mapM_of_forall₂ {xs : List α} {ys : List β} (each : List.Forall₂ (fun x y => f x = .ok y) xs ys) :
    xs.mapM f = .ok ys := by
  induction each with
  | nil => rfl
  | cons first _ ih =>
      rw [List.mapM_cons, first, ih]
      rfl

theorem exists_forall₂ {P : α → β → Prop} {xs : List α} (each : ∀ x ∈ xs, ∃ y, P x y) :
    ∃ ys, List.Forall₂ P xs ys := by
  induction xs with
  | nil => exact ⟨[], .nil⟩
  | cons x rest ih =>
      obtain ⟨⟨y, first⟩, later⟩ := List.forall_mem_cons.mp each
      obtain ⟨ys, others⟩ := ih later
      exact ⟨y :: ys, .cons first others⟩

theorem mapM_of_first {before : List α} {x : α} {e : ε} (fine : ∀ y ∈ before, ∃ z, f y = .ok z)
    (fault : f x = .error e) (after : List α) : (before ++ x :: after).mapM f = .error e := by
  induction before with
  | nil =>
      rw [List.nil_append, List.mapM_cons, fault]
      rfl
  | cons y rest ih =>
      obtain ⟨⟨z, first⟩, later⟩ := List.forall_mem_cons.mp fine
      rw [List.cons_append, List.mapM_cons, first, ih later]
      rfl

end

namespace Catalog

variable {fs : Files} {directory : Settings.Wording} {path : String} {place : Place}

/-- The names of the sheets at a place, in the order in which they are read. -/
def sheetsAt (fs : Files) (extension : Settings.Wording) (place : Place) : List String :=
  sheetNames extension (fs.entries.keys.filterMap (Files.nameIn place))

theorem load_of_find (leads : directory.path? = some path) (found : fs.find path = .ok (place, .directory))
    (extension : Settings.Wording) (delimiter : String) :
    load fs directory extension delimiter =
      ((sheetsAt fs extension place).mapM fun name => Table.load fs (Path.join path name) delimiter).map
        ofList := by
  have isDirectory : fs.isDirectory path = true := by rw [Files.isDirectory, found]
  rw [load, leads, Option.filter_some, if_pos isDirectory]
  change (fs.names path >>= _) = _
  rw [Files.names_of_find found]
  rfl

/-- A directory that is listed in another order is read alike. -/
theorem load_relisted {fs' : Files} (relisted : fs.Relisted fs') (distinct : fs.entries.Distinct)
    (leads : directory.path? = some path) (found : fs.find path = .ok (place, .directory))
    (extension : Settings.Wording) (delimiter : String) :
    load fs' directory extension delimiter = load fs directory extension delimiter := by
  have found' : fs'.find path = .ok (place, .directory) := (relisted.find_eq distinct path).trans found
  have sheets : sheetsAt fs' extension place = sheetsAt fs extension place :=
    (sheetNames_perm ((relisted.entries.map _).filterMap _)).symm
  rw [load_of_find leads found, load_of_find leads found', sheets]
  simp only [relisted.load_eq distinct]

/-- The sheets of a directory are those of its entries whose names end with the extension, and they are
read in the order of their names, whatever order the directory is listed in.  If each of them makes a table,
then what comes of it collects these tables: it has each of their names once, in the order in which the
names come first, and under it the last table with this name, and its size, its names, its tables, what it
is asked for and what a context registers agree.  Else the first sheet that makes none gives the fault. -/
theorem sheets_are_collected (distinct : fs.entries.Distinct) (leads : directory.path? = some path)
    (isDirectory : fs.isDirectory path = true) (extension : Settings.Wording) (delimiter : String) :
    ∃ place selected, fs.find path = .ok (place, .directory) ∧
      (∀ name, name ∈ selected ↔ (fs.entryAt? (name :: place)).isSome ∧ extension.isEndOf name = true) ∧
      selected.Pairwise (· < ·) ∧
      (∀ fs', fs.Relisted fs' →
        load fs' directory extension delimiter = load fs directory extension delimiter) ∧
      ((∃ tables c,
          List.Forall₂ (fun name t => Table.load fs (Path.join path name) delimiter = .ok t) selected tables ∧
          load fs directory extension delimiter = .ok c ∧ c.Collects tables) ∨
        ∃ before name after fault, selected = before ++ name :: after ∧
          (∀ earlier ∈ before, ∃ t, Table.load fs (Path.join path earlier) delimiter = .ok t) ∧
          Table.load fs (Path.join path name) delimiter = .error fault ∧
          load fs directory extension delimiter = .error fault) := by
  obtain ⟨place, found⟩ : ∃ place, fs.find path = .ok (place, .directory) := by
    rw [Files.isDirectory] at isDirectory
    split at isDirectory
    · next place found => exact ⟨place, found⟩
    · cases isDirectory
  have loaded := load_of_find leads found extension delimiter
  refine ⟨place, sheetsAt fs extension place, found, fun name => ?members,
    strict_sheetNames (Files.nodup_names distinct), fun fs' relisted => ?order, ?reads⟩
  case members => rw [sheetsAt, mem_sheetNames_iff, Files.mem_names_iff]
  case order => exact load_relisted relisted distinct leads found extension delimiter
  case reads =>
    rcases forall_or_first (fun name => ∃ t, Table.load fs (Path.join path name) delimiter = .ok t)
        (sheetsAt fs extension place) with fine | ⟨before, name, after, same, fine, failed⟩
    · obtain ⟨tables, each⟩ := exists_forall₂ fine
      rw [mapM_of_forall₂ each] at loaded
      exact .inl ⟨tables, ofList tables, each, loaded, collects_ofList tables⟩
    · cases read : Table.load fs (Path.join path name) delimiter with
      | ok t => exact absurd ⟨t, read⟩ failed
      | error fault =>
          rw [same, mapM_of_first fine read after] at loaded
          exact .inr ⟨before, name, after, fault, same, fine, read, loaded⟩

/-- A directory that lists a sheet, another file, and a sheet of an earlier name that gives the same table. -/
def doubled : Files := ⟨[], [
  (["t"], .directory),
  (["b.csv", "t"], .file "HDR;T;late\nCND;x::y;1\nOUT;o;B\n".toUTF8),
  (["notes.txt", "t"], .file "HDR;T;other\n".toUTF8),
  (["a.csv", "t"], .file "HDR;T;early\nCND;x::y;1\nOUT;o;A\n".toUTF8)]⟩

/-- The table of the last sheet counts, alone under its name. -/
theorem doubled_is_collected : ∃ tables c, load doubled (.plain "t") (.plain ".csv") ";" = .ok c ∧
    c.Collects tables ∧ c.names = ["T"] ∧
    ∃ t, c.table "T" = .ok t ∧ IsLast tables "T" t ∧ t.rules.map Rule.name = ["T::late"] := by
  have distinct : doubled.entries.Distinct := by
    rw [Assoc.distinct_iff_keys]
    decide
  have found : doubled.find "t" = .ok (["t"], .directory) := rfl
  have sheets : sheetsAt doubled (.plain ".csv") ["t"] = ["a.csv", "b.csv"] := by cbv
  have seen : (load doubled (.plain "t") (.plain ".csv") ";").toOption.map (fun c =>
      (c.names, (c.table "T").toOption.map fun t => t.rules.map Rule.name)) =
        some (["T"], some ["T::late"]) := by
    rw [load_of_find (Settings.Wording.path?_plain "t") found, sheets]
    decide +kernel
  obtain ⟨_, _, _, _, _, _, reads⟩ :=
    sheets_are_collected distinct (Settings.Wording.path?_plain "t") (by decide) (.plain ".csv") ";"
  rcases reads with ⟨tables, c, _, loaded, collects⟩ | ⟨_, _, _, _, _, _, _, failed⟩
  · rw [loaded] at seen
    obtain ⟨names, rules⟩ := Prod.mk.inj (Option.some.inj seen)
    cases known : c.table "T" with
    | ok t =>
        rw [known] at rules
        exact ⟨tables, c, loaded, collects, names, t, known, (collects.found "T" t).mp known,
          Option.some.inj rules⟩
    | error _ =>
        rw [known] at rules
        cases rules
  · rw [failed] at seen
    cases seen

end Catalog

end DecisionTables
