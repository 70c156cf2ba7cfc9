import DatabaseProject.Proofs.Isolation
import DatabaseProject.Proofs.Precedence

/-!
# When scripts cannot be written

Scripts write names in brackets, one after the other, and a name with one bracket only is the one
fault there is. `Brackets` says of a computation which names it writes, in their order; put together
along the parts of a script it gives the fault of a whole database. Most of the names only repeat
columns of the database, so that the names that can be at fault are few.
-/

namespace DatabaseProject

open Identifier Outcome

variable {α β : Type} {names more : List String}

/-- A computation that writes names in brackets, in order: it ends at the first half-bracketed one,
and has a result when there is none. -/
def Brackets (names : List String) (x : Except GenerationError α) : Prop :=
  match names.find? isHalfBracketed with
  | none => ∃ a, x = .ok a
  | some name => x = .error (.halfBracketed name)

namespace Brackets

variable {x : Except GenerationError α}

theorem of_ok (a : α) : Brackets [] (.ok a : Except GenerationError α) := ⟨a, rfl⟩

theorem bind {f : α → Except GenerationError β} (hx : Brackets names x)
    (hf : ∀ a, Brackets more (f a)) : Brackets (names ++ more) (x >>= f) := by
  unfold Brackets at hx ⊢
  rw [List.find?_append]
  cases hfind : names.find? isHalfBracketed with
  | some name =>
    rw [hfind] at hx
    dsimp only at hx
    rw [hx]
    rfl
  | none =>
    rw [hfind] at hx
    obtain ⟨a, rfl⟩ := hx
    exact hf a

theorem map {f : α → β} (hx : Brackets names x) : Brackets names (x >>= fun a => pure (f a)) := by
  have h := hx.bind fun a => of_ok (f a)
  rwa [List.append_nil] at h

theorem mapM {f : α → Except GenerationError β} {written : α → List String} {xs : List α}
    (h : ∀ a ∈ xs, Brackets (written a) (f a)) : Brackets (xs.flatMap written) (xs.mapM f) := by
  induction xs with
  | nil => exact of_ok []
  | cons a rest ih =>
    rw [List.forall_mem_cons] at h
    rw [List.mapM_cons, List.flatMap_cons]
    exact h.1.bind fun _ => (ih h.2).map

/-- Where each step writes one name. -/
theorem mapM_map {f : α → Except GenerationError β} {written : α → String}
    (h : ∀ a, Brackets [written a] (f a)) (xs : List α) : Brackets (xs.map written) (xs.mapM f) := by
  rw [List.map_eq_flatMap]
  exact mapM fun a _ => h a

theorem error_iff (h : Brackets names x) {e : GenerationError} : x = .error e ↔
    ∃ name, names.find? isHalfBracketed = some name ∧ e = .halfBracketed name := by
  unfold Brackets at h
  cases hfind : names.find? isHalfBracketed with
  | none =>
    rw [hfind] at h
    obtain ⟨a, rfl⟩ := h
    simp
  | some name =>
    rw [hfind] at h
    dsimp only at h
    rw [h]
    simp [eq_comm]

theorem fails_iff (h : Brackets names x) :
    (∃ e, x = .error e) ↔ ∃ name ∈ names, isHalfBracketed name = true := by
  simp only [h.error_iff]
  rw [← List.find?_isSome, Option.isSome_iff_exists]
  exact ⟨fun ⟨_, name, hn, _⟩ => ⟨name, hn⟩, fun ⟨name, hn⟩ => ⟨_, name, hn, rfl⟩⟩

end Brackets

theorem brackets_bracketed (name : String) : Brackets [name] (bracketed name) := by
  unfold Brackets bracketed bracket?
  cases h : isHalfBracketed name with
  | true => simp [h]
  | false => cases hboth : isBracketed name <;> simp [h]

theorem brackets_bracketedList (names : List String) : Brackets names (bracketedList names) := by
  have h := Brackets.mapM_map brackets_bracketed names
  rw [List.map_id'] at h
  exact h.map

theorem Column.brackets_line (column : Column) : Brackets [column.name] column.line :=
  (brackets_bracketed column.name).map

namespace PrimaryKey

/-- The names that the line of a primary key writes. -/
def scriptNames (key : PrimaryKey) : List String := key.name :: key.columns

theorem brackets_line (key : PrimaryKey) : Brackets key.scriptNames key.line :=
  (brackets_bracketed key.name).bind fun _ => (brackets_bracketedList key.columns).map

end PrimaryKey

namespace ForeignKey

/-- The names that the batches of a foreign key write in brackets. -/
def scriptNames (key : ForeignKey) : List String := key.columns ++ key.referencedColumns

theorem brackets_batches (table : String) (key : ForeignKey) :
    Brackets key.scriptNames (key.batches table) :=
  (brackets_bracketedList key.columns).bind fun _ =>
    (brackets_bracketedList key.referencedColumns).map

end ForeignKey

theorem IndexColumn.brackets_text (column : IndexColumn) : Brackets [column.name] column.text :=
  (brackets_bracketed column.name).map

namespace Index

/-- The names that the statement of an index writes. -/
def scriptNames (index : Index) : List String :=
  index.columns.map (·.name) ++ index.name :: index.includes

theorem brackets_statement (table : String) (index : Index) :
    Brackets index.scriptNames (index.statement table) := by
  have hcolumns := Brackets.mapM_map IndexColumn.brackets_text index.columns
  refine hcolumns.bind fun _ => (brackets_bracketed index.name).bind fun _ => ?_
  cases hincludes : index.includes with
  | nil => exact .of_ok _
  | cons first rest => exact (brackets_bracketedList (first :: rest)).map

end Index

namespace Table

/-- The names that the script of a table writes in brackets, in their order. -/
def scriptNames (table : Table) : List String :=
  table.columns.values.map (·.name) ++ table.primaryKey.toList.flatMap PrimaryKey.scriptNames
    ++ table.foreignKeys.flatMap ForeignKey.scriptNames ++ table.indexes.flatMap Index.scriptNames

/-- The names that a table gives: to its columns, its primary key and its indexes. -/
def givenNames (table : Table) : List String :=
  table.columns.values.map (·.name) ++ table.primaryKey.toList.map (·.name)
    ++ table.indexes.map (·.name)

theorem brackets_creationLines (table : Table) :
    Brackets (table.columns.values.map (·.name) ++ table.primaryKey.toList.flatMap PrimaryKey.scriptNames)
      table.creationLines :=
  (Brackets.mapM_map Column.brackets_line table.columns.values).bind fun _ =>
    (Brackets.mapM fun key _ => key.brackets_line).map

theorem brackets_creationBatches (table : Table) :
    Brackets (table.columns.values.map (·.name) ++ table.primaryKey.toList.flatMap PrimaryKey.scriptNames)
      table.creationBatches :=
  table.brackets_creationLines.map

theorem brackets_batches (table : Table) : Brackets table.scriptNames table.batches := by
  have hkeys := Brackets.mapM fun key (_ : key ∈ table.foreignKeys) => key.brackets_batches table.twoPartName
  have hindexes := Brackets.mapM fun index (_ : index ∈ table.indexes) =>
    index.brackets_statement table.twoPartName
  unfold scriptNames batches
  rw [List.append_assoc]
  exact table.brackets_creationBatches.bind fun _ => hkeys.bind fun _ => hindexes.map

theorem brackets_script (table : Table) : Brackets table.scriptNames table.script :=
  table.brackets_batches.map

end Table

/-- The names that the script of an object writes in brackets: statements are written as they are. -/
def DatabaseObject.scriptNames (object : DatabaseObject) : List String :=
  object.table?.toList.flatMap Table.scriptNames

theorem DatabaseObject.brackets_script (object : DatabaseObject) :
    Brackets object.scriptNames object.script := by
  cases object with
  | table table =>
    change Brackets ([table].flatMap Table.scriptNames) table.script
    rw [List.flatMap_singleton]
    exact table.brackets_script
  | view object => exact .of_ok object.statement
  | function object => exact .of_ok object.statement
  | procedure object => exact .of_ok object.statement

namespace Database

variable {db : Database} {name : String} {table : Table} {key : ForeignKey}

/-- The names that the scripts of a database write in brackets, in their order. -/
def scriptNames (db : Database) : List String := db.tables.flatMap Table.scriptNames

theorem brackets_scripts (db : Database) : Brackets db.scriptNames db.scripts := by
  have h : db.scriptNames = db.objects.flatMap DatabaseObject.scriptNames := by
    unfold scriptNames tables
    rw [List.filterMap_eq_flatMap_toList, List.flatMap_assoc]
    rfl
  rw [h]
  exact (Brackets.mapM fun object _ => object.brackets_script.map).map

end Database

/-- The names of a coherent table's columns are those that they stand under. -/
theorem Table.Coherent.mem_columnNames {table : Table} (h : table.Coherent) {name : String} :
    name ∈ table.columns.values.map (·.name) ↔ name ∈ table.columns.keys := by
  simp only [List.mem_map, OrderedMap.mem_values, OrderedMap.mem_keys]
  constructor
  · rintro ⟨column, ⟨key, he⟩, rfl⟩
    rw [h.columns _ he]
    exact ⟨column, he⟩
  · rintro ⟨column, he⟩
    exact ⟨column, ⟨name, he⟩, h.columns _ he⟩

theorem Table.mem_givenNames_of_column {table : Table} {name : String}
    (h : name ∈ table.columns.values.map (·.name)) : name ∈ table.givenNames :=
  List.mem_append_left _ (List.mem_append_left _ h)

theorem Table.givenNames_subset (table : Table) : table.givenNames ⊆ table.scriptNames := by
  intro name hn
  simp only [givenNames, scriptNames, List.mem_append, List.mem_map, List.mem_flatMap] at hn ⊢
  rcases hn with (hcolumn | ⟨key, hk, rfl⟩) | ⟨index, hi, rfl⟩
  · exact .inl (.inl (.inl hcolumn))
  · exact .inl (.inl (.inr ⟨key, hk, List.mem_cons_self⟩))
  · exact .inr ⟨index, hi, List.mem_append_right _ List.mem_cons_self⟩

namespace Database

variable {db : Database} {name : String} {table : Table} {key : ForeignKey}

/-- A column that a foreign key refers to is a column of some table of the database. -/
theorem Sound.referenced_given (h : db.Sound name) (ht : table ∈ db.tables)
    (hk : key ∈ table.foreignKeys) {referenced : String} (hr : referenced ∈ key.referencedColumns) :
    ∃ target ∈ db.tables, referenced ∈ target.columns.values.map (·.name) := by
  have hkey := (coherent_of_mem h.coherent ht).foreignKeys key hk
  obtain ⟨k, hlt, rfl⟩ := List.getElem_of_mem hr
  have hlt' : k < key.columns.length := hkey.length_eq ▸ hlt
  obtain ⟨column, hc, href⟩ := hkey.aligned k key.columns[k] key.referencedColumns[k]
    (List.getElem?_eq_getElem hlt') (List.getElem?_eq_getElem hlt)
  -- the column is found under the names of its table, and so its reference leads to a column
  obtain ⟨hdatabase, hfound⟩ := table?_of_mem h.coherent ht
  have hcolumn : db.column? (table.ref.column key.columns[k]) = some column :=
    Option.bind_eq_some_iff.2 ⟨table, hfound, hc⟩
  have hgrounded := h.grounded _ column (hdatabase.trans h.named) hcolumn
  obtain ⟨_, hresolved, -, -⟩ :=
    hgrounded.target_of_references (Entry.resolve_eq_ok.2 ⟨db, rfl, hcolumn⟩) href
  obtain ⟨_, ⟨⟩, htarget⟩ := Entry.resolve_eq_ok.1 hresolved
  obtain ⟨target, htable, hget⟩ := Option.bind_eq_some_iff.1 htarget
  obtain ⟨schema, hs, ho⟩ := stored_of_table? htable
  have hmem : target ∈ db.tables := mem_tables.2 ⟨_, schema, _, hs, ho⟩
  exact ⟨target, hmem, (coherent_of_mem h.coherent hmem).mem_columnNames.2
    (OrderedMap.mem_keys_iff_get?.2 ⟨_, hget⟩)⟩

/-- Every name in the scripts is one that a table of the database gives. -/
theorem Sound.scriptNames_given (h : db.Sound name) (ht : table ∈ db.tables) {written : String}
    (hw : written ∈ table.scriptNames) : ∃ giver ∈ db.tables, written ∈ giver.givenNames := by
  have hcoherent := coherent_of_mem h.coherent ht
  have hcolumn : ∀ key ∈ table.columns.keys, ∃ giver ∈ db.tables, key ∈ giver.givenNames :=
    fun key hk => ⟨table, ht, table.mem_givenNames_of_column (hcoherent.mem_columnNames.2 hk)⟩
  simp only [Table.scriptNames, List.mem_append, List.mem_flatMap, Option.mem_toList] at hw
  rcases hw with ((hw | ⟨key, hk, hw⟩) | ⟨key, hk, hw⟩) | ⟨index, hi, hw⟩
  · exact ⟨table, ht, table.mem_givenNames_of_column hw⟩
  · rcases List.mem_cons.1 hw with rfl | hw
    · exact ⟨table, ht, by simp [Table.givenNames, hk]⟩
    · exact hcolumn _ (hcoherent.primaryKey key hk _ hw)
  · rcases List.mem_append.1 hw with hw | hw
    · exact hcolumn _ ((hcoherent.foreignKeys key hk).owned _ hw)
    · obtain ⟨target, htarget, hgiven⟩ := h.referenced_given ht hk hw
      exact ⟨target, htarget, target.mem_givenNames_of_column hgiven⟩
  · simp only [Index.scriptNames, List.mem_append, List.mem_map, List.mem_cons] at hw
    rcases hw with ⟨column, hc, rfl⟩ | rfl | hw
    · exact hcolumn _ (hcoherent.indexColumns index hi column hc)
    · exact ⟨table, ht, List.mem_append_right _ (List.mem_map_of_mem hi)⟩
    · exact hcolumn _ (hcoherent.indexIncludes index hi _ hw)

end Database

namespace Registry

/-- The scripts of a constructed database cannot be written exactly when a table gives a
half-bracketed name to a column, its primary key or an index; the error then names the first
half-bracketed name in the order of the scripts. -/
theorem scripts_fail_exactly {registry : Registry} {decl : DatabaseDecl} {db : Database}
    (h : (registry.construct decl).1 = .ok ())
    (hdb : (registry.construct decl).2.database decl.name = .ok db) :
    ((∃ e, db.scripts = .error e) ↔
      ∃ table ∈ db.tables, ∃ name ∈ table.givenNames, isHalfBracketed name = true) ∧
    ∀ e, db.scripts = .error e ↔
      ∃ name, db.scriptNames.find? isHalfBracketed = some name ∧ e = .halfBracketed name := by
  have hfresh : decl.name ∉ registry.databases.keys :=
    OrderedMap.get?_eq_none.1 (construct_isOk.1 h).1
  obtain ⟨found, hfound, hfilled⟩ := filled_of_construct decl hfresh h
  obtain rfl : found = db := Except.ok.inj (hfound.symm.trans hdb)
  refine ⟨?_, fun e => found.brackets_scripts.error_iff⟩
  rw [found.brackets_scripts.fails_iff]
  simp only [Database.scriptNames, List.mem_flatMap]
  constructor
  · rintro ⟨name, ⟨table, ht, hw⟩, hhalf⟩
    obtain ⟨giver, hg, hgiven⟩ := hfilled.sound.scriptNames_given ht hw
    exact ⟨giver, hg, name, hgiven, hhalf⟩
  · rintro ⟨table, ht, name, hgiven, hhalf⟩
    exact ⟨name, ⟨table, ht, table.givenNames_subset hgiven⟩, hhalf⟩

/-- Orders are written before the customers that they refer to, and so the key of the customers is
at fault as a referenced column. -/
theorem referenced_column_at_fault :
    let id (name : String) : ColumnDecl := .plain ⟨name, .int32, 0, -1, -1, false⟩
    let customer : ColumnDecl := .foreignKey ⟨"CustomerId", "base", "Customer", "Id]", false⟩
    let decl := { DatabaseDecl.named "Shop" with
      schemas := [⟨"sales", "dbo"⟩, ⟨"base", "dbo"⟩]
      tables := [⟨"Customer", "base", .none, [id "Id]", id "[No"], none, [], []⟩,
        ⟨"Order", "sales", .none, [id "Id", customer],
          some ⟨"PK_Order", true, .none, ["Id"]⟩, [⟨"[IX", false, false, .none, [], []⟩], []⟩] }
    ∃ db, (empty.construct decl).1 = .ok () ∧ (empty.construct decl).2.database "Shop" = .ok db ∧
      db.scriptNames = ["Id", "CustomerId", "PK_Order", "Id", "CustomerId", "Id]", "[IX", "Id]", "[No"] ∧
      db.scripts = .error (.halfBracketed "Id]") := by
  intro id customer decl
  have hok : (empty.construct decl).1 = .ok () := by rfl
  obtain ⟨db, hdb, hnames⟩ : ∃ db, (empty.construct decl).2.database "Shop" = .ok db ∧ db.scriptNames =
      ["Id", "CustomerId", "PK_Order", "Id", "CustomerId", "Id]", "[IX", "Id]", "[No"] := ⟨_, rfl, rfl⟩
  refine ⟨db, hok, hdb, hnames, ((scripts_fail_exactly hok hdb).2 _).2 ⟨"Id]", ?_, rfl⟩⟩
  rw [hnames]
  decide

end Registry

end DatabaseProject
