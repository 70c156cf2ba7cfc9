import DatabaseProject.Proofs.ScriptReading

/-!
# Tables that a script determines

Where the names in the declaration of a table are plain, so are all names of the table that is built
from it, those that its foreign keys are given among them, and in a constructed database every column
has a type of the server. Of such tables a script tells all that there is to see.
-/

namespace DatabaseProject

open Identifier

namespace ColumnDecl

variable {column : ColumnDecl} {key : KeyDecl}

theorem name_mem_names (column : ColumnDecl) : column.name ∈ column.names := by
  cases column <;> exact List.mem_cons_self

theorem key_mem_names (h : column.key? = some key) :
    key.schema ∈ column.names ∧ key.table ∈ column.names ∧ key.label.name ∈ column.names := by
  cases column with
  | plain decl => cases h
  | foreignKey decl | grouped decl =>
    cases h
    simp [names, KeyLabel.name]

theorem target_mem_names {database : String} {target : ColumnRef} (h : column.target? database = some target) :
    target.column ∈ column.names := by
  cases column with
  | plain decl => cases h
  | foreignKey decl | grouped decl =>
    cases h
    simp [names, TableRef.column]

end ColumnDecl

namespace TableDecl

variable {decl : TableDecl} {column : ColumnDecl}

theorem names_subset_of_column (h : column ∈ decl.columns) : column.names ⊆ decl.names := by
  intro name hn
  simp only [names, List.mem_append, List.mem_flatMap]
  exact .inl (.inl (.inr ⟨column, h, hn⟩))

theorem names_subset_of_primaryKey {key : PrimaryKeyDecl} (h : decl.primaryKey = some key) :
    key.name :: key.columns ⊆ decl.names := by
  intro name hn
  simp only [names, List.mem_append, List.mem_flatMap]
  exact .inl (.inr ⟨key, Option.mem_toList.2 h, hn⟩)

theorem names_subset_of_index {index : Index} (h : index ∈ decl.indexes) :
    index.name :: index.names ⊆ decl.names := by
  intro name hn
  simp only [names, List.mem_append, List.mem_flatMap]
  exact .inr ⟨index, h, hn⟩

/-- The foreign keys that columns with plain names declare are plain, with the names they are given. -/
theorem isPlain_of_foreignKeys (hn : ArePlainNames decl.names) (database : String) :
    ∀ key ∈ decl.foreignKeys database, key.IsPlain := by
  intro key hk
  obtain ⟨declared, hd, rfl⟩ := List.mem_map.1 hk
  obtain ⟨column, hc, hkey⟩ := mem_declaredKeys.1 hd
  have hcolumn : ∀ column ∈ decl.columns, ArePlainNames column.names :=
    fun column hc name hm => hn name (names_subset_of_column hc hm)
  have hmember : ∀ member ∈ declared.members decl.columns, ArePlainNames member.names :=
    fun member hm => hcolumn member (List.mem_of_mem_filter hm)
  obtain ⟨hschema, htable, hlabel⟩ := ColumnDecl.key_mem_names hkey
  have hown : IsPlainName decl.name := hn _ (by simp [names])
  refine ⟨⟨"FK_" ++ decl.name ++ "_" ++ declared.table ++ "_" ++ declared.label.name, ?_, ?_⟩, ?_,
    hcolumn column hc _ hschema, hcolumn column hc _ htable, ?_⟩
  · simp only [isPlainName_append]
    exact ⟨⟨⟨⟨⟨by decide, hown⟩, by decide⟩, hcolumn column hc _ htable⟩, by decide⟩,
      hcolumn column hc _ hlabel⟩
  · rw [← String.toList_inj]
    simp [KeyDecl.foreignKey, ForeignKey.nameFor, TableDecl.ref]
  · intro name hm
    obtain ⟨member, hmem, rfl⟩ := List.mem_map.1 hm
    exact hmember member hmem _ member.name_mem_names
  · intro name hm
    obtain ⟨member, hmem, htarget⟩ := List.mem_filterMap.1 hm
    obtain ⟨target, ht, rfl⟩ := Option.map_eq_some_iff.1 htarget
    exact hmember member hmem _ (ColumnDecl.target_mem_names ht)

end TableDecl

namespace Table

variable {database : String} {resolve : ColumnResolver} {decl : TableDecl} {table : Table}

theorem isPlain_of_build (h : build database resolve decl = .ok table) (hn : ArePlainNames decl.names)
    (htypes : ∀ column ∈ table.columns.values, column.HasServerType) (ht : table.triggers = []) :
    table.IsPlain := by
  have href := ref_of_build h
  have hschema : table.schema = decl.schema := congrArg TableRef.schema href
  have hname : table.name = decl.name := congrArg TableRef.table href
  have hforeign := foreignKeys_of_build h
  have hindexes : table.indexes = decl.indexes := by
    obtain ⟨draft, -, -, -, rfl⟩ := build_eq_ok.1 h
    rfl
  refine ⟨hschema ▸ hn _ (by simp [TableDecl.names]), hname ▸ hn _ (by simp [TableDecl.names]), ?_, ?_,
    hforeign ▸ TableDecl.isPlain_of_foreignKeys hn database, ?_, ht⟩
  · intro column hc
    obtain ⟨declared, hd, hbuilt⟩ := column_of_build h hc
    refine ⟨?_, htypes column hc⟩
    rw [ColumnDecl.name_of_column hbuilt]
    exact hn _ (TableDecl.names_subset_of_column hd declared.name_mem_names)
  · obtain ⟨draft, -, -, -, rfl⟩ := build_eq_ok.1 h
    intro key hk
    obtain ⟨declared, hd, rfl⟩ := Option.map_eq_some_iff.1 (Option.mem_toList.1 hk)
    have hnames := TableDecl.names_subset_of_primaryKey hd
    exact ⟨hn _ (hnames List.mem_cons_self), fun name hm => hn _ (hnames (List.mem_cons_of_mem _ hm))⟩
  · rw [hindexes]
    intro index hi
    have hnames : ∀ name ∈ index.name :: index.names, IsPlainName name :=
      fun name hm => hn _ (TableDecl.names_subset_of_index hi hm)
    rw [List.forall_mem_cons, Index.names, List.forall_mem_append, List.forall_mem_map] at hnames
    exact ⟨hnames.1, hnames.2.1, hnames.2.2⟩

end Table

namespace Registry

/-- A table without triggers that stands in a successfully constructed database, under the names of its
declaration, where all names are plain. -/
structure HoldsPlain (registry : Registry) (decl : DatabaseDecl) (owner : TableDecl) (table : Table) :
    Prop where
  constructed : (registry.construct decl).1 = .ok ()
  declared : owner ∈ decl.tables
  held : ∃ db, (registry.construct decl).2.database decl.name = .ok db ∧
    db.table? owner.schema owner.name = some table
  names : ArePlainNames owner.names
  triggers : table.triggers = []

variable {registry registry' : Registry} {decl decl' : DatabaseDecl} {owner owner' : TableDecl}
  {table first second : Table} {text : String}

theorem HoldsPlain.isPlain (h : HoldsPlain registry decl owner table) : table.IsPlain := by
  obtain ⟨db, hdb, hfound⟩ := h.held
  obtain ⟨hconstructed, hrealises⟩ := constructed_of_database h.constructed hdb
  obtain ⟨built, hbuilt, hbuild, -⟩ := hrealises.tables owner h.declared
  obtain rfl := Option.some.inj (hfound.symm.trans hbuilt)
  obtain ⟨schema, hs, ho⟩ := Database.stored_of_table? hfound
  have hmem : table ∈ db.tables := Database.mem_tables.2 ⟨_, schema, _, hs, ho⟩
  exact Table.isPlain_of_build hbuild h.names
    (fun column hc => Database.hasServerType_of_mem hconstructed hrealises hmem hc) h.triggers

/-- Tables without triggers, of constructed databases and with plain names only, are the same in all
that there is to see of them when they have the same script. -/
theorem script_determines_table (hf : HoldsPlain registry decl owner first)
    (hs : HoldsPlain registry' decl' owner' second) (h : first.script = .ok text)
    (h' : second.script = .ok text) : first.content = second.content :=
  Table.tells_written first second hf.isPlain hs.isPlain
    ((Table.written_of_script h).symm.trans (Table.written_of_script h'))

/-- Boxes on shelves, which refer to their shelf and to a place of it, in a columnstore. -/
def boxes : TableDecl where
  name := "Box"
  schema := "dbo"
  compression := .columnStore
  columns := [.plain ⟨"Id", .string, -1, -1, -1, false⟩, .foreignKey ⟨"ShelfId", "dbo", "Shelf", "Id", false⟩,
    .grouped ⟨"BackShelf", "Id", "Back", "dbo", "Shelf", true⟩,
    .grouped ⟨"BackPlace", "Place", "Back", "dbo", "Shelf", true⟩]
  primaryKey := some ⟨"PK_Box", false, .none, ["Id"]⟩
  indexes := [⟨"IX_Shelf", true, false, .page, [⟨"ShelfId", .desc⟩, ⟨"Id", .asc⟩], ["BackPlace"]⟩,
    ⟨"IX_Back", false, false, .none, [⟨"BackPlace", .asc⟩], []⟩]
  triggers := []

/-- A database of shelves with boxes. -/
def shelvesIn (name : String) : DatabaseDecl :=
  { DatabaseDecl.named name with
    schemas := [⟨"dbo", "dbo"⟩]
    tables := [⟨"Shelf", "dbo", .none, [.plain ⟨"Id", .int32, -1, -1, -1, false⟩,
      .plain ⟨"Place", .decimal, -1, 9, -1, false⟩], none, [], []⟩, boxes] }

theorem boxes_script_determines_table : ∃ first second text,
    HoldsPlain .empty (shelvesIn "Shop") boxes first ∧ HoldsPlain .empty (shelvesIn "Store") boxes second ∧
      first.script = .ok text ∧ second.script = .ok text ∧ first ≠ second ∧ first.content = second.content := by
  obtain ⟨first, second, hf, hs, hw, hw', hwritten, hne⟩ : ∃ first second,
      HoldsPlain .empty (shelvesIn "Shop") boxes first ∧ HoldsPlain .empty (shelvesIn "Store") boxes second ∧
        Writable first.scriptNames ∧ Writable second.scriptNames ∧ first.written = second.written ∧
        first ≠ second :=
    ⟨_, _, ⟨rfl, by decide, ⟨_, rfl, rfl⟩, by decide, rfl⟩, ⟨rfl, by decide, ⟨_, rfl, rfl⟩, by decide, rfl⟩,
      by decide, by decide, rfl, by decide⟩
  have h := Table.script_eq hw
  have h' := Table.script_eq hw'
  rw [← hwritten] at h'
  exact ⟨first, second, _, hf, hs, h, h', hne, script_determines_table hf hs h h'⟩

end Registry

end DatabaseProject
