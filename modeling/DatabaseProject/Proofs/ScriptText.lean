import DatabaseProject.Proofs.Brackets

/-!
# The text of a table's script

Where no name has one bracket only, the script of a table is a plain function of the table. Names of
columns, keys and indexes stand in brackets, and one that has both already stands as it is: so that a
column is written in the same way with its brackets and without. The names of schemas and tables are put
in brackets whatever they are.
-/

namespace DatabaseProject

open Identifier Outcome

/-- A name as scripts write it: with the brackets that it has, or else between brackets. -/
def Identifier.inBrackets (name : String) : String :=
  if isBracketed name then name else "[" ++ name ++ "]"

/-- Names in brackets, with commas between them. -/
def nameList (names : List String) : String := ", ".intercalate (names.map inBrackets)

/-- The words that say whether a column takes nulls. -/
def nullability (nullable : Bool) : String := if nullable then "NULL" else "NOT NULL"

def Column.written (column : Column) : String :=
  "\t" ++ inBrackets column.name ++ " " ++ column.sqlType ++ " " ++ nullability column.nullable ++ ","

def PrimaryKey.written (key : PrimaryKey) : String :=
  "\tCONSTRAINT " ++ inBrackets key.name ++ " PRIMARY KEY " ++ clusteringWord key.clustered
    ++ " (" ++ nameList key.columns ++ ") " ++ compressionClause key.compression

/-- The lines of the two batches of a foreign key. -/
def ForeignKey.written (table : String) (key : ForeignKey) : List (List String) :=
  [[
      "ALTER TABLE " ++ table ++ " ADD CONSTRAINT " ++ shorten key.name
        ++ " FOREIGN KEY (" ++ nameList key.columns ++ ")",
      "REFERENCES " ++ key.referencedTable.twoPartName ++ " (" ++ nameList key.referencedColumns ++ ");"],
    ["ALTER TABLE " ++ table ++ " NOCHECK CONSTRAINT " ++ shorten key.name ++ ";"]]

def IndexColumn.written (column : IndexColumn) : String :=
  inBrackets column.name ++ " " ++ column.order.name

namespace Index

def writtenIncludes (index : Index) : List String :=
  if index.includes.isEmpty then [] else ["INCLUDE (" ++ nameList index.includes ++ ")"]

/-- The lines of the statement that creates an index. -/
def written (table : String) (index : Index) : List String :=
  ["CREATE " ++ (if index.unique then "UNIQUE " else "") ++ clusteringWord index.clustered
      ++ " INDEX " ++ inBrackets index.name,
    "ON " ++ table ++ " (" ++ ", ".intercalate (index.columns.map IndexColumn.written) ++ ")"]
  ++ index.writtenIncludes
  ++ [compressionClause index.compression, "ON [PRIMARY];"]

end Index

namespace Table

def writtenLines (table : Table) : List String :=
  ["CREATE TABLE " ++ table.twoPartName, "("] ++ table.columns.values.map Column.written
    ++ table.primaryKey.toList.map PrimaryKey.written ++ [")", "ON [PRIMARY]"]

/-- The lines of the batches that create a table. -/
def writtenCreation (table : Table) : List (List String) :=
  if table.compression.isColumnStore then
    [table.writtenLines, [table.columnStoreLine, compressionClause table.compression ++ ";"]]
  else [table.writtenLines ++ [compressionClause table.compression ++ ";"]]

/-- The lines of all batches but those of triggers. -/
def writtenBatches (table : Table) : List (List String) :=
  table.writtenCreation ++ table.foreignKeys.flatMap (ForeignKey.written table.twoPartName)
    ++ table.indexes.map (Index.written table.twoPartName)

/-- The script of a table without a half-bracketed name. -/
def written (table : Table) : String :=
  joinBatches (table.writtenBatches.map unlines ++ table.triggers.map (· ++ "\n"))

end Table

/-- None of the names has one bracket only. -/
def Writable (names : List String) : Prop := ∀ name ∈ names, isHalfBracketed name = false

instance (names : List String) : Decidable (Writable names) :=
  inferInstanceAs (Decidable (∀ name ∈ names, isHalfBracketed name = false))

theorem Writable.mono {names more : List String} (h : Writable more) (hs : names ⊆ more) :
    Writable names := fun name hn => h name (hs hn)

theorem bracketed_eq {name : String} (h : isHalfBracketed name = false) :
    bracketed name = .ok (inBrackets name) := by
  unfold bracketed bracket? inBrackets
  rw [h]
  by_cases hboth : isBracketed name = true
  · simp [hboth]
  · simp [hboth]

theorem bracketedList_eq {names : List String} (h : Writable names) :
    bracketedList names = .ok (nameList names) := by
  unfold bracketedList
  rw [mapM_of_forall fun name hn => bracketed_eq (h name hn)]
  rfl

theorem Column.line_eq {column : Column} (h : isHalfBracketed column.name = false) :
    column.line = .ok column.written := by
  unfold line
  rw [bracketed_eq h]
  rfl

theorem PrimaryKey.line_eq {key : PrimaryKey} (h : Writable key.scriptNames) :
    key.line = .ok key.written := by
  unfold line
  rw [bracketed_eq (h _ List.mem_cons_self), bracketedList_eq (h.mono (List.subset_cons_self _ _))]
  rfl

theorem ForeignKey.batches_eq {key : ForeignKey} (table : String) (h : Writable key.scriptNames) :
    key.batches table = .ok ((key.written table).map unlines) := by
  unfold batches
  rw [bracketedList_eq (h.mono (List.subset_append_left _ _)),
    bracketedList_eq (h.mono (List.subset_append_right _ _))]
  rfl

theorem IndexColumn.text_eq {column : IndexColumn} (h : isHalfBracketed column.name = false) :
    column.text = .ok column.written := by
  unfold text
  rw [bracketed_eq h]
  rfl

theorem Index.statement_eq {index : Index} (table : String) (h : Writable index.scriptNames) :
    index.statement table = .ok (unlines (index.written table)) := by
  have hcolumns : index.columns.mapM IndexColumn.text = .ok (index.columns.map IndexColumn.written) := by
    apply mapM_of_forall
    intro column hc
    exact IndexColumn.text_eq (h _ (List.mem_append_left _ (List.mem_map_of_mem hc)))
  have hname : isHalfBracketed index.name = false := h _ (List.mem_append_right _ List.mem_cons_self)
  have hincludes : Writable index.includes := h.mono fun name hn =>
    List.mem_append_right _ (List.mem_cons_of_mem _ hn)
  unfold statement
  rw [hcolumns, bracketed_eq hname, bracketedList_eq hincludes]
  unfold written writtenIncludes
  by_cases hnone : index.includes.isEmpty = true
  · rw [hnone]
    rfl
  · rw [Bool.eq_false_of_not_eq_true hnone]
    rfl

namespace Table

variable {table : Table} {text : String}

theorem creationLines_eq (h : Writable table.scriptNames) :
    table.creationLines = .ok table.writtenLines := by
  have hcolumns : table.columns.values.mapM Column.line = .ok (table.columns.values.map Column.written) := by
    apply mapM_of_forall
    intro column hc
    exact Column.line_eq (h _ (by simp [scriptNames, List.mem_map_of_mem hc]))
  have hkey : table.primaryKey.toList.mapM PrimaryKey.line =
      .ok (table.primaryKey.toList.map PrimaryKey.written) := by
    apply mapM_of_forall
    intro key hk
    refine PrimaryKey.line_eq (h.mono fun name hn => ?_)
    simp only [scriptNames, List.mem_append, List.mem_flatMap]
    exact .inl (.inl (.inr ⟨key, hk, hn⟩))
  unfold creationLines
  rw [hcolumns, hkey]
  rfl

theorem creationBatches_eq (h : Writable table.scriptNames) :
    table.creationBatches = .ok (table.writtenCreation.map unlines) := by
  unfold creationBatches writtenCreation
  rw [creationLines_eq h]
  by_cases hs : table.compression.isColumnStore = true
  · rw [if_pos hs]
    simp only [hs]
    rfl
  · rw [if_neg hs]
    simp only [hs]
    rfl

theorem batches_eq (h : Writable table.scriptNames) : table.batches =
    .ok (table.writtenBatches.map unlines ++ table.triggers.map (· ++ "\n")) := by
  have hkeys : table.foreignKeys.mapM (ForeignKey.batches table.twoPartName) =
      .ok (table.foreignKeys.map fun key => (key.written table.twoPartName).map unlines) := by
    apply mapM_of_forall
    intro key hk
    refine ForeignKey.batches_eq _ (h.mono fun name hn => ?_)
    simp only [scriptNames, List.mem_append, List.mem_flatMap]
    exact .inl (.inr ⟨key, hk, hn⟩)
  have hindexes : table.indexes.mapM (Index.statement table.twoPartName) =
      .ok (table.indexes.map fun index => unlines (index.written table.twoPartName)) := by
    apply mapM_of_forall
    intro index hi
    refine Index.statement_eq _ (h.mono fun name hn => ?_)
    simp only [scriptNames, List.mem_append, List.mem_flatMap]
    exact .inr ⟨index, hi, hn⟩
  unfold batches writtenBatches
  rw [creationBatches_eq h, hkeys, hindexes, List.map_append, List.map_append, List.map_flatMap,
    List.map_map]
  rfl

/-- A script is written as soon as no name is half-bracketed. -/
theorem script_eq (h : Writable table.scriptNames) : table.script = .ok table.written := by
  unfold script
  rw [batches_eq h]
  rfl

theorem writable_of_script (h : table.script = .ok text) : Writable table.scriptNames := by
  intro name hn
  by_contra hhalf
  obtain ⟨e, he⟩ := table.brackets_script.fails_iff.2 ⟨name, hn, Bool.eq_true_of_not_eq_false hhalf⟩
  rw [h] at he
  cases he

theorem written_of_script (h : table.script = .ok text) : text = table.written :=
  Except.ok.inj (h.symm.trans (script_eq (writable_of_script h)))

/-- The script begins with the lines of the columns. -/
theorem written_columns (table : Table) : ∃ rest, table.written =
    unlines (["CREATE TABLE " ++ table.twoPartName, "("] ++ table.columns.values.map Column.written)
      ++ rest := by
  have hlines : ∃ more, table.writtenLines = ["CREATE TABLE " ++ table.twoPartName, "("]
      ++ table.columns.values.map Column.written ++ more := by
    exact ⟨_, List.append_assoc _ _ _⟩
  obtain ⟨more, hmore⟩ := hlines
  unfold written writtenBatches writtenCreation
  by_cases hs : table.compression.isColumnStore = true
  · simp [hs, hmore, joinBatches, unlines, String.append_assoc]
  · simp [hs, hmore, joinBatches, unlines, String.append_assoc]

end Table

/-- The names in the declaration of a column: its own, those of the column that it refers to and that
of its group. -/
def ColumnDecl.names : ColumnDecl → List String
  | .plain decl => [decl.name]
  | .foreignKey decl => [decl.name, decl.schema, decl.table, decl.column]
  | .grouped decl => [decl.name, decl.schema, decl.table, decl.column, decl.group]

/-- All names in the declaration of a table. -/
def TableDecl.names (decl : TableDecl) : List String :=
  [decl.schema, decl.name] ++ decl.columns.flatMap ColumnDecl.names
    ++ decl.primaryKey.toList.flatMap (fun key => key.name :: key.columns)
    ++ decl.indexes.flatMap fun index => index.name :: index.names

namespace Identifier

variable {first second : String}

theorem isBracketed_between (name : String) : isBracketed ("[" ++ name ++ "]") = true := by
  have hlast : ('[' :: (name.toList ++ [']'])).getLast? = some ']' := by
    rw [← List.cons_append, List.getLast?_concat]
  simp [isBracketed, hlast]

theorem inBrackets_of_bracketed (h : isBracketed first = true) : inBrackets first = first := if_pos h

theorem inBrackets_of_unbracketed (h : isBracketed first = false) :
    inBrackets first = "[" ++ first ++ "]" := if_neg (by simp [h])

/-- A name is written like another one exactly when it is that one, up to the brackets around it. -/
theorem inBrackets_eq_iff : inBrackets first = inBrackets second ↔ first = second ∨
    (isBracketed first = false ∧ second = "[" ++ first ++ "]") ∨
    (isBracketed second = false ∧ first = "[" ++ second ++ "]") := by
  constructor
  · intro h
    by_cases hf : isBracketed first = true
    · rw [inBrackets_of_bracketed hf] at h
      by_cases hs : isBracketed second = true
      · exact .inl (h.trans (inBrackets_of_bracketed hs))
      · rw [Bool.not_eq_true] at hs
        exact .inr (.inr ⟨hs, h.trans (inBrackets_of_unbracketed hs)⟩)
    · rw [Bool.not_eq_true] at hf
      rw [inBrackets_of_unbracketed hf] at h
      by_cases hs : isBracketed second = true
      · rw [inBrackets_of_bracketed hs] at h
        exact .inr (.inl ⟨hf, h.symm⟩)
      · rw [Bool.not_eq_true] at hs
        rw [inBrackets_of_unbracketed hs, String.append_left_inj, String.append_right_inj] at h
        exact .inl h
  · intro h
    obtain rfl | ⟨hf, rfl⟩ | ⟨hs, rfl⟩ := h
    · rfl
    · rw [inBrackets_of_unbracketed hf, inBrackets_of_bracketed (isBracketed_between _)]
    · rw [inBrackets_of_unbracketed hs, inBrackets_of_bracketed (isBracketed_between _)]

/-- Different names are written differently unless one of them is another one with its brackets. -/
theorem nodup_inBrackets_iff {names : List String} (h : names.Nodup) :
    (names.map inBrackets).Nodup ↔
      ∀ name ∈ names, isBracketed name = false → "[" ++ name ++ "]" ∉ names := by
  rw [List.nodup_map_iff_inj_on h]
  constructor
  · intro hinj name hn hplain hboth
    have he := hinj name hn _ hboth (inBrackets_eq_iff.2 (.inr (.inl ⟨hplain, rfl⟩)))
    have hbracketed := isBracketed_between name
    rw [← he, hplain] at hbracketed
    cases hbracketed
  · intro hall first hf second hs he
    obtain rfl | ⟨hplain, rfl⟩ | ⟨hplain, rfl⟩ := inBrackets_eq_iff.1 he
    · rfl
    · exact absurd hs (hall first hf hplain)
    · exact absurd hf (hall second hs hplain)

end Identifier

namespace Table

variable {database : String} {resolve : ColumnResolver} {decl : TableDecl} {table : Table} {text : String}

theorem columnNames_of_build (h : build database resolve decl = .ok table) :
    table.columns.values.map (·.name) = decl.columns.map (·.name) := by
  have hnames : table.columns.values.map (·.name) = table.columns.keys := by
    unfold OrderedMap.values OrderedMap.keys
    rw [List.map_map]
    exact List.map_congr_left (coherent_of_build h).columns
  rw [hnames, keys_of_build h]

/-- The identifiers that the lines of the columns begin with. -/
def columnIdentifiers (table : Table) : List String :=
  table.columns.values.map fun column => inBrackets column.name

/-- The script of a built table lists its columns by identifiers in brackets, which are different from
each other exactly when no column is declared with the name of another one between brackets. -/
theorem column_identifiers_distinct_iff (h : build database resolve decl = .ok table)
    (hs : table.script = .ok text) :
    (∃ rest, text = unlines (["CREATE TABLE " ++ table.twoPartName, "("]
      ++ table.columns.values.map Column.written) ++ rest) ∧
    (table.columnIdentifiers.Nodup ↔ ∀ name ∈ decl.columns.map (·.name),
      isBracketed name = false → "[" ++ name ++ "]" ∉ decl.columns.map (·.name)) := by
  have hnames := columnNames_of_build h
  have hnodup : (decl.columns.map (·.name)).Nodup := (build_isOk.1 ⟨table, h⟩).2.1
  have hidentifiers : table.columnIdentifiers = (decl.columns.map (·.name)).map inBrackets := by
    rw [← hnames, List.map_map]
    rfl
  constructor
  · rw [written_of_script hs]
    exact table.written_columns
  · rw [hidentifiers]
    exact nodup_inBrackets_iff hnodup

/-- Items with a column that is declared with brackets, and one with brackets in its name. -/
def labelledItems : TableDecl where
  name := "Item"
  schema := "dbo"
  compression := .none
  columns := [.plain ⟨"Id", .int32, -1, -1, -1, false⟩, .plain ⟨"[Label]", .int32, -1, -1, -1, true⟩,
    .plain ⟨"a[0]b", .int32, -1, -1, -1, true⟩]
  primaryKey := some ⟨"PK_Item", true, .none, ["Id"]⟩
  indexes := []
  triggers := []

theorem labelled_items_distinct : ∃ table text,
    build "Shop" (fun ref => .error (.unknownColumn ref)) labelledItems = .ok table ∧
      table.script = .ok text ∧ table.columnIdentifiers.Nodup := by
  obtain ⟨table, hb, hw⟩ : ∃ table, build "Shop" (fun ref => .error (.unknownColumn ref)) labelledItems =
      .ok table ∧ Writable table.scriptNames := ⟨_, rfl, by decide⟩
  have hs := script_eq hw
  exact ⟨table, _, hb, hs, (column_identifiers_distinct_iff hb hs).2.2 (by decide)⟩

/-- Two columns of different names with one identifier. -/
theorem bracketed_column_repeats_identifier :
    let decl : TableDecl := ⟨"Item", "dbo", .none, [.plain ⟨"Id", .int32, -1, -1, -1, false⟩,
      .plain ⟨"[Id]", .int32, -1, -1, -1, false⟩], none, [], []⟩
    ∃ table text, build "Shop" (fun ref => .error (.unknownColumn ref)) decl = .ok table ∧
      table.script = .ok text ∧ table.columnIdentifiers = ["[Id]", "[Id]"] ∧
      text = unlines ["CREATE TABLE [dbo].[Item]", "(", "\t[Id] int NOT NULL,", "\t[Id] int NOT NULL,",
        ")", "ON [PRIMARY]", "WITH (DATA_COMPRESSION = None);", "GO", ""] := by
  intro decl
  obtain ⟨table, hb, hw, hi, ht⟩ : ∃ table, build "Shop" (fun ref => .error (.unknownColumn ref)) decl =
      .ok table ∧ Writable table.scriptNames ∧ table.columnIdentifiers = ["[Id]", "[Id]"] ∧
      table.written = unlines ["CREATE TABLE [dbo].[Item]", "(", "\t[Id] int NOT NULL,",
        "\t[Id] int NOT NULL,", ")", "ON [PRIMARY]", "WITH (DATA_COMPRESSION = None);", "GO", ""] :=
    ⟨_, rfl, by decide, by decide, by decide⟩
  exact ⟨table, _, hb, script_eq hw, hi, ht⟩

theorem written_name (table : Table) : ∃ rest, table.written =
    "CREATE TABLE [" ++ table.schema ++ "].[" ++ table.name ++ "]\n" ++ rest := by
  obtain ⟨rest, hrest⟩ := table.written_columns
  refine ⟨"(\n" ++ unlines (table.columns.values.map Column.written) ++ rest, ?_⟩
  rw [hrest, ← String.toList_inj]
  simp [unlines, twoPartName, TableRef.twoPartName, ref]

/-- In a script no name of a column, a key or an index is half-bracketed, and one with both brackets is
written as it is. The names of schemas and tables do not keep to this: the table can be given any
schema and name, and both are put between brackets. -/
theorem script_follows_bracket_rule (h : table.script = .ok text) :
    (∀ name ∈ table.scriptNames, isHalfBracketed name = false) ∧
    (∀ name ∈ table.scriptNames, isBracketed name = true → inBrackets name = name) ∧
    text = table.written ∧
    ∀ schema name : String, ∃ rest, { table with schema, name }.script =
      .ok ("CREATE TABLE [" ++ schema ++ "].[" ++ name ++ "]\n" ++ rest) := by
  have hw := writable_of_script h
  refine ⟨hw, fun name _ hb => inBrackets_of_bracketed hb, written_of_script h, fun schema name => ?_⟩
  obtain ⟨rest, hrest⟩ := { table with schema, name }.written_name
  refine ⟨rest, ?_⟩
  rw [← hrest]
  exact script_eq hw

/-- Orders in a schema with brackets, under a name with one bracket, that refer to themselves. -/
def bracketedOrders : Table where
  database := "Shop"
  schema := "[dbo]"
  name := "Order]"
  compression := .page
  columns := .ofList [("[Id]", ⟨"[Id]", "int", false, -1, -1, -1, none⟩),
    ("ParentId", ⟨"ParentId", "int", true, -1, -1, -1, some ⟨⟨"Shop", "[dbo]", "Order]"⟩, "[Id]"⟩⟩)]
  primaryKey := some ⟨"[PK_Order]", false, .row, ["[Id]"]⟩
  foreignKeys := [⟨"[FK_Order]_Order]_ParentId]", ["ParentId"], ⟨"Shop", "[dbo]", "Order]"⟩, ["[Id]"]⟩]
  indexes := [⟨"IX_Parent", true, false, .none, [⟨"ParentId", .desc⟩], ["[Id]"]⟩]
  triggers := []

theorem bracketed_orders_follow_rule : ∃ text, bracketedOrders.script = .ok text ∧
    (∀ name ∈ bracketedOrders.scriptNames, isHalfBracketed name = false) ∧
    text = bracketedOrders.written ∧
    ∃ rest, { bracketedOrders with schema := "]a", name := "b[" }.script =
      .ok ("CREATE TABLE []a].[b[]\n" ++ rest) := by
  have hs : bracketedOrders.script = .ok bracketedOrders.written := script_eq (by decide)
  obtain ⟨hhalf, -, ht, hall⟩ := script_follows_bracket_rule hs
  exact ⟨_, hs, hhalf, ht, hall "]a" "b["⟩

/-- The schema gets a second pair of brackets, and the half-bracketed name of the table is written. -/
theorem table_names_break_bracket_rule :
    isBracketed bracketedOrders.schema = true ∧ isHalfBracketed bracketedOrders.name = true ∧
    ∃ rest, bracketedOrders.script = .ok ("CREATE TABLE [[dbo]].[Order]]\n" ++ rest) := by
  refine ⟨by decide, by decide, ?_⟩
  obtain ⟨rest, hrest⟩ := bracketedOrders.written_name
  refine ⟨rest, ?_⟩
  rw [script_eq (by decide), hrest]
  rfl

end Table

end DatabaseProject
