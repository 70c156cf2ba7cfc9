import DatabaseProject.Proofs.Attributes
import DatabaseProject.Proofs.ColumnTypes
import DatabaseProject.Proofs.Delimited

/-!
# What a script tells of its table

A script is cut into its batches and the creation of the table into its lines. Where names are plain,
no name, list of names or type holds the character behind it, so that every line and every statement
tells what it is written from. Tables with one script are then the same in all that scripts write.
-/

namespace DatabaseProject

open Identifier

/-- A column as scripts write it. -/
structure ColumnContent where
  name : String
  type : String
  nullable : Bool
  deriving DecidableEq

def Column.content (column : Column) : ColumnContent := ⟨column.name, column.sqlType, column.nullable⟩

/-- A foreign key as scripts write it, under a name that is not too long. -/
structure ForeignKeyContent where
  name : String
  columns : List String
  schema : String
  table : String
  referencedColumns : List String
  deriving DecidableEq

def ForeignKey.content (key : ForeignKey) : ForeignKeyContent :=
  ⟨shorten key.name, key.columns, key.referencedTable.schema, key.referencedTable.table,
    key.referencedColumns⟩

/-- A table as scripts write it, without its triggers. -/
structure TableContent where
  schema : String
  name : String
  compression : Compression
  columns : List ColumnContent
  primaryKey : Option PrimaryKey
  foreignKeys : List ForeignKeyContent
  indexes : List Index
  deriving DecidableEq

def Table.content (table : Table) : TableContent where
  schema := table.schema
  name := table.name
  compression := table.compression
  columns := table.columns.values.map Column.content
  primaryKey := table.primaryKey
  foreignKeys := table.foreignKeys.map ForeignKey.content
  indexes := table.indexes

theorem compressionClause_injective : Function.Injective compressionClause := by
  intro first second h
  unfold compressionClause at h
  rw [String.append_left_inj, String.append_right_inj] at h
  exact LawfulKeyword.name_injective (α := Compression) h

theorem clusteringWord_injective : Function.Injective clusteringWord := by
  intro first second h
  revert h
  cases first <;> cases second <;> decide

theorem blank_not_mem_clusteringWord (clustered : Bool) : ' ' ∉ (clusteringWord clustered).toList := by
  cases clustered <;> decide

theorem nullability_injective : Function.Injective nullability := by
  intro first second h
  revert h
  cases first <;> cases second <;> decide

theorem head?_nullability (nullable : Bool) :
    ∀ d ∈ (nullability nullable ++ ",").toList.head?, d = 'N' := by
  cases nullable <;> simp [nullability]

/-- The first character of a batch. -/
def batchMark (lines : List String) : Option Char := lines.head?.bind (·.toList.head?)

namespace Column

/-- A column with a plain name and a type of the server. -/
structure IsPlain (column : Column) : Prop where
  name : IsPlainName column.name
  type : column.HasServerType

variable {column : Column}

/-- No type has the letter that the words behind it begin with. -/
theorem IsPlain.not_mem_sqlType (h : column.IsPlain) : 'N' ∉ (column.sqlType ++ " ").toList := by
  intro hm
  rw [String.toList_append, List.mem_append] at hm
  obtain hm | hm := hm
  · exact absurd (h.type.mem_sqlType hm) (by decide)
  · exact absurd hm (by decide)

theorem tells_written : Tells IsPlain written content := by
  intro first second hf hs h
  unfold written at h
  simp only [String.append_assoc, String.append_right_inj] at h
  obtain ⟨hname, h⟩ := inBrackets_append_inj hf.name hs.name h
  rw [String.append_right_inj] at h
  -- A type can have blanks of its own, so that it is read up to the words behind its blank.
  have htypes : (first.sqlType ++ " ") ++ (nullability first.nullable ++ ",") =
      (second.sqlType ++ " ") ++ (nullability second.nullable ++ ",") := by
    rw [String.append_assoc, h, String.append_assoc]
  obtain ⟨htype, hnull⟩ := cut_inj hf.not_mem_sqlType hs.not_mem_sqlType (head?_nullability _)
    (head?_nullability _) htypes
  rw [String.append_left_inj] at htype hnull
  unfold content
  rw [hname, htype, nullability_injective hnull]

theorem IsPlain.isLine_written (h : column.IsPlain) : IsLine column.written :=
  isLine_line (line_eq h.name.not_halfBracketed) h.name.unbroken
    fun hc => absurd (h.type.isTypeText _ hc) (by decide)

theorem IsPlain.mark_written (h : column.IsPlain) : column.written.toList[1]? = some '[' := by
  unfold written
  rw [h.name.inBrackets_eq]
  simp

end Column

namespace PrimaryKey

/-- A primary key of plain names. -/
structure IsPlain (key : PrimaryKey) : Prop where
  name : IsPlainName key.name
  columns : ArePlainNames key.columns

variable {key : PrimaryKey}

theorem tells_written : Tells IsPlain written id := by
  intro first second hf hs h
  unfold written at h
  simp only [String.append_assoc, String.append_right_inj] at h
  obtain ⟨hname, h⟩ := inBrackets_append_inj hf.name hs.name h
  rw [String.append_right_inj] at h
  obtain ⟨hword, h⟩ := cut_inj (blank_not_mem_clusteringWord _) (blank_not_mem_clusteringWord _)
    (by simp) (by simp) h
  rw [String.append_right_inj] at h
  obtain ⟨hlist, h⟩ := cut_inj (hf.columns.not_mem_nameList (c := ')') (by decide) (by decide))
    (hs.columns.not_mem_nameList (by decide) (by decide)) (by simp) (by simp) h
  rw [String.append_right_inj] at h
  have hclustered := clusteringWord_injective hword
  have hcolumns : first.columns = second.columns := tells_nameList _ _ hf.columns hs.columns hlist
  have hcompression := compressionClause_injective h
  cases first
  cases second
  simp_all

theorem IsPlain.isPlainName_of_mem (h : key.IsPlain) : ArePlainNames key.scriptNames :=
  List.forall_mem_cons.2 ⟨h.name, h.columns⟩

theorem IsPlain.isLine_written (h : key.IsPlain) : IsLine key.written :=
  isLine_line (line_eq h.isPlainName_of_mem.writable) fun name hn => (h.isPlainName_of_mem name hn).unbroken

theorem marks_written (key : PrimaryKey) :
    key.written.toList.head? = some '\t' ∧ key.written.toList[1]? = some 'C' := by
  obtain ⟨rest, h⟩ : ∃ rest, key.written = "\tCONSTRAINT " ++ rest := by
    unfold written
    simp only [String.append_assoc]
    exact ⟨_, rfl⟩
  rw [h]
  simp

end PrimaryKey

namespace ForeignKey

/-- A foreign key of plain names, with a constraint name that is plain between its brackets. -/
structure IsPlain (key : ForeignKey) : Prop where
  name : ∃ label, IsPlainName label ∧ key.name = "[" ++ label ++ "]"
  columns : ArePlainNames key.columns
  schema : IsPlainName key.referencedTable.schema
  table : IsPlainName key.referencedTable.table
  referencedColumns : ArePlainNames key.referencedColumns

variable {key : ForeignKey} {table : String}

theorem IsPlain.not_mem_shorten (h : key.IsPlain) {c : Char} (hc : ¬ IsPlainChar c)
    (hb : c ∉ ['[', ']']) (hsmall : c.toNat < 0xD800) : c ∉ (shorten key.name).toList := by
  obtain ⟨label, hlabel, hname⟩ := h.name
  rw [List.mem_cons, List.mem_singleton, not_or] at hb
  intro hm
  obtain hm | hm | hm | hm := mem_shorten hm hsmall
  · simp [hname, hb, hlabel.not_mem hc] at hm
  · exact hc (.inr hm)
  · exact hc (.inl (by simp [Char.isAlphanum, hm]))
  · exact hb.2 hm

theorem tells_written (table : String) : Tells IsPlain (written table) content := by
  intro first second hf hs h
  simp only [written, List.cons.injEq, and_true] at h
  -- The second batch repeats the name that the first one gives.
  obtain ⟨⟨hadd, htarget⟩, -⟩ := h
  simp only [String.append_assoc, String.append_right_inj] at hadd
  obtain ⟨hname, hadd⟩ := cut_inj (hf.not_mem_shorten (c := ' ') (by decide) (by decide) (by decide))
    (hs.not_mem_shorten (by decide) (by decide) (by decide)) (by simp) (by simp) hadd
  rw [String.append_right_inj, String.append_left_inj] at hadd
  simp only [String.append_assoc, String.append_right_inj] at htarget
  obtain ⟨hschema, htable, htarget⟩ := TableRef.twoPartName_append_inj ⟨hf.schema, hf.table⟩
    ⟨hs.schema, hs.table⟩ htarget
  rw [String.append_right_inj, String.append_left_inj] at htarget
  have hcolumns : first.columns = second.columns := tells_nameList _ _ hf.columns hs.columns hadd
  have hreferenced : first.referencedColumns = second.referencedColumns :=
    tells_nameList _ _ hf.referencedColumns hs.referencedColumns htarget
  unfold content
  rw [hname, hcolumns, hschema, htable, hreferenced]

theorem IsPlain.isLine_written (h : key.IsPlain) (ht : Unbroken table) :
    ∀ lines ∈ key.written table, ∀ line ∈ lines, IsLine line := by
  have hname : Unbroken (shorten key.name) := h.not_mem_shorten (by decide) (by decide) (by decide)
  have hcolumns : Unbroken (nameList key.columns) := h.columns.not_mem_nameList (by decide) (by decide)
  have htarget : Unbroken key.referencedTable.twoPartName :=
    unbroken_twoPartName h.schema.unbroken h.table.unbroken
  have hreferenced : Unbroken (nameList key.referencedColumns) :=
    h.referencedColumns.not_mem_nameList (by decide) (by decide)
  simp only [written, List.forall_mem_cons, List.not_mem_nil, false_imp_iff, implies_true, and_true]
  refine ⟨⟨?_, ?_⟩, ?_⟩
  · refine isLine_of_head (c := 'A') ?_ (by simp) (by decide)
    simp +decide [unbroken_append, ht, hname, hcolumns]
  · refine isLine_of_head (c := 'R') ?_ (by simp) (by decide)
    simp +decide [unbroken_append, htarget, hreferenced]
  · refine isLine_of_head (c := 'A') ?_ (by simp) (by decide)
    simp +decide [unbroken_append, ht, hname]

theorem mark_written (table : String) (key : ForeignKey) :
    ∀ lines ∈ key.written table, batchMark lines = some 'A' := by
  intro lines hl
  simp only [written, List.mem_cons, List.not_mem_nil, or_false] at hl
  obtain rfl | rfl := hl
  · simp [batchMark]
  · simp [batchMark]

end ForeignKey

namespace IndexColumn

theorem tells_written : Tells (fun column : IndexColumn => IsPlainName column.name) written id := by
  intro first second hf hs h
  unfold written at h
  rw [String.append_assoc, String.append_assoc] at h
  obtain ⟨hname, h⟩ := inBrackets_append_inj hf hs h
  rw [String.append_right_inj] at h
  have horder := LawfulKeyword.name_injective (α := SortOrder) h
  cases first
  cases second
  simp_all

variable {column : IndexColumn}

theorem not_mem_written (h : IsPlainName column.name) {c : Char} (hc : ¬ IsPlainChar c)
    (hb : c ∉ ['[', ']', ' ']) : c ∉ column.written.toList := by
  have horder : IsPlainName column.order.name := by
    cases column.order <;> decide
  simp only [List.mem_cons, List.not_mem_nil, or_false, not_or] at hb
  unfold written
  simp [hb, h.not_mem_inBrackets hc (by simp [hb]), horder.not_mem hc]

theorem isItem_written (h : IsPlainName column.name) : IsItem column.written := by
  refine ⟨?_, not_mem_written h (by decide) (by decide)⟩
  intro hempty
  unfold written at hempty
  rw [String.append_eq_empty_iff, String.append_eq_empty_iff] at hempty
  exact absurd hempty.1.2 (by decide)

end IndexColumn

namespace Index

/-- An index of plain names. -/
structure IsPlain (index : Index) : Prop where
  name : IsPlainName index.name
  columns : ∀ column ∈ index.columns, IsPlainName column.name
  includes : ArePlainNames index.includes

/-- The words that the statement of an index begins with. -/
def kindWords (unique clustered : Bool) : String :=
  "CREATE " ++ (if unique then "UNIQUE " else "") ++ clusteringWord clustered ++ " INDEX "

theorem kindWords_inj {unique unique' clustered clustered' : Bool}
    (h : kindWords unique clustered = kindWords unique' clustered') :
    unique = unique' ∧ clustered = clustered' := by
  revert h
  cases unique <;> cases unique' <;> cases clustered <;> cases clustered' <;> decide

theorem bracket_not_mem_kindWords (unique clustered : Bool) :
    '[' ∉ (kindWords unique clustered).toList := by
  cases unique <;> cases clustered <;> decide

theorem tells_writtenIncludes :
    Tells (fun index : Index => ArePlainNames index.includes) writtenIncludes includes := by
  intro first second hf hs h
  unfold writtenIncludes at h
  by_cases hempty : first.includes.isEmpty = true
  · by_cases hempty' : second.includes.isEmpty = true
    · rw [List.isEmpty_iff.1 hempty, List.isEmpty_iff.1 hempty']
    · simp [hempty, hempty'] at h
  · by_cases hempty' : second.includes.isEmpty = true
    · simp [hempty, hempty'] at h
    · rw [if_neg hempty, if_neg hempty', List.singleton_inj, String.append_left_inj,
        String.append_right_inj] at h
      exact tells_nameList _ _ hf hs h

theorem tells_written (table : String) : Tells IsPlain (written table) id := by
  intro first second hf hs h
  obtain ⟨hlines, hend⟩ := List.append_inj' h rfl
  obtain ⟨hstart, hmiddle⟩ := List.append_inj hlines rfl
  simp only [List.cons.injEq, and_true] at hstart hend
  obtain ⟨hkind, hon⟩ := hstart
  obtain ⟨hwords, hbrackets⟩ := cut_inj (bracket_not_mem_kindWords first.unique first.clustered)
    (bracket_not_mem_kindWords second.unique second.clustered) hf.name.head?_inBrackets
    hs.name.head?_inBrackets hkind
  rw [String.append_left_inj, String.append_right_inj] at hon
  have hname : first.name = second.name := tells_inBrackets _ _ hf.name hs.name hbrackets
  have hlist := IndexColumn.tells_written.intercalate (fun _ => IndexColumn.isItem_written) _ _
    hf.columns hs.columns hon
  rw [List.map_id, List.map_id] at hlist
  obtain ⟨hunique, hclustered⟩ := kindWords_inj hwords
  have hincludes := tells_writtenIncludes _ _ hf.includes hs.includes hmiddle
  have hcompression := compressionClause_injective hend
  cases first
  cases second
  simp_all

variable {index : Index} {table : String}

theorem IsPlain.isLine_written (h : index.IsPlain) (ht : Unbroken table) :
    ∀ line ∈ index.written table, IsLine line := by
  have hname : Unbroken (inBrackets index.name) := h.name.not_mem_inBrackets (by decide) (by decide)
  have hcolumns : Unbroken (", ".intercalate (index.columns.map IndexColumn.written)) := by
    apply unbroken_intercalate (by decide)
    rw [List.forall_mem_map]
    exact fun column hc => IndexColumn.not_mem_written (h.columns column hc) (by decide) (by decide)
  have hincludes : ∀ line ∈ index.writtenIncludes, IsLine line := by
    unfold writtenIncludes
    split
    · simp
    · rw [List.forall_mem_singleton]
      refine isLine_of_head (c := 'I') ?_ (by simp) (by decide)
      have hlist : Unbroken (nameList index.includes) := h.includes.not_mem_nameList (by decide) (by decide)
      simp +decide [unbroken_append, hlist]
  have hkind : Unbroken (kindWords index.unique index.clustered) := by
    cases index.unique <;> cases index.clustered <;> decide
  simp only [written, List.forall_mem_append, List.forall_mem_cons, List.not_mem_nil, false_imp_iff,
    implies_true, and_true]
  refine ⟨⟨⟨?_, ?_⟩, hincludes⟩, ?_, by decide⟩
  · refine isLine_of_head (c := 'C') ?_ (by simp) (by decide)
    exact unbroken_append.2 ⟨hkind, hname⟩
  · refine isLine_of_head (c := 'O') ?_ (by simp) (by decide)
    simp +decide [unbroken_append, ht, hcolumns]
  · cases index.compression <;> decide

theorem mark_written (table : String) (index : Index) : batchMark (index.written table) = some 'C' := by
  simp [batchMark, written]

end Index

/-- The lines of a batch. -/
def AreLines (lines : List String) : Prop := lines ≠ [] ∧ ∀ line ∈ lines, IsLine line

theorem tells_unlines : Tells AreLines unlines id := fun _ _ hf hs =>
  unlines_inj hf.1 hs.1 (fun line hl => (hf.2 line hl).1) fun line hl => (hs.2 line hl).1

theorem tells_script : Tells (fun batches : List (List String) => ∀ lines ∈ batches, AreLines lines)
    (fun batches => joinBatches (batches.map unlines)) id := by
  intro first second hf hs h
  have hbatch : ∀ batches : List (List String), (∀ lines ∈ batches, AreLines lines) →
      ∀ batch ∈ batches.map unlines, IsBatch batch := by
    intro batches hb
    rw [List.forall_mem_map]
    exact fun lines hl => isBatch_unlines (hb lines hl).1 (hb lines hl).2
  have htexts := tells_unlines.map first second hf hs (joinBatches_inj (hbatch first hf) (hbatch second hs) h)
  rwa [List.map_id, List.map_id] at htexts

namespace Table

/-- A table of plain names and types of the server, without triggers. -/
structure IsPlain (table : Table) : Prop where
  schema : IsPlainName table.schema
  name : IsPlainName table.name
  columns : ∀ column ∈ table.columns.values, column.IsPlain
  primaryKey : ∀ key ∈ table.primaryKey.toList, key.IsPlain
  foreignKeys : ∀ key ∈ table.foreignKeys, key.IsPlain
  indexes : ∀ index ∈ table.indexes, index.IsPlain
  triggers : table.triggers = []

variable {table first second : Table}

theorem IsPlain.unbroken_twoPartName (h : table.IsPlain) : Unbroken table.twoPartName :=
  DatabaseProject.unbroken_twoPartName h.schema.unbroken h.name.unbroken

theorem IsPlain.isLine_writtenLines (h : table.IsPlain) : ∀ line ∈ table.writtenLines, IsLine line := by
  unfold writtenLines
  simp only [List.forall_mem_append, List.forall_mem_map, List.forall_mem_cons, List.not_mem_nil,
    false_imp_iff, implies_true, and_true]
  refine ⟨⟨⟨⟨?_, by decide⟩, ?_⟩, ?_⟩, by decide, by decide⟩
  · refine isLine_of_head (c := 'C') ?_ (by simp) (by decide)
    simp +decide [unbroken_append, h.unbroken_twoPartName]
  · exact fun column hc => (h.columns column hc).isLine_written
  · exact fun key hk => (h.primaryKey key hk).isLine_written

theorem isLine_compression (compression : Compression) : IsLine (compressionClause compression ++ ";") := by
  cases compression <;> decide

theorem IsPlain.areLines_writtenCreation (h : table.IsPlain) :
    ∀ lines ∈ table.writtenCreation, AreLines lines := by
  have hlines := h.isLine_writtenLines
  have hne : table.writtenLines ≠ [] := by simp [writtenLines]
  have hcompression := isLine_compression table.compression
  unfold writtenCreation
  split
  · have hindex : IsLine table.columnStoreLine := by
      unfold columnStoreLine
      refine isLine_of_head (c := 'C') ?_ (by simp) (by decide)
      simp +decide [unbroken_append, h.unbroken_twoPartName, h.name.unbroken]
    rw [List.forall_mem_cons, List.forall_mem_singleton]
    refine ⟨⟨hne, hlines⟩, by simp, ?_⟩
    rw [List.forall_mem_cons, List.forall_mem_singleton]
    exact ⟨hindex, hcompression⟩
  · rw [List.forall_mem_singleton]
    refine ⟨by simp, ?_⟩
    rw [List.forall_mem_append, List.forall_mem_singleton]
    exact ⟨hlines, hcompression⟩

theorem IsPlain.areLines_writtenBatches (h : table.IsPlain) :
    ∀ lines ∈ table.writtenBatches, AreLines lines := by
  unfold writtenBatches
  rw [List.forall_mem_append, List.forall_mem_append, List.forall_mem_map]
  refine ⟨⟨h.areLines_writtenCreation, ?_⟩, ?_⟩
  · intro lines hl
    obtain ⟨key, hk, hl⟩ := List.mem_flatMap.1 hl
    refine ⟨?_, (h.foreignKeys key hk).isLine_written h.unbroken_twoPartName lines hl⟩
    rintro rfl
    simp [ForeignKey.written] at hl
  · intro index hi
    exact ⟨by simp [Index.written], (h.indexes index hi).isLine_written h.unbroken_twoPartName⟩

theorem twoPartName_inj (hf : first.IsPlain) (hs : second.IsPlain)
    (h : first.twoPartName = second.twoPartName) :
    first.schema = second.schema ∧ first.name = second.name := by
  have hwhole : first.ref.twoPartName ++ "" = second.ref.twoPartName ++ "" := congrArg (· ++ "") h
  obtain ⟨hschema, hname, -⟩ := TableRef.twoPartName_append_inj ⟨hf.schema, hf.name⟩
    ⟨hs.schema, hs.name⟩ hwhole
  exact ⟨hschema, hname⟩

/-- The second character tells a column from the primary key and from the closing bracket. -/
theorem IsPlain.mark_columns (h : table.IsPlain) :
    ∀ line ∈ table.columns.values.map Column.written, line.toList[1]? = some '[' := by
  rw [List.forall_mem_map]
  exact fun column hc => (h.columns column hc).mark_written

theorem mark_key (table : Table) :
    ∀ line ∈ table.primaryKey.toList.map PrimaryKey.written, line.toList.head? = some '\t' := by
  rw [List.forall_mem_map]
  exact fun key _ => key.marks_written.1

theorem mark_behind_columns (table : Table) (rest : List String) :
    ∀ line ∈ (table.primaryKey.toList.map PrimaryKey.written ++ ")" :: rest).head?,
      line.toList[1]? ≠ some '[' := by
  intro line hl
  cases hk : table.primaryKey with
  | none =>
    rw [hk] at hl
    obtain rfl := Option.some.inj hl
    decide
  | some key =>
    rw [hk] at hl
    obtain rfl := Option.some.inj hl
    rw [key.marks_written.2]
    decide

/-- The lines that create a table tell all that is in them, and where they end. -/
theorem writtenLines_append_inj (hf : first.IsPlain) (hs : second.IsPlain) {options options' : List String}
    (h : first.writtenLines ++ options = second.writtenLines ++ options') :
    first.twoPartName = second.twoPartName ∧
      first.columns.values.map Column.content = second.columns.values.map Column.content ∧
      first.primaryKey = second.primaryKey ∧ options = options' := by
  simp only [writtenLines, List.append_assoc, List.cons_append, List.nil_append, List.cons.injEq,
    String.append_right_inj, true_and] at h
  obtain ⟨hname, h⟩ := h
  obtain ⟨hcolumns, h⟩ := append_inj_of_forall hf.mark_columns hs.mark_columns (first.mark_behind_columns _)
    (second.mark_behind_columns _) h
  obtain ⟨hkeys, h⟩ := append_inj_of_forall first.mark_key second.mark_key (by simp) (by simp) h
  have hcontents := Column.tells_written.map _ _ hf.columns hs.columns hcolumns
  have hprimary := PrimaryKey.tells_written.map _ _ hf.primaryKey hs.primaryKey hkeys
  rw [List.map_id, List.map_id] at hprimary
  refine ⟨hname, hcontents, ?_, ?_⟩
  · simpa using congrArg List.head? hprimary
  · simpa using h

/-- Where compression is set tells which kind of table is created, and so do the batches behind it. -/
theorem writtenCreation_append_inj (hf : first.IsPlain) (hs : second.IsPlain)
    {rest rest' : List (List String)}
    (h : first.writtenCreation ++ rest = second.writtenCreation ++ rest') :
    first.twoPartName = second.twoPartName ∧
      first.columns.values.map Column.content = second.columns.values.map Column.content ∧
      first.primaryKey = second.primaryKey ∧ first.compression = second.compression ∧ rest = rest' := by
  unfold writtenCreation at h
  by_cases hstore : first.compression.isColumnStore = true
  · by_cases hstore' : second.compression.isColumnStore = true
    · rw [if_pos hstore, if_pos hstore'] at h
      simp only [List.cons_append, List.nil_append, List.cons.injEq, and_true] at h
      obtain ⟨hlines, ⟨-, hcompression⟩, hrest⟩ := h
      rw [String.append_left_inj] at hcompression
      obtain ⟨hname, hcolumns, hkey, -⟩ := writtenLines_append_inj hf hs (congrArg (· ++ []) hlines)
      exact ⟨hname, hcolumns, hkey, compressionClause_injective hcompression, hrest⟩
    · rw [if_pos hstore, if_neg hstore'] at h
      have hlines := (List.cons.inj h).1
      obtain ⟨-, -, -, hnone⟩ := writtenLines_append_inj hf hs ((List.append_nil _).trans hlines)
      simp at hnone
  · by_cases hstore' : second.compression.isColumnStore = true
    · rw [if_neg hstore, if_pos hstore'] at h
      have hlines := (List.cons.inj h).1
      obtain ⟨-, -, -, hnone⟩ := writtenLines_append_inj hf hs (hlines.trans (List.append_nil _).symm)
      simp at hnone
    · rw [if_neg hstore, if_neg hstore'] at h
      simp only [List.cons_append, List.nil_append, List.cons.injEq] at h
      obtain ⟨hlines, hrest⟩ := h
      obtain ⟨hname, hcolumns, hkey, hoptions⟩ := writtenLines_append_inj hf hs hlines
      rw [List.singleton_inj, String.append_left_inj] at hoptions
      exact ⟨hname, hcolumns, hkey, compressionClause_injective hoptions, hrest⟩

/-- A script of plain names and without triggers tells all that there is to see of its table. -/
theorem tells_written : Tells IsPlain written content := by
  intro first second hf hs h
  have hbatches : first.writtenBatches = second.writtenBatches := by
    apply tells_script _ _ hf.areLines_writtenBatches hs.areLines_writtenBatches
    simpa [written, hf.triggers, hs.triggers] using h
  unfold writtenBatches at hbatches
  rw [List.append_assoc, List.append_assoc] at hbatches
  obtain ⟨hplace, hcolumns, hkey, hcompression, hrest⟩ := writtenCreation_append_inj hf hs hbatches
  obtain ⟨hschema, hname⟩ := twoPartName_inj hf hs hplace
  rw [hplace] at hrest
  -- Foreign keys are altered in, indexes are created.
  have halter : ∀ (place : String) (keys : List ForeignKey),
      ∀ lines ∈ keys.flatMap (ForeignKey.written place), batchMark lines = some 'A' := by
    intro place keys lines hl
    obtain ⟨key, -, hl⟩ := List.mem_flatMap.1 hl
    exact key.mark_written place lines hl
  have hcreate : ∀ (place : String) (indexes : List Index),
      ∀ lines ∈ (indexes.map (Index.written place)).head?, batchMark lines ≠ some 'A' := by
    intro place indexes lines hl
    obtain ⟨index, -, rfl⟩ := List.mem_map.1 (List.mem_of_head? hl)
    rw [index.mark_written place]
    decide
  obtain ⟨hkeys, hindexes⟩ := append_inj_of_forall (halter _ _) (halter _ _) (hcreate _ _)
    (hcreate _ _) hrest
  have hforeign := (ForeignKey.tells_written second.twoPartName).flatMap (n := 1) (fun _ => rfl) _ _
    hf.foreignKeys hs.foreignKeys hkeys
  have hindex := (Index.tells_written second.twoPartName).map _ _ hf.indexes hs.indexes hindexes
  rw [List.map_id, List.map_id] at hindex
  unfold content
  rw [hschema, hname, hcompression, hcolumns, hkey, hforeign, hindex]

end Table

end DatabaseProject
