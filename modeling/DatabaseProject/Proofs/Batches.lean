import DatabaseProject.Proofs.Brackets
import DatabaseProject.Proofs.CodeUnits

/-!
# Batches of a script

A script is cut at every `GO` line and the blank line after it. Text that ends its lines and has no
`GO` line is cut back to itself wherever it stands as a batch, and so the script of a table gives its
batches again, unless a trigger brings a `GO` line of its own.
-/

namespace DatabaseProject

open Outcome

/-- The lines of a text; what follows the last line feed is a line as well. -/
def textLines (text : String) : List String := (text.toList.splitOn '\n').map String.ofList

/-- Lines without the blank one that they may begin with. -/
def dropBlank : List String → List String
  | "" :: rest => rest
  | lines => lines

/-- Cuts at every `GO` line and the blank line after it. -/
def cutLines (lines : List String) : List (List String) :=
  match lines.splitOn "GO" with
  | [] => []
  | first :: rest => first :: rest.map dropBlank

/-- The batches that a script is cut into, and what is left over behind the last `GO`. -/
def cutBatches (script : String) : List String × String :=
  let pieces := cutLines (textLines script)
  (pieces.dropLast.map unlines, "\n".intercalate (pieces.getLastD []))

/-- Text that can stand as a batch: it ends its last line and has no `GO` line. -/
def IsBatch (batch : String) : Prop := ∃ text, batch = text ++ "\n" ∧ "GO" ∉ textLines text

theorem textLines_append (text rest : String) :
    textLines (text ++ "\n" ++ rest) = textLines text ++ textLines rest := by
  unfold textLines
  rw [← List.map_append, ← List.splitOn_append_cons_self]
  simp

theorem textLines_ne_nil (text : String) : textLines text ≠ [] := by
  simp [textLines, List.splitOn_ne_nil]

theorem unlines_eq {lines : List String} (h : lines ≠ []) :
    unlines lines = "\n".intercalate lines ++ "\n" := by
  induction lines with
  | nil => exact absurd rfl h
  | cons line rest ih =>
    cases rest with
    | nil => simp [unlines]
    | cons next rest =>
      have hrest := ih (List.cons_ne_nil _ _)
      rw [String.intercalate_cons_cons, String.append_assoc, ← hrest]
      simp [unlines, String.append_assoc]

theorem unlines_textLines (text : String) : unlines (textLines text) = text ++ "\n" := by
  rw [unlines_eq (textLines_ne_nil text), ← String.toList_inj]
  simp [textLines, String.toList_intercalate, List.intercalate_splitOn]

/-- Texts that do not hold the character between them are cut apart at it. -/
theorem cut_intercalate (c : Char) {texts : List String} (hne : texts ≠ [])
    (h : ∀ text ∈ texts, c ∉ text.toList) :
    (((String.singleton c).intercalate texts).toList.splitOn c).map String.ofList = texts := by
  have hsplit : ([c].intercalate (texts.map String.toList)).splitOn c = texts.map String.toList := by
    apply List.splitOn_intercalate
    · simpa using h
    · simpa using hne
  rw [String.toList_intercalate, String.toList_singleton, hsplit]
  simp

theorem textLines_intercalate {lines : List String} (hne : lines ≠ [])
    (h : ∀ line ∈ lines, '\n' ∉ line.toList) : textLines ("\n".intercalate lines) = lines :=
  cut_intercalate '\n' hne h

theorem cutLines_ne_nil (lines : List String) : cutLines lines ≠ [] := by
  unfold cutLines
  split
  · rename_i h
    exact absurd h (List.splitOn_ne_nil _ _)
  · exact List.cons_ne_nil _ _

/-- The first `GO` line and the blank line after it end the first piece. -/
theorem cutLines_append {lines : List String} (h : "GO" ∉ lines) (rest : List String) :
    cutLines (lines ++ "GO" :: "" :: rest) = lines :: cutLines rest := by
  obtain ⟨first, more, hrest⟩ := List.exists_cons_of_ne_nil (List.splitOn_ne_nil "GO" rest)
  have hblank : ("" :: rest).splitOn "GO" = ("" :: first) :: more := by
    rw [List.splitOn_cons_eq_if_modifyHead, if_neg (by decide), hrest]
    rfl
  unfold cutLines
  rw [List.splitOn_append_cons_self_of_not_mem h, hblank, hrest]
  rfl

/-- A batch is cut off as it was written, and the script behind it is cut in the same way. -/
theorem cutBatches_append {batch : String} (h : IsBatch batch) (rest : String) :
    cutBatches (batch ++ batchEnd ++ rest) = (batch :: (cutBatches rest).1, (cutBatches rest).2) := by
  obtain ⟨text, rfl, hgo⟩ := h
  have hlines : textLines (text ++ "\n" ++ batchEnd ++ rest) =
      textLines text ++ "GO" :: "" :: textLines rest := by
    have hend : batchEnd = "GO" ++ "\n" ++ ("" ++ "\n") := rfl
    rw [hend, String.append_assoc, textLines_append, String.append_assoc, textLines_append,
      textLines_append]
    rfl
  obtain ⟨piece, pieces, hp⟩ := List.exists_cons_of_ne_nil (cutLines_ne_nil (textLines rest))
  unfold cutBatches
  rw [hlines, cutLines_append hgo, hp]
  simp [unlines_textLines]

/-- Batches that are put together to a script are cut apart again, with nothing left over. -/
theorem cutBatches_joinBatches {batches : List String} (h : ∀ batch ∈ batches, IsBatch batch) :
    cutBatches (joinBatches batches) = (batches, "") := by
  induction batches with
  | nil => rfl
  | cons batch rest ih =>
    rw [List.forall_mem_cons] at h
    have hjoin : joinBatches (batch :: rest) = batch ++ batchEnd ++ joinBatches rest := by
      simp [joinBatches]
    rw [hjoin, cutBatches_append h.1, ih h.2]

/-- Text without a line feed. -/
def Unbroken (text : String) : Prop := '\n' ∉ text.toList

instance (text : String) : Decidable (Unbroken text) := inferInstanceAs (Decidable ('\n' ∉ text.toList))

/-- A line that ends no batch. -/
def IsLine (line : String) : Prop := Unbroken line ∧ line ≠ "GO"

instance (line : String) : Decidable (IsLine line) :=
  inferInstanceAs (Decidable (Unbroken line ∧ line ≠ "GO"))

theorem unbroken_append {text rest : String} :
    Unbroken (text ++ rest) ↔ Unbroken text ∧ Unbroken rest := by
  simp [Unbroken]

theorem unbroken_intercalate {separator : String} {texts : List String} (hs : Unbroken separator)
    (h : ∀ text ∈ texts, Unbroken text) : Unbroken (separator.intercalate texts) := by
  induction texts with
  | nil => simp [Unbroken]
  | cons text rest ih =>
    rw [List.forall_mem_cons] at h
    cases rest with
    | nil => simpa using h.1
    | cons next rest =>
      rw [String.intercalate_cons_cons, unbroken_append, unbroken_append]
      exact ⟨⟨h.1, hs⟩, ih h.2⟩

theorem unbroken_bracketed {name text : String} (h : bracketed name = .ok text) (hn : Unbroken name) :
    Unbroken text := by
  unfold bracketed Identifier.bracket? at h
  split at h
  · rename_i hb
    split at hb
    · cases hb
    · split at hb
      · cases hb; cases h; exact hn
      · cases hb; cases h; simpa [Unbroken] using hn
  · cases h

theorem unbroken_bracketedList {names : List String} {text : String}
    (h : bracketedList names = .ok text) (hn : ∀ name ∈ names, Unbroken name) : Unbroken text := by
  obtain ⟨texts, ht, htext⟩ := bind_eq_ok.1 h
  rw [pure_eq_ok] at htext
  rw [← htext]
  apply unbroken_intercalate (by simp [Unbroken])
  intro text hmem
  obtain ⟨name, hname, hb⟩ := (mem_mapM ht).1 hmem
  exact unbroken_bracketed hb (hn name hname)

theorem unbroken_twoPartName {ref : TableRef} (hs : Unbroken ref.schema) (ht : Unbroken ref.table) :
    Unbroken ref.twoPartName := by
  simp_all [Unbroken, TableRef.twoPartName]

theorem unbroken_shorten {identifier : String} (h : Unbroken identifier) :
    Unbroken (Identifier.shorten identifier) := by
  intro hc
  rcases Identifier.mem_shorten hc (by decide) with hc | hc | hc | hc
  · exact h hc
  · exact absurd hc (by decide)
  · exact absurd hc (by decide)
  · exact absurd hc (by decide)

theorem mem_maxLengths {c : Char} {chars : List Char} (h : c ∈ Column.maxLengths chars) :
    c ∈ chars ∨ c ∈ ['M', 'A', 'X'] := by
  induction chars using Column.maxLengths.induct with
  | case1 rest ih =>
    simp only [Column.maxLengths, List.mem_cons] at h ⊢
    grind
  | case2 d rest hnot ih =>
    rw [Column.maxLengths.eq_2 _ _ hnot, List.mem_cons] at h
    rw [List.mem_cons]
    rcases h with rfl | h
    · exact .inl (.inl rfl)
    · exact (ih h).imp_left .inr
  | case3 => cases h

theorem unbroken_sqlType {column : Column} (h : Unbroken column.dataType) : Unbroken column.sqlType := by
  intro hc
  rw [Column.sqlType, String.toList_ofList] at hc
  rcases mem_maxLengths hc with hc | hc
  · exact h hc
  · exact absurd hc (by decide)

theorem unbroken_compressionClause (compression : Compression) :
    Unbroken (compressionClause compression) := by
  cases compression <;> decide

theorem unbroken_clusteringWord (clustered : Bool) : Unbroken (clusteringWord clustered) := by
  cases clustered <;> decide

theorem isLine_of_head {line : String} {c : Char} (h : Unbroken line) (hc : line.toList.head? = some c)
    (hg : c ≠ 'G') : IsLine line := by
  refine ⟨h, ?_⟩
  rintro rfl
  exact hg (Option.some.inj hc).symm

theorem isBatch_unlines {lines : List String} (hne : lines ≠ []) (h : ∀ line ∈ lines, IsLine line) :
    IsBatch (unlines lines) := by
  refine ⟨"\n".intercalate lines, unlines_eq hne, ?_⟩
  rw [textLines_intercalate hne fun line hl => (h line hl).1]
  intro hgo
  exact (h _ hgo).2 rfl

theorem Column.isLine_line {column : Column} {line : String} (h : column.line = .ok line)
    (hn : Unbroken column.name) (ht : Unbroken column.dataType) : IsLine line := by
  obtain ⟨name, hname, hline⟩ := bind_eq_ok.1 h
  rw [pure_eq_ok] at hline
  have hb := unbroken_bracketed hname hn
  have hs := unbroken_sqlType ht
  rw [← hline]
  refine isLine_of_head (c := '\t') ?_ (by simp) (by decide)
  cases column.nullable <;> simp +decide [unbroken_append, hb, hs]

theorem PrimaryKey.isLine_line {key : PrimaryKey} {line : String} (h : key.line = .ok line)
    (hn : ∀ name ∈ key.scriptNames, Unbroken name) : IsLine line := by
  obtain ⟨name, hname, h⟩ := bind_eq_ok.1 h
  obtain ⟨columns, hcolumns, hline⟩ := bind_eq_ok.1 h
  rw [pure_eq_ok] at hline
  have hb := unbroken_bracketed hname (hn _ List.mem_cons_self)
  have hl := unbroken_bracketedList hcolumns fun column hc => hn _ (List.mem_cons_of_mem _ hc)
  rw [← hline]
  refine isLine_of_head (c := '\t') ?_ (by simp) (by decide)
  simp +decide [unbroken_append, hb, hl, unbroken_clusteringWord, unbroken_compressionClause]

namespace ForeignKey

/-- The texts that the batches of a foreign key write. -/
def writtenTexts (key : ForeignKey) : List String :=
  [key.name, key.referencedTable.schema, key.referencedTable.table] ++ key.scriptNames

/-- The two statements of a foreign key of a table: the first adds the constraint and the second, of
the same constraint, switches it off for existing rows. -/
def WrittenAs (table : String) (key : ForeignKey) (statements : List String) : Prop :=
  ∃ columns referenced, bracketedList key.columns = .ok columns ∧
    bracketedList key.referencedColumns = .ok referenced ∧ statements = [
      unlines [
        "ALTER TABLE " ++ table ++ " ADD CONSTRAINT " ++ Identifier.shorten key.name
          ++ " FOREIGN KEY (" ++ columns ++ ")",
        "REFERENCES " ++ key.referencedTable.twoPartName ++ " (" ++ referenced ++ ");"],
      unlines ["ALTER TABLE " ++ table ++ " NOCHECK CONSTRAINT " ++ Identifier.shorten key.name ++ ";"]]

theorem writtenAs_of_batches {table : String} {key : ForeignKey} {statements : List String}
    (h : key.batches table = .ok statements) : key.WrittenAs table statements := by
  obtain ⟨columns, hcolumns, h⟩ := bind_eq_ok.1 h
  obtain ⟨referenced, hreferenced, hs⟩ := bind_eq_ok.1 h
  exact ⟨columns, referenced, hcolumns, hreferenced, (pure_eq_ok.1 hs).symm⟩

theorem WrittenAs.isBatch {table : String} {key : ForeignKey} {statements : List String}
    (h : key.WrittenAs table statements) (ht : Unbroken table)
    (hn : ∀ text ∈ key.writtenTexts, Unbroken text) : ∀ batch ∈ statements, IsBatch batch := by
  obtain ⟨columns, referenced, hcolumns, hreferenced, rfl⟩ := h
  have hname : Unbroken (Identifier.shorten key.name) := unbroken_shorten (hn _ (by simp [writtenTexts]))
  have htarget : Unbroken key.referencedTable.twoPartName :=
    unbroken_twoPartName (hn _ (by simp [writtenTexts])) (hn _ (by simp [writtenTexts]))
  have hc := unbroken_bracketedList hcolumns fun column hm =>
    hn _ (by simp [writtenTexts, scriptNames, hm])
  have hr := unbroken_bracketedList hreferenced fun column hm =>
    hn _ (by simp [writtenTexts, scriptNames, hm])
  rw [List.forall_mem_cons, List.forall_mem_singleton]
  constructor
  · apply isBatch_unlines (by simp)
    rw [List.forall_mem_cons, List.forall_mem_singleton]
    constructor
    · refine isLine_of_head (c := 'A') ?_ (by simp) (by decide)
      simp +decide [unbroken_append, ht, hname, hc]
    · refine isLine_of_head (c := 'R') ?_ (by simp) (by decide)
      simp +decide [unbroken_append, htarget, hr]
  · apply isBatch_unlines (by simp)
    rw [List.forall_mem_singleton]
    refine isLine_of_head (c := 'A') ?_ (by simp) (by decide)
    simp +decide [unbroken_append, ht, hname]

end ForeignKey

theorem IndexColumn.unbroken_text {column : IndexColumn} {text : String} (h : column.text = .ok text)
    (hn : Unbroken column.name) : Unbroken text := by
  obtain ⟨name, hname, htext⟩ := bind_eq_ok.1 h
  rw [pure_eq_ok] at htext
  have hb := unbroken_bracketed hname hn
  rw [← htext]
  cases column.order <;> simp +decide [unbroken_append, hb, SortOrder.name]

namespace Index

/-- The line of the included columns; an index that includes none has no such line. -/
def IncludesAs (index : Index) (lines : List String) : Prop :=
  index.includes = [] ∧ lines = [] ∨
    index.includes ≠ [] ∧ ∃ names, bracketedList index.includes = .ok names ∧
      lines = ["INCLUDE (" ++ names ++ ")"]

/-- The statement that creates an index on a table. -/
def WrittenAs (table : String) (index : Index) (statement : String) : Prop :=
  ∃ name columns includes, bracketed index.name = .ok name ∧
    index.columns.mapM IndexColumn.text = .ok columns ∧ index.IncludesAs includes ∧
    statement = unlines (
      ["CREATE " ++ (if index.unique then "UNIQUE " else "")
          ++ (if index.clustered then "CLUSTERED" else "NONCLUSTERED") ++ " INDEX " ++ name,
        "ON " ++ table ++ " (" ++ ", ".intercalate columns ++ ")"]
      ++ includes
      ++ ["WITH (DATA_COMPRESSION = " ++ index.compression.name ++ ")", "ON [PRIMARY];"])

theorem writtenAs_of_statement {table : String} {index : Index} {statement : String}
    (h : index.statement table = .ok statement) : index.WrittenAs table statement := by
  obtain ⟨columns, hcolumns, h⟩ := bind_eq_ok.1 h
  obtain ⟨name, hname, h⟩ := bind_eq_ok.1 h
  dsimp only at h
  split at h
  · rename_i hempty
    exact ⟨name, columns, [], hname, hcolumns, .inl ⟨List.isEmpty_iff.1 hempty, rfl⟩,
      (pure_eq_ok.1 h).symm⟩
  · rename_i hsome
    obtain ⟨names, hnames, h⟩ := bind_eq_ok.1 h
    refine ⟨name, columns, _, hname, hcolumns, .inr ⟨?_, names, hnames, rfl⟩, (pure_eq_ok.1 h).symm⟩
    rwa [List.isEmpty_iff] at hsome

theorem IncludesAs.isLine {index : Index} {lines : List String} (h : index.IncludesAs lines)
    (hn : ∀ name ∈ index.includes, Unbroken name) : ∀ line ∈ lines, IsLine line := by
  rcases h with ⟨-, rfl⟩ | ⟨-, names, hnames, rfl⟩
  · exact fun line hl => absurd hl List.not_mem_nil
  · have hb := unbroken_bracketedList hnames hn
    rw [List.forall_mem_singleton]
    refine isLine_of_head (c := 'I') ?_ (by simp) (by decide)
    simp +decide [unbroken_append, hb]

theorem WrittenAs.isBatch {table : String} {index : Index} {statement : String}
    (h : index.WrittenAs table statement) (ht : Unbroken table)
    (hn : ∀ name ∈ index.scriptNames, Unbroken name) : IsBatch statement := by
  obtain ⟨name, columns, includes, hname, hcolumns, hincludes, rfl⟩ := h
  have hb := unbroken_bracketed hname (hn _ (by simp [scriptNames]))
  have hc : Unbroken (", ".intercalate columns) := by
    apply unbroken_intercalate (by decide)
    intro text hm
    obtain ⟨column, hmem, htext⟩ := (mem_mapM hcolumns).1 hm
    exact column.unbroken_text htext (hn _ (List.mem_append_left _ (List.mem_map_of_mem hmem)))
  have hi := hincludes.isLine fun column hm => hn _ (by simp [scriptNames, hm])
  apply isBatch_unlines (by simp)
  rw [List.forall_mem_append, List.forall_mem_append]
  refine ⟨⟨?_, hi⟩, ?_⟩
  · rw [List.forall_mem_cons, List.forall_mem_singleton]
    constructor
    · refine isLine_of_head (c := 'C') ?_ (by simp) (by decide)
      cases index.unique <;> cases index.clustered <;> simp +decide [unbroken_append, hb]
    · refine isLine_of_head (c := 'O') ?_ (by simp) (by decide)
      simp +decide [unbroken_append, ht, hc]
  · rw [List.forall_mem_cons, List.forall_mem_singleton]
    cases index.compression <;> decide

end Index

namespace Table

/-- The names and type texts that the script of a table writes. -/
def writtenTexts (table : Table) : List String :=
  [table.schema, table.name] ++ table.columns.values.map (·.dataType)
    ++ table.foreignKeys.flatMap ForeignKey.writtenTexts ++ table.scriptNames

/-- The batches that create a table: one line for each column in order, then the line of the primary
key if there is one. A columnstore has its index in a batch of its own, which then sets the
compression. -/
inductive CreatedBy (table : Table) : List String → Prop
  | rows {columns key : List String} (hs : table.compression.isColumnStore = false)
      (hc : List.Forall₂ (fun column line => column.line = .ok line) table.columns.values columns)
      (hk : List.Forall₂ (fun key line => key.line = .ok line) table.primaryKey.toList key) :
      CreatedBy table [
        unlines (["CREATE TABLE " ++ table.twoPartName, "("] ++ columns ++ key ++ [")", "ON [PRIMARY]",
          "WITH (DATA_COMPRESSION = " ++ table.compression.name ++ ");"])]
  | columnStore {columns key : List String} (hs : table.compression.isColumnStore = true)
      (hc : List.Forall₂ (fun column line => column.line = .ok line) table.columns.values columns)
      (hk : List.Forall₂ (fun key line => key.line = .ok line) table.primaryKey.toList key) :
      CreatedBy table [
        unlines (["CREATE TABLE " ++ table.twoPartName, "("] ++ columns ++ key ++ [")", "ON [PRIMARY]"]),
        unlines ["CREATE CLUSTERED COLUMNSTORE INDEX CCSIX_" ++ table.name ++ " ON " ++ table.twoPartName,
          "WITH (DATA_COMPRESSION = " ++ table.compression.name ++ ");"]]

variable {table : Table}

theorem compressionClause_end (compression : Compression) :
    compressionClause compression ++ ";" = "WITH (DATA_COMPRESSION = " ++ compression.name ++ ");" := by
  cases compression <;> rfl

theorem createdBy_of_creationBatches {creation : List String}
    (h : table.creationBatches = .ok creation) : table.CreatedBy creation := by
  obtain ⟨lines, hlines, h⟩ := bind_eq_ok.1 h
  obtain ⟨columns, hcolumns, hlines⟩ := bind_eq_ok.1 hlines
  obtain ⟨key, hkey, hlines⟩ := bind_eq_ok.1 hlines
  rw [pure_eq_ok] at h hlines
  rw [mapM_eq_ok] at hcolumns hkey
  rw [← h, ← hlines, compressionClause_end]
  split
  · rename_i hs
    exact .columnStore hs hcolumns hkey
  · rename_i hs
    have hcreated := CreatedBy.rows (Bool.eq_false_of_not_eq_true hs) hcolumns hkey
    rwa [List.append_assoc]

theorem unbroken_names (hn : ∀ text ∈ table.writtenTexts, Unbroken text) :
    Unbroken table.name ∧ Unbroken table.twoPartName := by
  have hname : Unbroken table.name := hn _ (by simp [writtenTexts])
  exact ⟨hname, unbroken_twoPartName (hn table.schema (by simp [writtenTexts])) hname⟩

/-- The lines that create a table, up to the closing bracket. -/
theorem isLine_creation {columns key : List String} (hn : ∀ text ∈ table.writtenTexts, Unbroken text)
    (hc : List.Forall₂ (fun column line => column.line = .ok line) table.columns.values columns)
    (hk : List.Forall₂ (fun key line => key.line = .ok line) table.primaryKey.toList key) :
    ∀ line ∈ ["CREATE TABLE " ++ table.twoPartName, "("] ++ columns ++ key, IsLine line := by
  rw [List.forall_mem_append, List.forall_mem_append, List.forall_mem_cons, List.forall_mem_singleton]
  refine ⟨⟨⟨?_, by decide⟩, ?_⟩, ?_⟩
  · refine isLine_of_head (c := 'C') ?_ (by simp) (by decide)
    simp +decide [unbroken_append, unbroken_names hn]
  · intro line hl
    obtain ⟨column, hm, hline⟩ := exists_left_of_forall₂ hc hl
    exact column.isLine_line hline (hn _ (by simp [writtenTexts, scriptNames, List.mem_map_of_mem hm]))
      (hn _ (by simp [writtenTexts, List.mem_map_of_mem hm]))
  · intro line hl
    obtain ⟨key, hm, hline⟩ := exists_left_of_forall₂ hk hl
    have hnames : key.scriptNames ⊆ table.scriptNames := by
      intro name hname
      simp only [scriptNames, List.mem_append, List.mem_flatMap]
      exact .inl (.inl (.inr ⟨key, hm, hname⟩))
    exact key.isLine_line hline fun name hname => hn _ (List.mem_append_right _ (hnames hname))

theorem CreatedBy.isBatch {creation : List String} (h : table.CreatedBy creation)
    (hn : ∀ text ∈ table.writtenTexts, Unbroken text) : ∀ batch ∈ creation, IsBatch batch := by
  have hcompression : IsLine ("WITH (DATA_COMPRESSION = " ++ table.compression.name ++ ");") := by
    cases table.compression <;> decide
  cases h with
  | rows hs hc hk =>
    rw [List.forall_mem_singleton]
    apply isBatch_unlines (by simp)
    rw [List.forall_mem_append, List.forall_mem_cons, List.forall_mem_cons, List.forall_mem_singleton]
    exact ⟨isLine_creation hn hc hk, by decide, by decide, hcompression⟩
  | columnStore hs hc hk =>
    rw [List.forall_mem_cons, List.forall_mem_singleton]
    constructor
    · apply isBatch_unlines (by simp)
      rw [List.forall_mem_append, List.forall_mem_cons, List.forall_mem_singleton]
      exact ⟨isLine_creation hn hc hk, by decide, by decide⟩
    · apply isBatch_unlines (by simp)
      rw [List.forall_mem_cons, List.forall_mem_singleton]
      refine ⟨isLine_of_head (c := 'C') ?_ (by simp) (by decide), hcompression⟩
      simp +decide [unbroken_append, unbroken_names hn]

/-- The script of a table is cut into its statements, with nothing left over: what creates the table,
two statements for each foreign key, one for each index, and the triggers as they are. The names and
types have no line feed, and no trigger has a `GO` line; its blank lines stay. -/
theorem script_cuts_into_statements {text : String} (h : table.script = .ok text)
    (hn : ∀ name ∈ table.writtenTexts, '\n' ∉ name.toList)
    (ht : ∀ trigger ∈ table.triggers, "GO" ∉ textLines trigger) :
    ∃ creation keys indexes, table.CreatedBy creation ∧
      List.Forall₂ (ForeignKey.WrittenAs table.twoPartName) table.foreignKeys keys ∧
      List.Forall₂ (Index.WrittenAs table.twoPartName) table.indexes indexes ∧
      cutBatches text =
        (creation ++ keys.flatten ++ indexes ++ table.triggers.map (· ++ "\n"), "") := by
  obtain ⟨batches, hbatches, h⟩ := bind_eq_ok.1 h
  obtain ⟨creation, hcreation, hbatches⟩ := bind_eq_ok.1 hbatches
  obtain ⟨keys, hkeys, hbatches⟩ := bind_eq_ok.1 hbatches
  obtain ⟨indexes, hindexes, hbatches⟩ := bind_eq_ok.1 hbatches
  rw [pure_eq_ok] at h hbatches
  rw [mapM_eq_ok] at hkeys hindexes
  have hcreated := createdBy_of_creationBatches hcreation
  have hkeyStatements := hkeys.imp fun _ _ => ForeignKey.writtenAs_of_batches
  have hindexStatements := hindexes.imp fun _ _ => Index.writtenAs_of_statement
  refine ⟨creation, keys, indexes, hcreated, hkeyStatements, hindexStatements, ?_⟩
  rw [← h, ← hbatches]
  apply cutBatches_joinBatches
  simp only [List.forall_mem_append]
  refine ⟨⟨⟨hcreated.isBatch hn, ?_⟩, ?_⟩, ?_⟩
  · intro batch hm
    obtain ⟨statements, hs, hm⟩ := List.mem_flatten.1 hm
    obtain ⟨key, hk, hw⟩ := exists_left_of_forall₂ hkeyStatements hs
    refine hw.isBatch (unbroken_names hn).2 (fun name hname => hn _ ?_) batch hm
    simp only [writtenTexts, List.mem_append, List.mem_flatMap]
    exact .inl (.inr ⟨key, hk, hname⟩)
  · intro batch hm
    obtain ⟨index, hi, hw⟩ := exists_left_of_forall₂ hindexStatements hm
    refine hw.isBatch (unbroken_names hn).2 fun name hname => hn _ ?_
    simp only [writtenTexts, scriptNames, List.mem_append, List.mem_flatMap]
    exact .inr (.inr ⟨index, hi, hname⟩)
  · intro batch hm
    obtain ⟨trigger, htrigger, rfl⟩ := List.mem_map.1 hm
    exact ⟨trigger, rfl, ht trigger htrigger⟩

/-- A columnstore with a key, an index and a trigger between blank lines, one line of which has a
blank behind its `GO`. -/
def archivedShipments : Table where
  database := "Shop"
  schema := "dbo"
  name := "Shipment"
  compression := .columnStoreArchive
  columns := .ofList [("Id", ⟨"Id", "int", false, -1, -1, -1, none⟩),
    ("Note", ⟨"Note", "nvarchar(-1)", true, -1, -1, -1, none⟩)]
  primaryKey := some ⟨"PK_Shipment", false, .none, ["Id"]⟩
  foreignKeys := [⟨"[FK_Shipment_Order_Id]", ["Id"], ⟨"Shop", "dbo", "Order"⟩, ["Id"]⟩]
  indexes := [⟨"IX_Note", false, false, .none, [⟨"Note", .asc⟩], ["Id"]⟩]
  triggers := ["\n\nCREATE TRIGGER t\nGO \n"]

theorem archived_shipments_script_cuts :
    ∃ text, archivedShipments.script = .ok text ∧
      (∀ name ∈ archivedShipments.writtenTexts, '\n' ∉ name.toList) ∧
      (∀ trigger ∈ archivedShipments.triggers, "GO" ∉ textLines trigger) ∧
      ∃ creation keys indexes, archivedShipments.CreatedBy creation ∧
        List.Forall₂ (ForeignKey.WrittenAs "[dbo].[Shipment]") archivedShipments.foreignKeys keys ∧
        List.Forall₂ (Index.WrittenAs "[dbo].[Shipment]") archivedShipments.indexes indexes ∧
        cutBatches text =
          (creation ++ keys.flatten ++ indexes ++ ["\n\nCREATE TRIGGER t\nGO \n\n"], "") := by
  have hnames : ∀ name ∈ archivedShipments.writtenTexts, '\n' ∉ name.toList := by decide
  have htriggers : ∀ trigger ∈ archivedShipments.triggers, "GO" ∉ textLines trigger := by decide
  have hscript := archivedShipments.brackets_script
  have hnone : archivedShipments.scriptNames.find? Identifier.isHalfBracketed = none := by decide
  rw [Brackets, hnone] at hscript
  obtain ⟨text, h⟩ := hscript
  exact ⟨text, h, hnames, htriggers, script_cuts_into_statements h hnames htriggers⟩

end Table

end DatabaseProject
