import DatabaseProject.Database
import DatabaseProject.Identifier

/-!
# Scripts

A script is a sequence of batches, each ended by a `GO` line and a blank line; a batch is text of
whole lines. The script of a table creates it and then adds its foreign keys, indexes and triggers.
Writing a script fails only at a name with one bracket.
-/

namespace DatabaseProject

/-- A name in brackets, as scripts write it. -/
def bracketed (name : String) : Except GenerationError String :=
  match Identifier.bracket? name with
  | some text => .ok text
  | none => .error (.halfBracketed name)

/-- Names in brackets, with commas between them. -/
def bracketedList (names : List String) : Except GenerationError String := do
  return ", ".intercalate (← names.mapM bracketed)

/-- Each line with its line feed. -/
def unlines (lines : List String) : String := String.join (lines.map (· ++ "\n"))

/-- What ends a batch. -/
def batchEnd : String := "GO\n\n"

/-- The script of batches. -/
def joinBatches (batches : List String) : String := String.join (batches.map (· ++ batchEnd))

/-- The word for the storage order of a key or an index. -/
def clusteringWord (clustered : Bool) : String :=
  if clustered then "CLUSTERED" else "NONCLUSTERED"

/-- The clause that sets compression. -/
def compressionClause (compression : Compression) : String :=
  "WITH (DATA_COMPRESSION = " ++ compression.name ++ ")"

/-- The line of a column inside its table. -/
def Column.line (column : Column) : Except GenerationError String := do
  let name ← bracketed column.name
  return "\t" ++ name ++ " " ++ column.sqlType ++ " "
    ++ (if column.nullable then "NULL" else "NOT NULL") ++ ","

/-- The line of a primary key inside its table. -/
def PrimaryKey.line (key : PrimaryKey) : Except GenerationError String := do
  let name ← bracketed key.name
  let columns ← bracketedList key.columns
  return "\tCONSTRAINT " ++ name ++ " PRIMARY KEY " ++ clusteringWord key.clustered
    ++ " (" ++ columns ++ ") " ++ compressionClause key.compression

/-- The batches that add a foreign key to a table and switch it off for existing rows. -/
def ForeignKey.batches (table : String) (key : ForeignKey) :
    Except GenerationError (List String) := do
  let name := Identifier.shorten key.name
  let columns ← bracketedList key.columns
  let referenced ← bracketedList key.referencedColumns
  return [
    unlines [
      "ALTER TABLE " ++ table ++ " ADD CONSTRAINT " ++ name ++ " FOREIGN KEY (" ++ columns ++ ")",
      "REFERENCES " ++ key.referencedTable.twoPartName ++ " (" ++ referenced ++ ");"],
    unlines ["ALTER TABLE " ++ table ++ " NOCHECK CONSTRAINT " ++ name ++ ";"]]

/-- A key column of an index with its order. -/
def IndexColumn.text (column : IndexColumn) : Except GenerationError String := do
  return (← bracketed column.name) ++ " " ++ column.order.name

/-- The statement that creates an index on a table. -/
def Index.statement (table : String) (index : Index) : Except GenerationError String := do
  let columns ← index.columns.mapM IndexColumn.text
  let name ← bracketed index.name
  let includes ← if index.includes.isEmpty then pure []
    else do pure ["INCLUDE (" ++ (← bracketedList index.includes) ++ ")"]
  return unlines (
    ["CREATE " ++ (if index.unique then "UNIQUE " else "") ++ clusteringWord index.clustered
        ++ " INDEX " ++ name,
      "ON " ++ table ++ " (" ++ ", ".intercalate columns ++ ")"]
    ++ includes
    ++ [compressionClause index.compression, "ON [PRIMARY];"])

namespace Table

/-- Schema and table in brackets. -/
def twoPartName (table : Table) : String := table.ref.twoPartName

/-- The lines that create a table, up to its storage options. -/
def creationLines (table : Table) : Except GenerationError (List String) := do
  let columns ← table.columns.values.mapM Column.line
  let primaryKey ← table.primaryKey.toList.mapM PrimaryKey.line
  return ["CREATE TABLE " ++ table.twoPartName, "("] ++ columns ++ primaryKey
    ++ [")", "ON [PRIMARY]"]

/-- The line that makes a table a columnstore. -/
def columnStoreLine (table : Table) : String :=
  "CREATE CLUSTERED COLUMNSTORE INDEX CCSIX_" ++ table.name ++ " ON " ++ table.twoPartName

/-- The batches that create a table; a columnstore index carries the compression itself. -/
def creationBatches (table : Table) : Except GenerationError (List String) := do
  let lines ← table.creationLines
  let compression := compressionClause table.compression ++ ";"
  return if table.compression.isColumnStore then
    [unlines lines, unlines [table.columnStoreLine, compression]]
  else [unlines (lines ++ [compression])]

/-- The batches of a table's script. -/
def batches (table : Table) : Except GenerationError (List String) := do
  let creation ← table.creationBatches
  let foreignKeys ← table.foreignKeys.mapM (ForeignKey.batches table.twoPartName)
  let indexes ← table.indexes.mapM (Index.statement table.twoPartName)
  return creation ++ foreignKeys.flatten ++ indexes ++ table.triggers.map (· ++ "\n")

/-- The script of a table. -/
def script (table : Table) : Except GenerationError String := return joinBatches (← table.batches)

end Table

/-- A script and its place below the folder of its database. -/
structure ScriptFile where
  path : Path
  content : String
  deriving DecidableEq, Repr

namespace Schema

def script (schema : Schema) : String :=
  "CREATE SCHEMA [" ++ schema.name ++ "] AUTHORIZATION " ++ schema.owner ++ ";"

def scriptPath (schema : Schema) : Path := Path.join ⟨"Security"⟩ ⟨schema.name ++ ".sql"⟩

/-- The script that creates the schema. -/
def scriptFile (schema : Schema) : ScriptFile := ⟨schema.scriptPath, schema.script⟩

end Schema

/-- The folder of a category of objects in a schema. -/
def ObjectKind.folderPath (kind : ObjectKind) (schema : String) : Path :=
  Path.join ⟨schema⟩ ⟨kind.folder⟩

namespace DatabaseObject

/-- The script of an object: built for a table, the statement as declared for all others. -/
def script : DatabaseObject → Except GenerationError String
  | .table t => t.script
  | .view o | .function o | .procedure o => .ok o.statement

def scriptPath (object : DatabaseObject) : Path :=
  (object.kind.folderPath object.schema).join ⟨object.name ++ ".sql"⟩

/-- The script that creates the object. -/
def scriptFile (object : DatabaseObject) : Except GenerationError ScriptFile := do
  return ⟨object.scriptPath, ← object.script⟩

end DatabaseObject

/-- All scripts of a database: its schemas, then its objects. -/
def Database.scripts (db : Database) : Except GenerationError (List ScriptFile) := do
  return db.schemas.values.map Schema.scriptFile ++ (← db.objects.mapM DatabaseObject.scriptFile)

end DatabaseProject
