import DatabaseProject.Column
import DatabaseProject.OrderedMap

/-!
# Tables

A table as it is built from its declaration: columns in order, keys and indexes that name them,
and trigger statements. `Table.build` takes the declaration's columns one after the other, then
checks the columns that the primary key and the indexes name. The first fault ends the building.
-/

namespace DatabaseProject

structure PrimaryKey where
  name : String
  clustered : Bool
  compression : Compression
  columns : List String
  deriving DecidableEq, Repr

/-- A foreign key; its k-th column refers to the k-th referenced column. -/
structure ForeignKey where
  /-- The constraint name in brackets, of any length. -/
  name : String
  columns : List String
  referencedTable : TableRef
  referencedColumns : List String
  deriving DecidableEq, Repr

structure Table where
  database : String
  schema : String
  name : String
  compression : Compression
  columns : NameMap Column
  primaryKey : Option PrimaryKey
  foreignKeys : List ForeignKey
  indexes : List Index
  triggers : List String
  deriving DecidableEq

namespace Table

def ref (table : Table) : TableRef := ⟨table.database, table.schema, table.name⟩

/-- The column of a name. -/
def column (table : Table) (name : String) : Except GenerationError Column :=
  match table.columns.get? name with
  | some column => .ok column
  | none => .error (.unknownColumn (table.ref.column name))

end Table

/-- The constraint name of a foreign key: the tables' names and the name of the column or group. -/
def ForeignKey.nameFor (table target name : String) : String :=
  "[FK_" ++ table ++ "_" ++ target ++ "_" ++ name ++ "]"

/-- A foreign key in the making, with its group name when it may take more columns. -/
structure ForeignKeyDraft where
  group : Option String
  key : ForeignKey
  deriving DecidableEq

/-- The columns of a table built so far, and the foreign keys that they make. -/
structure TableDraft where
  columns : NameMap Column
  foreignKeys : List ForeignKeyDraft
  deriving DecidableEq

namespace TableDraft

def empty : TableDraft := ⟨∅, []⟩

/-- Appends a pair of columns to every key of a group. -/
def extendGroup (group column referenced : String) (draft : ForeignKeyDraft) : ForeignKeyDraft :=
  if draft.group = some group then
    { draft with key := { draft.key with
        columns := draft.key.columns ++ [column]
        referencedColumns := draft.key.referencedColumns ++ [referenced] } }
  else draft

/-- Adds a pair of columns to the key of its group: to the key that the group has, which must
refer to the same table, or to a new key. -/
def joinGroup (table : TableRef) (target : TableRef) (decl : GroupedColumnDecl)
    (keys : List ForeignKeyDraft) : Except GenerationError (List ForeignKeyDraft) :=
  match keys.find? fun draft => draft.group = some decl.group with
  | none =>
    .ok (keys ++ [⟨some decl.group, ⟨ForeignKey.nameFor table.table decl.table decl.group,
      [decl.name], target, [decl.column]⟩⟩])
  | some draft =>
    if draft.key.referencedTable = target then
      .ok (keys.map (extendGroup decl.group decl.name decl.column))
    else
      .error (.invalidDefinition (.mixedGroup table draft.key.referencedTable target decl.group))

/-- The column of a declaration, and the foreign keys with its part in them. -/
def build (table : TableRef) (resolve : ColumnResolver) (keys : List ForeignKeyDraft) :
    ColumnDecl → Except GenerationError (Column × List ForeignKeyDraft)
  | .plain decl => do
    let column ← Column.ofDecl table decl
    return (column, keys)
  | .foreignKey decl => do
    let target : TableRef := ⟨table.database, decl.schema, decl.table⟩
    let referenced ← resolve (target.column decl.column)
    let key : ForeignKey := ⟨ForeignKey.nameFor table.table decl.table decl.name,
      [decl.name], target, [decl.column]⟩
    return (Column.referring decl.name decl.nullable (target.column decl.column) referenced,
      keys ++ [⟨none, key⟩])
  | .grouped decl => do
    let target : TableRef := ⟨table.database, decl.schema, decl.table⟩
    let referenced ← resolve (target.column decl.column)
    let keys ← joinGroup table target decl keys
    return (Column.referring decl.name decl.nullable (target.column decl.column) referenced, keys)

/-- Builds one more column; its name must be new. -/
def addColumn (table : TableRef) (resolve : ColumnResolver) (draft : TableDraft)
    (decl : ColumnDecl) : Except GenerationError TableDraft := do
  let (column, foreignKeys) ← build table resolve draft.foreignKeys decl
  match draft.columns.add? column.name column with
  | none => throw (.duplicateColumn (table.column column.name))
  | some columns => return ⟨columns, foreignKeys⟩

/-- Passes when a column of every name has been built; else the first missing one is the fault. -/
def checkColumns (table : TableRef) (draft : TableDraft) (names : List String) :
    Except GenerationError Unit :=
  match names.find? fun name => !draft.columns.contains name with
  | none => .ok ()
  | some name => .error (.unknownColumn (table.column name))

/-- A clustered key of a compressed table leaves compression to the table. -/
def keyCompression (table : Compression) (decl : PrimaryKeyDecl) : Compression :=
  if decl.clustered && table != .none then .none else decl.compression

/-- The primary key of a declaration, over columns built before. -/
def primaryKey (table : TableRef) (compression : Compression) (draft : TableDraft)
    (decl : PrimaryKeyDecl) : Except GenerationError PrimaryKey := do
  draft.checkColumns table decl.columns
  return ⟨decl.name, decl.clustered, keyCompression compression decl, decl.columns⟩

/-- Passes when the key columns and then the included columns of an index have been built. -/
def checkIndex (table : TableRef) (draft : TableDraft) (index : Index) :
    Except GenerationError Unit :=
  draft.checkColumns table (index.columns.map (·.name) ++ index.includes)

end TableDraft

/-- Builds a table of a database; `resolve` finds the columns that foreign-key columns refer to. -/
def Table.build (database : String) (resolve : ColumnResolver) (decl : TableDecl) :
    Except GenerationError Table := do
  let table : TableRef := ⟨database, decl.schema, decl.name⟩
  let draft ← decl.columns.foldlM (TableDraft.addColumn table resolve) .empty
  let primaryKey ← decl.primaryKey.mapM (draft.primaryKey table decl.compression)
  decl.indexes.forM (draft.checkIndex table)
  return {
    database
    schema := decl.schema
    name := decl.name
    compression := decl.compression
    columns := draft.columns
    primaryKey
    foreignKeys := draft.foreignKeys.map (·.key)
    indexes := decl.indexes
    triggers := decl.triggers }

end DatabaseProject
