import DatabaseProject.Vocabulary

/-!
# Definitions

What a definition document declares: solutions, their databases, and in each database its schemas,
tables and scripted objects. Defaults are filled in and vocabularies resolved; whether names fit
together is decided when the databases are built.
-/

namespace DatabaseProject

/-- What a database project can depend on. -/
inductive DependencyKind where
  /-- Another project of the same solution. -/
  | database
  /-- A system database of the server. -/
  | system
  /-- A prebuilt package file below the project directory. -/
  | dacpac
  deriving DecidableEq, Repr

structure Dependency where
  kind : DependencyKind
  name : String
  deriving DecidableEq, Repr

/-- Options of a schema comparison: where to compare with, and what to leave out. -/
structure ComparisonOptions where
  connectionString : String
  excludeDatabaseRoles : Bool
  excludeUsers : Bool
  excludeTables : Bool
  excludeViews : Bool
  excludeProcedures : Bool
  excludeTableValuedFunctions : Bool
  excludeScalarFunctions : Bool
  deriving DecidableEq, Repr

structure SchemaDecl where
  name : String
  owner : String
  deriving DecidableEq, Repr

/-- A column with a type of its own. -/
structure PlainColumnDecl where
  name : String
  type : LogicalType
  length : Int32
  precision : Int32
  scale : Int32
  nullable : Bool
  deriving DecidableEq

/-- A column that takes the type of the column it refers to. -/
structure ForeignKeyColumnDecl where
  name : String
  schema : String
  table : String
  column : String
  nullable : Bool
  deriving DecidableEq, Repr

/-- A member of a foreign key over several columns; members with one group name make one key. -/
structure GroupedColumnDecl where
  name : String
  column : String
  group : String
  schema : String
  table : String
  nullable : Bool
  deriving DecidableEq, Repr

inductive ColumnDecl where
  | plain (decl : PlainColumnDecl)
  | foreignKey (decl : ForeignKeyColumnDecl)
  | grouped (decl : GroupedColumnDecl)
  deriving DecidableEq

/-- The name of the declared column. -/
def ColumnDecl.name : ColumnDecl → String
  | plain decl => decl.name
  | foreignKey decl => decl.name
  | grouped decl => decl.name

structure PrimaryKeyDecl where
  name : String
  clustered : Bool
  compression : Compression
  columns : List String
  deriving DecidableEq, Repr

/-- A key column of an index. -/
structure IndexColumn where
  name : String
  order : SortOrder
  deriving DecidableEq, Repr

/-- An index; included columns are stored with it and are no part of its key. -/
structure Index where
  name : String
  unique : Bool
  clustered : Bool
  compression : Compression
  columns : List IndexColumn
  includes : List String
  deriving DecidableEq, Repr

structure TableDecl where
  name : String
  schema : String
  compression : Compression
  columns : List ColumnDecl
  primaryKey : Option PrimaryKeyDecl
  indexes : List Index
  triggers : List String
  deriving DecidableEq

/-- A view, function or procedure, given by its statement. -/
structure ScriptedDecl where
  name : String
  schema : String
  statement : String
  deriving DecidableEq, Repr

structure DatabaseDecl where
  name : String
  createProject : Bool
  platform : Platform
  version : ServerVersion
  warningsAsErrors : Bool
  /-- Folders whose files are copied into the project. -/
  includes : List String
  dependencies : List Dependency
  comparison : Option ComparisonOptions
  schemas : List SchemaDecl
  tables : List TableDecl
  views : List ScriptedDecl
  functions : List ScriptedDecl
  procedures : List ScriptedDecl
  deriving DecidableEq

/-- A solution and the databases in it. -/
structure SolutionDecl where
  name : String
  databases : List DatabaseDecl
  deriving DecidableEq

structure Definition where
  solutions : List SolutionDecl
  deriving DecidableEq

end DatabaseProject
