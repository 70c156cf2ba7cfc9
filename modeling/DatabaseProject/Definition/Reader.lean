import DatabaseProject.Error
import DatabaseProject.Definition
import DatabaseProject.Text.Decimal
import DatabaseProject.Xml.Document

/-!
# Reading definitions

Reads a definition from the tree of its document. A list is written as container elements of one
name, whose child elements are the members; a scalar as an attribute, which may be left out where
it has a default. What the reader does not look for does not matter. `Definition.ofElement` gives
no definition for a document whose root element is not `Sql`.
-/

namespace DatabaseProject

open DatabaseProject.Xml (Element)

/-- A result of reading, or a fault of the document. -/
abbrev Reading := Except DefinitionFault

namespace Xml.Element

/-- The members of all containers of a name. -/
def members (e : Element) (container : String) : List Element :=
  (e.elementsNamed container).flatMap Element.elements

/-- The fault of an attribute that is not there. -/
def missing (e : Element) (name : String) : DefinitionFault :=
  .missingAttribute e.name (e.attribute? "Name") name

/-- The text of an attribute that must be there. -/
def required (e : Element) (name : String) : Reading String :=
  match e.attribute? name with
  | some value => .ok value
  | none => .error (e.missing name)

/-- The truth value of a text, in any case of its ASCII letters. -/
def truthValue? (text : String) : Option Bool :=
  let folded := text.toList.map Char.toLower
  if folded = "true".toList then some true
  else if folded = "false".toList then some false
  else none

/-- A truth value; false when it is left out. -/
def bool (e : Element) (name : String) : Reading Bool :=
  match e.attribute? name with
  | none => .ok false
  | some value =>
    match truthValue? value with
    | some b => .ok b
    | none => .error (.notBoolean name e.name value)

/-- A 32-bit integer, with a default for when it is left out. -/
def int32 (e : Element) (name : String) (default : Int32) : Reading Int32 :=
  match e.attribute? name with
  | none => .ok default
  | some value =>
    match Text.Decimal.int32? value with
    | some n => .ok n
    | none => .error (.notInteger name e.name value)

/-- The value that a name stands for. -/
def keywordOfName {α : Type} [Keyword α] (text : String) : Reading α :=
  match Keyword.ofName? text with
  | some value => .ok value
  | none => .error (.unknownKeyword (Keyword.noun α) text)

/-- A word of a vocabulary, where it is there. -/
def keyword? {α : Type} [Keyword α] (e : Element) (name : String) : Reading (Option α) :=
  (e.attribute? name).mapM keywordOfName

/-- A word of a vocabulary, with the vocabulary's default for when it is left out. -/
def keyword {α : Type} [Keyword α] [Inhabited α] (e : Element) (name : String) : Reading α :=
  return (← e.keyword? name).getD default

/-- A statement: the attribute `Statement` as it is, or else the element's own text without the
white space around it. -/
def statement (e : Element) : String := (e.attribute? "Statement").getD (Text.trim e.text)

end Xml.Element

def Dependency.ofElement (e : Element) : Reading Dependency := do
  let kind ← match e.name with
    | "DatabaseDependency" => pure DependencyKind.database
    | "SystemDependency" => pure DependencyKind.system
    | "DacpacDependency" => pure DependencyKind.dacpac
    | other => throw (.unknownDependencyElement other)
  return ⟨kind, ← e.required "Name"⟩

def ComparisonOptions.ofElement (e : Element) : Reading ComparisonOptions := do
  return {
    connectionString := ← e.required "ConnectionString"
    excludeDatabaseRoles := ← e.bool "ExcludeDatabaseRoles"
    excludeUsers := ← e.bool "ExcludeUsers"
    excludeTables := ← e.bool "ExcludeTables"
    excludeViews := ← e.bool "ExcludeViews"
    excludeProcedures := ← e.bool "ExcludeProcedures"
    excludeTableValuedFunctions := ← e.bool "ExcludeTableValuedFunctions"
    excludeScalarFunctions := ← e.bool "ExcludeScalarFunctions" }

def SchemaDecl.ofElement (e : Element) : Reading SchemaDecl := do
  return ⟨← e.required "Name", ← e.required "Owner"⟩

/-- The rest of a column with a type of its own. -/
def PlainColumnDecl.ofElement (name : String) (nullable : Bool) (e : Element) :
    Reading PlainColumnDecl := do
  let some type ← e.keyword? "DataType" | throw (e.missing "DataType")
  let length ← e.int32 "Length" 0
  let precision ← e.int32 "Precision" (-1)
  let scale ← e.int32 "Scale" (-1)
  return { name, type, length, precision, scale, nullable }

/-- The rest of a column that refers to another one. -/
def ForeignKeyColumnDecl.ofElement (name : String) (nullable : Bool) (e : Element) :
    Reading ForeignKeyColumnDecl := do
  let schema ← e.required "SchemaName"
  let table ← e.required "TableName"
  let column ← e.required "ColumnName"
  return { name, schema, table, column, nullable }

/-- The rest of a member of a foreign key over several columns. -/
def GroupedColumnDecl.ofElement (name : String) (nullable : Bool) (e : Element) :
    Reading GroupedColumnDecl := do
  let some hint := e.elementNamed? "ColumnReferenceHint" | throw (.missingReferenceHint name)
  let column ← e.required "ForeignColumnName"
  let group ← e.required "MultipleColumnTableReferenceGroupName"
  let schema ← hint.required "SchemaName"
  let table ← hint.required "TableName"
  return { name, column, group, schema, table, nullable }

def ColumnDecl.ofElement (e : Element) : Reading ColumnDecl := do
  let name ← e.required "Name"
  let nullable ← e.bool "IsNullable"
  match e.name with
  | "TableColumn" => return .plain (← PlainColumnDecl.ofElement name nullable e)
  | "ForeignKey" => return .foreignKey (← ForeignKeyColumnDecl.ofElement name nullable e)
  | "MultipleColumnForeignKey" => return .grouped (← GroupedColumnDecl.ofElement name nullable e)
  | other => throw (.unknownColumnElement other name)

def PrimaryKeyDecl.ofElement (e : Element) : Reading PrimaryKeyDecl := do
  let name ← e.required "Name"
  let clustered ← e.bool "Clustered"
  let compression ← e.keyword "CompressionType"
  let columns ← (e.members "TablePrimaryKeyColumns").mapM (·.required "ColumnName")
  return { name, clustered, compression, columns }

def IndexColumn.ofElement (e : Element) : Reading IndexColumn := do
  return ⟨← e.required "ColumnName", ← e.keyword "SortOrder"⟩

def Index.ofElement (e : Element) : Reading Index := do
  let columns ← (e.members "TableIndexColumns").mapM IndexColumn.ofElement
  let includes ← (e.members "TableIndexIncludes").mapM (·.required "ColumnName")
  let name ← e.required "Name"
  let unique ← e.bool "Unique"
  let clustered ← e.bool "Clustered"
  let compression ← e.keyword "CompressionType"
  return { name, unique, clustered, compression, columns, includes }

def TableDecl.ofElement (e : Element) : Reading TableDecl := do
  let columns ← (e.members "TableColumns").mapM ColumnDecl.ofElement
  let primaryKey ← (e.elementNamed? "PrimaryKey").mapM PrimaryKeyDecl.ofElement
  let indexes ← (e.members "Indexes").mapM Index.ofElement
  let triggers := (e.members "Triggers").map (·.statement)
  let name ← e.required "Name"
  let schema ← e.required "Schema"
  let compression ← e.keyword "CompressionType"
  return { name, schema, compression, columns, primaryKey, indexes, triggers }

def ScriptedDecl.ofElement (e : Element) : Reading ScriptedDecl := do
  return ⟨← e.required "Name", ← e.required "Schema", e.statement⟩

def DatabaseDecl.ofElement (e : Element) : Reading DatabaseDecl := do
  let includes ← (e.members "DatabaseIncludes").mapM (·.required "Path")
  let dependencies ← (e.members "Dependencies").mapM Dependency.ofElement
  let comparison ← (e.elementNamed? "SchemaCompare").mapM ComparisonOptions.ofElement
  let schemas ← (e.members "Schemas").mapM SchemaDecl.ofElement
  let tables ← (e.members "Tables").mapM TableDecl.ofElement
  let name ← e.required "Name"
  let createProject ← e.bool "CreateProject"
  let platform ← e.keyword "TargetSqlServerPlatform"
  let version ← e.keyword "TargetSqlServerVersion"
  let warningsAsErrors ← e.bool "TreatTSqlWarningsAsErrors"
  let views ← (e.members "Views").mapM ScriptedDecl.ofElement
  let functions ← (e.members "Functions").mapM ScriptedDecl.ofElement
  let procedures ← (e.members "Procedures").mapM ScriptedDecl.ofElement
  return {
    name, createProject, platform, version, warningsAsErrors, includes, dependencies, comparison,
    schemas, tables, views, functions, procedures : DatabaseDecl }

def SolutionDecl.ofElement (e : Element) : Reading SolutionDecl := do
  return ⟨← e.required "Name", ← (e.members "Databases").mapM DatabaseDecl.ofElement⟩

namespace Definition

/-- The definition of a document, if the document is one. -/
def ofElement (root : Element) : Reading (Option Definition) := do
  if root.name == "Sql" then
    return some ⟨← (root.elementsNamed "SqlProject").mapM SolutionDecl.ofElement⟩
  else return none

end Definition

end DatabaseProject
