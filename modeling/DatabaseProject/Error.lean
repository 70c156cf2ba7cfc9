import DatabaseProject.Path
import DatabaseProject.Reference
import DatabaseProject.Vocabulary

/-!
# What can go wrong

A `DefinitionFault` is a fault of the definition document itself, a `GenerationError` ends a run.
Both say what happened; the texts shown to the user come from the two `message` functions.
-/

namespace DatabaseProject

/-- A fault of a definition that is well-formed as a document. -/
inductive DefinitionFault where
  /-- A name outside a closed vocabulary; `noun` says which. -/
  | unknownKeyword (noun text : String)
  | unknownDependencyElement (element : String)
  | unknownColumnElement (element column : String)
  | missingReferenceHint (column : String)
  /-- `owner` is the `Name` attribute of the element, where it has one. -/
  | missingAttribute (element : String) (owner : Option String) (attr : String)
  | notBoolean (attr element text : String)
  | notInteger (attr element text : String)
  /-- Columns of one foreign-key group refer to two tables. -/
  | mixedGroup (table first second : TableRef) (group : String)
  deriving DecidableEq, Repr

def DefinitionFault.message : DefinitionFault → String
  | unknownKeyword noun text => "Unknown " ++ noun ++ ": " ++ text
  | unknownDependencyElement element => "Unknown dependency element " ++ element
  | unknownColumnElement element column =>
    "Unknown column element " ++ element ++ " (" ++ column ++ ")"
  | missingReferenceHint column =>
    "MultipleColumnForeignKey " ++ column ++ " is missing its ColumnReferenceHint"
  | missingAttribute element owner attr =>
    element ++ " " ++ owner.getD "<unnamed>" ++ " is missing required attribute " ++ attr
  | notBoolean attr element text =>
    "Attribute " ++ attr ++ " of " ++ element ++ " must be true or false, got " ++ text
  | notInteger attr element text =>
    "Attribute " ++ attr ++ " of " ++ element ++ " must be an integer, got " ++ text
  | mixedGroup table first second group =>
    table.text ++ " groups columns referencing " ++ first.text ++ " and " ++ second.text
      ++ " under foreign key " ++ group

/-- Why a run ends without a result. -/
inductive GenerationError where
  | unreadableDefinition (path : Path)
  | malformedDefinition (path : Path)
  | invalidDefinition (fault : DefinitionFault)
  | duplicateDatabase (database : String)
  | unknownDatabase (database : String)
  | unknownSchema (database schema object : String)
  | duplicateSchema (database schema : String)
  | duplicateObject (database schema object : String)
  | duplicateColumn (column : ColumnRef)
  | unknownColumn (column : ColumnRef)
  | unsupportedType (type : LogicalType) (column : ColumnRef)
  | halfBracketed (name : String)
  | unknownSystemDatabase (dependency database : String)
  | unknownProject (dependency database : String)
  | missingEdition (database : String)
  | unknownPackage (package path : String)
  | missingIncludeFolder (path : Path)
  | missingDacpac (path : Path) (database : String)
  /-- Something below the folder cannot be listed. -/
  | unreadable (path : Path)
  | unwritable (path : Path)
  deriving DecidableEq, Repr

def GenerationError.message : GenerationError → String
  | unreadableDefinition path => "Failed to read definition file: " ++ path.text
  | malformedDefinition path => "Failed to parse definition file: " ++ path.text
  | invalidDefinition fault => "Invalid definition: " ++ fault.message
  | duplicateDatabase database =>
    "Database " ++ database ++ " is already registered in this run"
  | unknownDatabase database =>
    "Database " ++ database ++ " doesn't exist in the run registry"
  | unknownSchema database schema object =>
    database ++ "." ++ schema ++ "." ++ object ++ " references non-existing schema " ++ schema
  | duplicateSchema database schema =>
    "Object " ++ database ++ "." ++ schema ++ " is declared more than once"
  | duplicateObject database schema object =>
    "Object " ++ database ++ "." ++ schema ++ "." ++ object ++ " is declared more than once"
  | duplicateColumn column =>
    "Column " ++ column.column ++ " is declared more than once in table " ++ column.table.text
  | unknownColumn column =>
    "Failed to find column " ++ column.column ++ " in table " ++ column.table.text
  | unsupportedType type column =>
    "Data type " ++ type.name ++ " of column " ++ column.text ++ " is not supported"
  | halfBracketed name =>
    "The input string (" ++ name
      ++ ") either started or ended with a bracket, but not both. It is invalid."
  | unknownSystemDatabase dependency database =>
    "Invalid system dependency " ++ dependency ++ " referenced by database " ++ database
  | unknownProject dependency database =>
    "Failed to find database object " ++ dependency ++ ", which database " ++ database
      ++ " depends on"
  | missingEdition database =>
    "Configuration value VisualStudioEdition is required by database " ++ database
  | unknownPackage package path =>
    "Failed to resolve package " ++ package ++ " for include path " ++ path
  | missingIncludeFolder path => "Failed to find database include folder " ++ path.text
  | missingDacpac path database =>
    "Failed to find dacpac " ++ path.text ++ " referenced by database " ++ database
  | unreadable path => "Failed to read " ++ path.text
  | unwritable path => "Failed to write " ++ path.text

end DatabaseProject
