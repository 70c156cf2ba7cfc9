import DatabaseProject.Definition
import DatabaseProject.Error

/-!
# Columns of built tables

A built column has its type as text. A column that refers to another one copies the other's type
and keeps its own name and nullability.
-/

namespace DatabaseProject

structure Column where
  name : String
  /-- The type as text; a length of `-1` is still written as a number. -/
  dataType : String
  nullable : Bool
  length : Int32
  precision : Int32
  scale : Int32
  /-- The column that this one refers to, for a foreign-key column. -/
  references : Option ColumnRef
  deriving DecidableEq, Inhabited

/-- Finds a column of a table built earlier. -/
abbrev ColumnResolver := ColumnRef → Except GenerationError Column

namespace Column

/-- Builds a column with a type of its own; a type that the server lacks is refused. -/
def ofDecl (table : TableRef) (decl : PlainColumnDecl) : Except GenerationError Column :=
  match decl.type.sqlType? decl.length decl.precision decl.scale with
  | none => .error (.unsupportedType decl.type (table.column decl.name))
  | some dataType =>
    .ok ⟨decl.name, dataType, decl.nullable, decl.length, decl.precision, decl.scale, none⟩

/-- Builds a column that takes the type of the column it refers to. -/
def referring (name : String) (nullable : Bool) (target : ColumnRef) (referenced : Column) : Column :=
  { referenced with name, nullable, references := some target }

/-- Writes `(MAX)` for every `(-1)`. -/
def maxLengths : List Char → List Char
  | '(' :: '-' :: '1' :: ')' :: rest => '(' :: 'M' :: 'A' :: 'X' :: ')' :: maxLengths rest
  | c :: rest => c :: maxLengths rest
  | [] => []

/-- The type as scripts write it. -/
def sqlType (column : Column) : String := String.ofList (maxLengths column.dataType.toList)

end Column

end DatabaseProject
