/-!
# References to tables and columns

A table is named by its database, schema and name; a column by its table and name. References are
names only: nothing says that what they name exists.
-/

namespace DatabaseProject

/-- Names a table. -/
structure TableRef where
  database : String
  schema : String
  table : String
  deriving DecidableEq, Repr, Inhabited

/-- Names a column. -/
structure ColumnRef where
  table : TableRef
  column : String
  deriving DecidableEq, Repr, Inhabited

namespace TableRef

/-- Database, schema and table, with dots between them. -/
def text (ref : TableRef) : String := ref.database ++ "." ++ ref.schema ++ "." ++ ref.table

/-- Schema and table in brackets, as scripts write them. -/
def twoPartName (ref : TableRef) : String := "[" ++ ref.schema ++ "].[" ++ ref.table ++ "]"

/-- A column of the table. -/
def column (ref : TableRef) (name : String) : ColumnRef := ⟨ref, name⟩

end TableRef

/-- Table and column, with dots between the names. -/
def ColumnRef.text (ref : ColumnRef) : String := ref.table.text ++ "." ++ ref.column

end DatabaseProject
