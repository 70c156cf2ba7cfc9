/-!
# Words of a definition

The closed vocabularies that a definition document writes by name: logical data types, compression
modes, sort orders, target platforms and target versions. Names are compared exactly.
-/

namespace DatabaseProject

/-- A closed vocabulary: its values, the name of each, and what one of them is called. -/
class Keyword (α : Type) where
  noun : String
  all : List α
  name : α → String

/-- The value that a name stands for. -/
def Keyword.ofName? {α : Type} [Keyword α] (text : String) : Option α :=
  (Keyword.all : List α).find? fun value => Keyword.name value == text

/-- The data type that a definition declares for a column. -/
inductive LogicalType where
  | ansiString | ansiStringFixedLength | binary | byte | boolean | currency | date | dateTime
  | dateTime2 | dateTimeOffset | decimal | double | guid | int16 | int32 | int64 | object | sByte
  | single | string | stringFixedLength | time | uInt16 | uInt32 | uInt64 | varNumeric | xml
  deriving DecidableEq, Repr

namespace LogicalType

def all : List LogicalType :=
  [ansiString, ansiStringFixedLength, binary, byte, boolean, currency, date, dateTime, dateTime2,
    dateTimeOffset, decimal, double, guid, int16, int32, int64, object, sByte, single, string,
    stringFixedLength, time, uInt16, uInt32, uInt64, varNumeric, xml]

def name : LogicalType → String
  | ansiString => "AnsiString"
  | ansiStringFixedLength => "AnsiStringFixedLength"
  | binary => "Binary"
  | byte => "Byte"
  | boolean => "Boolean"
  | currency => "Currency"
  | date => "Date"
  | dateTime => "DateTime"
  | dateTime2 => "DateTime2"
  | dateTimeOffset => "DateTimeOffset"
  | decimal => "Decimal"
  | double => "Double"
  | guid => "Guid"
  | int16 => "Int16"
  | int32 => "Int32"
  | int64 => "Int64"
  | object => "Object"
  | sByte => "SByte"
  | single => "Single"
  | string => "String"
  | stringFixedLength => "StringFixedLength"
  | time => "Time"
  | uInt16 => "UInt16"
  | uInt32 => "UInt32"
  | uInt64 => "UInt64"
  | varNumeric => "VarNumeric"
  | xml => "Xml"

instance : Keyword LogicalType := ⟨"data type", all, name⟩

/-- Precision of a column that declares `-1`. -/
def defaultPrecision : Int32 := 18

/-- Scale of a column that declares `-1`. -/
def defaultScale : Int32 := 0

/-- The type as SQL Server writes it, for the types that SQL Server has. -/
def sqlType? (type : LogicalType) (length precision scale : Int32) : Option String :=
  let precision := if precision = -1 then defaultPrecision else precision
  let scale := if scale = -1 then defaultScale else scale
  match type with
  | ansiString => some ("varchar(" ++ toString length ++ ")")
  | string => some ("nvarchar(" ++ toString length ++ ")")
  | ansiStringFixedLength => some ("char(" ++ toString length ++ ")")
  | stringFixedLength => some ("nchar(" ++ toString length ++ ")")
  | binary => some ("binary(" ++ toString length ++ ")")
  | boolean => some "bit"
  | byte => some "tinyint"
  | currency => some "money"
  | date => some "date"
  | dateTime => some "datetime"
  | dateTime2 => some ("datetime2(" ++ toString scale ++ ")")
  | dateTimeOffset => some ("datetimeoffset(" ++ toString scale ++ ")")
  | decimal => some ("decimal(" ++ toString precision ++ ", " ++ toString scale ++ ")")
  | double => some "float"
  | int16 | uInt16 => some "smallint"
  | int32 | uInt32 => some "int"
  | int64 | uInt64 => some "bigint"
  | single => some "real"
  | time => some ("time(" ++ toString scale ++ ")")
  | guid => some "uniqueidentifier"
  | object | sByte | varNumeric | xml => none

end LogicalType

/-- Data compression of a table, a primary key or an index. -/
inductive Compression where
  | none | row | page | columnStore | columnStoreArchive
  deriving DecidableEq, Repr, Inhabited

namespace Compression

def name : Compression → String
  | .none => "None"
  | .row => "Row"
  | .page => "Page"
  | .columnStore => "ColumnStore"
  | .columnStoreArchive => "ColumnStoreArchive"

instance : Keyword Compression :=
  ⟨"compression type", [.none, .row, .page, .columnStore, .columnStoreArchive], name⟩

/-- The modes that need a clustered columnstore index on the table. -/
def isColumnStore : Compression → Bool
  | .columnStore | .columnStoreArchive => true
  | .none | .row | .page => false

end Compression

/-- Sort order of an index key column. -/
inductive SortOrder where
  | asc | desc
  deriving DecidableEq, Repr, Inhabited

namespace SortOrder

def name : SortOrder → String
  | asc => "ASC"
  | desc => "DESC"

instance : Keyword SortOrder := ⟨"sort order", [asc, desc], name⟩

end SortOrder

/-- The platform that a database project targets. -/
inductive Platform where
  | azure | sqlServer
  deriving DecidableEq, Repr

namespace Platform

instance : Inhabited Platform := ⟨sqlServer⟩

def name : Platform → String
  | azure => "Azure"
  | sqlServer => "SqlServer"

instance : Keyword Platform := ⟨"SQL Server platform", [azure, sqlServer], name⟩

end Platform

/-- The server version that a database project targets. -/
inductive ServerVersion where
  | sqlServer2016 | sqlServer2017 | sqlServer2019 | sqlServer2022
  deriving DecidableEq, Repr

namespace ServerVersion

instance : Inhabited ServerVersion := ⟨sqlServer2019⟩

def name : ServerVersion → String
  | sqlServer2016 => "SqlServer2016"
  | sqlServer2017 => "SqlServer2017"
  | sqlServer2019 => "SqlServer2019"
  | sqlServer2022 => "SqlServer2022"

instance : Keyword ServerVersion :=
  ⟨"SQL Server version", [sqlServer2016, sqlServer2017, sqlServer2019, sqlServer2022], name⟩

/-- The major number of the server release. -/
def major : ServerVersion → Nat
  | sqlServer2016 => 13
  | sqlServer2017 => 14
  | sqlServer2019 => 15
  | sqlServer2022 => 16

end ServerVersion

/-- The schema provider that a project names for its target. -/
def Platform.schemaProvider (platform : Platform) (version : ServerVersion) : String :=
  match platform with
  | .azure => "Microsoft.Data.Tools.Schema.Sql.SqlAzureV12DatabaseSchemaProvider"
  | .sqlServer =>
    "Microsoft.Data.Tools.Schema.Sql.Sql" ++ toString version.major ++ "0DatabaseSchemaProvider"

end DatabaseProject
