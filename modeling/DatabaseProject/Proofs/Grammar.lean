import DatabaseProject.Proofs.Attributes

/-!
# The grammar of definitions

The elements that the reader accepts, kind by kind: which attributes each has, and what is inside.
`DescribedBy` relates an element to what it declares. A reader returns what its element describes, and
it returns something exactly for an element of the grammar.
-/

namespace DatabaseProject

open DatabaseProject.Xml Outcome

variable {e : Element}

/-- The elements of dependencies. -/
def dependencyElements : List (String × DependencyKind) :=
  [("DatabaseDependency", .database), ("SystemDependency", .system), ("DacpacDependency", .dacpac)]

structure Dependency.DescribedBy (e : Element) (d : Dependency) : Prop where
  element : (e.name, d.kind) ∈ dependencyElements
  name : e.attribute? "Name" = some d.name

structure ComparisonOptions.DescribedBy (e : Element) (d : ComparisonOptions) : Prop where
  connectionString : e.attribute? "ConnectionString" = some d.connectionString
  excludeDatabaseRoles : e.HasBool "ExcludeDatabaseRoles" d.excludeDatabaseRoles
  excludeUsers : e.HasBool "ExcludeUsers" d.excludeUsers
  excludeTables : e.HasBool "ExcludeTables" d.excludeTables
  excludeViews : e.HasBool "ExcludeViews" d.excludeViews
  excludeProcedures : e.HasBool "ExcludeProcedures" d.excludeProcedures
  excludeTableValuedFunctions : e.HasBool "ExcludeTableValuedFunctions" d.excludeTableValuedFunctions
  excludeScalarFunctions : e.HasBool "ExcludeScalarFunctions" d.excludeScalarFunctions

structure SchemaDecl.DescribedBy (e : Element) (d : SchemaDecl) : Prop where
  name : e.attribute? "Name" = some d.name
  owner : e.attribute? "Owner" = some d.owner

structure PlainColumnDecl.DescribedBy (e : Element) (d : PlainColumnDecl) : Prop where
  name : e.attribute? "Name" = some d.name
  nullable : e.HasBool "IsNullable" d.nullable
  type : e.attribute? "DataType" = some d.type.name
  length : e.HasInt32 "Length" 0 d.length
  precision : e.HasInt32 "Precision" (-1) d.precision
  scale : e.HasInt32 "Scale" (-1) d.scale

structure ForeignKeyColumnDecl.DescribedBy (e : Element) (d : ForeignKeyColumnDecl) : Prop where
  name : e.attribute? "Name" = some d.name
  nullable : e.HasBool "IsNullable" d.nullable
  schema : e.attribute? "SchemaName" = some d.schema
  table : e.attribute? "TableName" = some d.table
  column : e.attribute? "ColumnName" = some d.column

/-- Only the first hint is looked at. -/
structure GroupedColumnDecl.DescribedBy (e : Element) (d : GroupedColumnDecl) : Prop where
  name : e.attribute? "Name" = some d.name
  nullable : e.HasBool "IsNullable" d.nullable
  column : e.attribute? "ForeignColumnName" = some d.column
  group : e.attribute? "MultipleColumnTableReferenceGroupName" = some d.group
  hint : ∃ hint, e.elementNamed? "ColumnReferenceHint" = some hint ∧
    hint.attribute? "SchemaName" = some d.schema ∧ hint.attribute? "TableName" = some d.table

inductive ColumnDecl.DescribedBy (e : Element) : ColumnDecl → Prop
  | plain {d : PlainColumnDecl} (element : e.name = "TableColumn") (h : d.DescribedBy e) :
    DescribedBy e (.plain d)
  | foreignKey {d : ForeignKeyColumnDecl} (element : e.name = "ForeignKey") (h : d.DescribedBy e) :
    DescribedBy e (.foreignKey d)
  | grouped {d : GroupedColumnDecl} (element : e.name = "MultipleColumnForeignKey")
    (h : d.DescribedBy e) : DescribedBy e (.grouped d)

/-- The elements have these column names, one each. -/
def NamesColumns (elements : List Element) (names : List String) : Prop :=
  List.Forall₂ (fun e name => e.attribute? "ColumnName" = some name) elements names

structure PrimaryKeyDecl.DescribedBy (e : Element) (d : PrimaryKeyDecl) : Prop where
  name : e.attribute? "Name" = some d.name
  clustered : e.HasBool "Clustered" d.clustered
  compression : e.HasWord "CompressionType" d.compression
  columns : NamesColumns (e.members "TablePrimaryKeyColumns") d.columns

structure IndexColumn.DescribedBy (e : Element) (d : IndexColumn) : Prop where
  name : e.attribute? "ColumnName" = some d.name
  order : e.HasWord "SortOrder" d.order

structure Index.DescribedBy (e : Element) (d : Index) : Prop where
  name : e.attribute? "Name" = some d.name
  unique : e.HasBool "Unique" d.unique
  clustered : e.HasBool "Clustered" d.clustered
  compression : e.HasWord "CompressionType" d.compression
  columns : List.Forall₂ IndexColumn.DescribedBy (e.members "TableIndexColumns") d.columns
  includes : NamesColumns (e.members "TableIndexIncludes") d.includes

/-- Only the first primary key is looked at. -/
structure TableDecl.DescribedBy (e : Element) (d : TableDecl) : Prop where
  name : e.attribute? "Name" = some d.name
  schema : e.attribute? "Schema" = some d.schema
  compression : e.HasWord "CompressionType" d.compression
  columns : List.Forall₂ ColumnDecl.DescribedBy (e.members "TableColumns") d.columns
  primaryKey : Option.Rel PrimaryKeyDecl.DescribedBy (e.elementNamed? "PrimaryKey") d.primaryKey
  indexes : List.Forall₂ Index.DescribedBy (e.members "Indexes") d.indexes
  triggers : (e.members "Triggers").map Element.statement = d.triggers

structure ScriptedDecl.DescribedBy (e : Element) (d : ScriptedDecl) : Prop where
  name : e.attribute? "Name" = some d.name
  schema : e.attribute? "Schema" = some d.schema
  statement : e.statement = d.statement

/-- Only the first schema comparison is looked at. -/
structure DatabaseDecl.DescribedBy (e : Element) (d : DatabaseDecl) : Prop where
  name : e.attribute? "Name" = some d.name
  createProject : e.HasBool "CreateProject" d.createProject
  platform : e.HasWord "TargetSqlServerPlatform" d.platform
  version : e.HasWord "TargetSqlServerVersion" d.version
  warningsAsErrors : e.HasBool "TreatTSqlWarningsAsErrors" d.warningsAsErrors
  includes : List.Forall₂ (fun e path => e.attribute? "Path" = some path)
    (e.members "DatabaseIncludes") d.includes
  dependencies : List.Forall₂ Dependency.DescribedBy (e.members "Dependencies") d.dependencies
  comparison : Option.Rel ComparisonOptions.DescribedBy (e.elementNamed? "SchemaCompare") d.comparison
  schemas : List.Forall₂ SchemaDecl.DescribedBy (e.members "Schemas") d.schemas
  tables : List.Forall₂ TableDecl.DescribedBy (e.members "Tables") d.tables
  views : List.Forall₂ ScriptedDecl.DescribedBy (e.members "Views") d.views
  functions : List.Forall₂ ScriptedDecl.DescribedBy (e.members "Functions") d.functions
  procedures : List.Forall₂ ScriptedDecl.DescribedBy (e.members "Procedures") d.procedures

structure SolutionDecl.DescribedBy (e : Element) (d : SolutionDecl) : Prop where
  name : e.attribute? "Name" = some d.name
  databases : List.Forall₂ DatabaseDecl.DescribedBy (e.members "Databases") d.databases

def Definition.DescribedBy (root : Element) (d : Definition) : Prop :=
  List.Forall₂ SolutionDecl.DescribedBy (root.elementsNamed "SqlProject") d.solutions

theorem Dependency.ofElement_eq_ok {d : Dependency} :
    Dependency.ofElement e = .ok d ↔ d.DescribedBy e := by
  have hread : ∀ kind, (do let kind ← pure kind; return ⟨kind, ← e.required "Name"⟩ : Reading Dependency) =
      .ok d ↔ kind = d.kind ∧ e.attribute? "Name" = some d.name := by
    intro kind
    simp only [bind_eq_ok, pure_eq_ok, Element.required_eq_ok]
    constructor
    · rintro ⟨_, rfl, _, hname, rfl⟩
      exact ⟨rfl, hname⟩
    · rintro ⟨rfl, hname⟩
      exact ⟨_, rfl, _, hname, rfl⟩
  have hdescribed : d.DescribedBy e ↔
      (e.name, d.kind) ∈ dependencyElements ∧ e.attribute? "Name" = some d.name :=
    ⟨fun h => ⟨h.element, h.name⟩, fun h => ⟨h.1, h.2⟩⟩
  rw [hdescribed]
  unfold ofElement
  split
  · rename_i he
    rw [he]
    exact (hread _).trans (and_congr (by simp [dependencyElements, eq_comm]) Iff.rfl)
  · rename_i he
    rw [he]
    exact (hread _).trans (and_congr (by simp [dependencyElements, eq_comm]) Iff.rfl)
  · rename_i he
    rw [he]
    exact (hread _).trans (and_congr (by simp [dependencyElements, eq_comm]) Iff.rfl)
  · rename_i hdatabase hsystem hdacpac
    refine iff_of_false ?_ ?_
    · rintro ⟨⟩
    · rintro ⟨helement, -⟩
      simp only [dependencyElements, List.mem_cons, Prod.mk.injEq, List.not_mem_nil, or_false] at helement
      obtain ⟨he, -⟩ | ⟨he, -⟩ | ⟨he, -⟩ := helement
      exacts [hdatabase he, hsystem he, hdacpac he]

theorem ComparisonOptions.ofElement_eq_ok {d : ComparisonOptions} :
    ComparisonOptions.ofElement e = .ok d ↔ d.DescribedBy e := by
  simp only [ofElement, bind_eq_ok, pure_eq_ok, Element.required_eq_ok, Element.bool_eq_ok]
  constructor
  · rintro ⟨_, hconnection, _, hroles, _, husers, _, htables, _, hviews, _, hprocedures, _, htabular, _,
      hscalar, rfl⟩
    exact ⟨hconnection, hroles, husers, htables, hviews, hprocedures, htabular, hscalar⟩
  · intro h
    exact ⟨_, h.connectionString, _, h.excludeDatabaseRoles, _, h.excludeUsers, _, h.excludeTables, _,
      h.excludeViews, _, h.excludeProcedures, _, h.excludeTableValuedFunctions, _,
      h.excludeScalarFunctions, rfl⟩

theorem SchemaDecl.ofElement_eq_ok {d : SchemaDecl} :
    SchemaDecl.ofElement e = .ok d ↔ d.DescribedBy e := by
  simp only [ofElement, bind_eq_ok, pure_eq_ok, Element.required_eq_ok]
  constructor
  · rintro ⟨_, hname, _, howner, rfl⟩
    exact ⟨hname, howner⟩
  · intro h
    exact ⟨_, h.name, _, h.owner, rfl⟩

section Columns

variable {name : String} {nullable : Bool} (hname : e.attribute? "Name" = some name)
  (hnullable : e.HasBool "IsNullable" nullable)

include hname hnullable

theorem PlainColumnDecl.ofElement_eq_ok {d : PlainColumnDecl} :
    PlainColumnDecl.ofElement name nullable e = .ok d ↔ d.DescribedBy e := by
  rw [ofElement, bind_eq_ok]
  simp only [Element.keyword?_eq_ok]
  constructor
  · rintro ⟨_ | type, htype, h⟩
    · cases h
    · simp only [bind_eq_ok, Element.int32_eq_ok, pure_eq_ok] at h
      obtain ⟨_, hlength, _, hprecision, _, hscale, rfl⟩ := h
      exact ⟨hname, hnullable, htype, hlength, hprecision, hscale⟩
  · intro h
    obtain rfl := Option.some.inj (hname.symm.trans h.name)
    obtain rfl := hnullable.unique h.nullable
    refine ⟨some d.type, h.type, ?_⟩
    simp only [bind_eq_ok, Element.int32_eq_ok, pure_eq_ok]
    exact ⟨_, h.length, _, h.precision, _, h.scale, rfl⟩

theorem ForeignKeyColumnDecl.ofElement_eq_ok {d : ForeignKeyColumnDecl} :
    ForeignKeyColumnDecl.ofElement name nullable e = .ok d ↔ d.DescribedBy e := by
  simp only [ofElement, bind_eq_ok, Element.required_eq_ok, pure_eq_ok]
  constructor
  · rintro ⟨_, hschema, _, htable, _, hcolumn, rfl⟩
    exact ⟨hname, hnullable, hschema, htable, hcolumn⟩
  · intro h
    obtain rfl := Option.some.inj (hname.symm.trans h.name)
    obtain rfl := hnullable.unique h.nullable
    exact ⟨_, h.schema, _, h.table, _, h.column, rfl⟩

theorem GroupedColumnDecl.ofElement_eq_ok {d : GroupedColumnDecl} :
    GroupedColumnDecl.ofElement name nullable e = .ok d ↔ d.DescribedBy e := by
  unfold ofElement
  cases hhint : e.elementNamed? "ColumnReferenceHint" with
  | none =>
    refine iff_of_false (by simp [throw, throwThe, MonadExceptOf.throw]) fun h => ?_
    obtain ⟨hint, hsome, -⟩ := h.hint
    rw [hhint] at hsome
    cases hsome
  | some hint =>
    simp only [bind_eq_ok, Element.required_eq_ok, pure_eq_ok]
    constructor
    · rintro ⟨_, hcolumn, _, hgroup, _, hschema, _, htable, rfl⟩
      exact ⟨hname, hnullable, hcolumn, hgroup, hint, hhint, hschema, htable⟩
    · intro h
      obtain ⟨other, hsome, hschema, htable⟩ := h.hint
      obtain rfl := Option.some.inj (hhint.symm.trans hsome)
      obtain rfl := Option.some.inj (hname.symm.trans h.name)
      obtain rfl := hnullable.unique h.nullable
      exact ⟨_, h.column, _, h.group, _, hschema, _, htable, rfl⟩

end Columns

theorem ColumnDecl.ofElement_eq_ok {d : ColumnDecl} :
    ColumnDecl.ofElement e = .ok d ↔ d.DescribedBy e := by
  simp only [ofElement, bind_eq_ok, Element.required_eq_ok, Element.bool_eq_ok]
  constructor
  · rintro ⟨name, hname, nullable, hnullable, h⟩
    split at h
    · rename_i he
      obtain ⟨column, hcolumn, ⟨⟩⟩ := bind_eq_ok.1 h
      exact .plain he ((PlainColumnDecl.ofElement_eq_ok hname hnullable).1 hcolumn)
    · rename_i he
      obtain ⟨column, hcolumn, ⟨⟩⟩ := bind_eq_ok.1 h
      exact .foreignKey he ((ForeignKeyColumnDecl.ofElement_eq_ok hname hnullable).1 hcolumn)
    · rename_i he
      obtain ⟨column, hcolumn, ⟨⟩⟩ := bind_eq_ok.1 h
      exact .grouped he ((GroupedColumnDecl.ofElement_eq_ok hname hnullable).1 hcolumn)
    · cases h
  · rintro (⟨he, h⟩ | ⟨he, h⟩ | ⟨he, h⟩) <;> refine ⟨_, h.name, _, h.nullable, ?_⟩ <;> rw [he]
    · exact bind_eq_ok.2 ⟨_, (PlainColumnDecl.ofElement_eq_ok h.name h.nullable).2 h, rfl⟩
    · exact bind_eq_ok.2 ⟨_, (ForeignKeyColumnDecl.ofElement_eq_ok h.name h.nullable).2 h, rfl⟩
    · exact bind_eq_ok.2 ⟨_, (GroupedColumnDecl.ofElement_eq_ok h.name h.nullable).2 h, rfl⟩

theorem PrimaryKeyDecl.ofElement_eq_ok {d : PrimaryKeyDecl} :
    PrimaryKeyDecl.ofElement e = .ok d ↔ d.DescribedBy e := by
  simp only [ofElement, bind_eq_ok, pure_eq_ok, mapM_eq_ok, Element.required_eq_ok, Element.bool_eq_ok,
    Element.keyword_eq_ok]
  constructor
  · rintro ⟨_, hname, _, hclustered, _, hcompression, _, hcolumns, rfl⟩
    exact ⟨hname, hclustered, hcompression, hcolumns⟩
  · intro h
    exact ⟨_, h.name, _, h.clustered, _, h.compression, _, h.columns, rfl⟩

theorem IndexColumn.ofElement_eq_ok {d : IndexColumn} :
    IndexColumn.ofElement e = .ok d ↔ d.DescribedBy e := by
  simp only [ofElement, bind_eq_ok, pure_eq_ok, Element.required_eq_ok, Element.keyword_eq_ok]
  constructor
  · rintro ⟨_, hname, _, horder, rfl⟩
    exact ⟨hname, horder⟩
  · intro h
    exact ⟨_, h.name, _, h.order, rfl⟩

theorem Index.ofElement_eq_ok {d : Index} : Index.ofElement e = .ok d ↔ d.DescribedBy e := by
  simp only [ofElement, bind_eq_ok, pure_eq_ok, mapM_eq_ok, Element.required_eq_ok, Element.bool_eq_ok,
    Element.keyword_eq_ok, IndexColumn.ofElement_eq_ok]
  constructor
  · rintro ⟨_, hcolumns, _, hincludes, _, hname, _, hunique, _, hclustered, _, hcompression, rfl⟩
    exact ⟨hname, hunique, hclustered, hcompression, hcolumns, hincludes⟩
  · intro h
    exact ⟨_, h.columns, _, h.includes, _, h.name, _, h.unique, _, h.clustered, _, h.compression, rfl⟩

theorem TableDecl.ofElement_eq_ok {d : TableDecl} : TableDecl.ofElement e = .ok d ↔ d.DescribedBy e := by
  simp only [ofElement, bind_eq_ok, pure_eq_ok, mapM_eq_ok, mapM_option_eq_ok, Element.required_eq_ok,
    Element.keyword_eq_ok, ColumnDecl.ofElement_eq_ok, PrimaryKeyDecl.ofElement_eq_ok, Index.ofElement_eq_ok]
  constructor
  · rintro ⟨_, hcolumns, _, hkey, _, hindexes, _, hname, _, hschema, _, hcompression, rfl⟩
    exact ⟨hname, hschema, hcompression, hcolumns, hkey, hindexes, rfl⟩
  · intro h
    exact ⟨_, h.columns, _, h.primaryKey, _, h.indexes, _, h.name, _, h.schema, _, h.compression,
      by rw [h.triggers]⟩

theorem ScriptedDecl.ofElement_eq_ok {d : ScriptedDecl} :
    ScriptedDecl.ofElement e = .ok d ↔ d.DescribedBy e := by
  simp only [ofElement, bind_eq_ok, pure_eq_ok, Element.required_eq_ok]
  constructor
  · rintro ⟨_, hname, _, hschema, rfl⟩
    exact ⟨hname, hschema, rfl⟩
  · intro h
    exact ⟨_, h.name, _, h.schema, by rw [h.statement]⟩

theorem DatabaseDecl.ofElement_eq_ok {d : DatabaseDecl} :
    DatabaseDecl.ofElement e = .ok d ↔ d.DescribedBy e := by
  simp only [ofElement, bind_eq_ok, pure_eq_ok, mapM_eq_ok, mapM_option_eq_ok, Element.required_eq_ok,
    Element.bool_eq_ok, Element.keyword_eq_ok, Dependency.ofElement_eq_ok,
    ComparisonOptions.ofElement_eq_ok, SchemaDecl.ofElement_eq_ok, TableDecl.ofElement_eq_ok,
    ScriptedDecl.ofElement_eq_ok]
  constructor
  · rintro ⟨_, hincludes, _, hdependencies, _, hcomparison, _, hschemas, _, htables, _, hname, _, hproject,
      _, hplatform, _, hversion, _, hwarnings, _, hviews, _, hfunctions, _, hprocedures, rfl⟩
    exact ⟨hname, hproject, hplatform, hversion, hwarnings, hincludes, hdependencies, hcomparison,
      hschemas, htables, hviews, hfunctions, hprocedures⟩
  · intro h
    exact ⟨_, h.includes, _, h.dependencies, _, h.comparison, _, h.schemas, _, h.tables, _, h.name, _,
      h.createProject, _, h.platform, _, h.version, _, h.warningsAsErrors, _, h.views, _, h.functions, _,
      h.procedures, rfl⟩

theorem SolutionDecl.ofElement_eq_ok {d : SolutionDecl} :
    SolutionDecl.ofElement e = .ok d ↔ d.DescribedBy e := by
  simp only [ofElement, bind_eq_ok, pure_eq_ok, mapM_eq_ok, Element.required_eq_ok,
    DatabaseDecl.ofElement_eq_ok]
  constructor
  · rintro ⟨_, hname, _, hdatabases, rfl⟩
    exact ⟨hname, hdatabases⟩
  · intro h
    exact ⟨_, h.name, _, h.databases, rfl⟩

theorem Definition.ofElement_eq_ok {root : Element} (h : root.name = "Sql") {found : Option Definition} :
    Definition.ofElement root = .ok found ↔ ∃ d, found = some d ∧ d.DescribedBy root := by
  simp only [ofElement, h, beq_self_eq_true, if_true, bind_eq_ok, pure_eq_ok, mapM_eq_ok,
    SolutionDecl.ofElement_eq_ok]
  constructor
  · rintro ⟨solutions, hsolutions, rfl⟩
    exact ⟨⟨solutions⟩, rfl, hsolutions⟩
  · rintro ⟨d, rfl, hd⟩
    exact ⟨_, hd, rfl⟩

/-- What the attributes of an element have to be like. All but the required ones can be left out. -/
structure AttributeRules where
  required : List String
  booleans : List String
  integers : List String
  /-- Attributes with the words that they can have. -/
  words : List (String × List String)

namespace Xml.Element

/-- The attributes of an element are as the rules say. -/
structure Obeys (e : Element) (rules : AttributeRules) : Prop where
  required : ∀ name ∈ rules.required, ∃ text, e.attribute? name = some text
  booleans : ∀ name ∈ rules.booleans, ∀ text ∈ e.attribute? name,
    InAnyCase "true" text ∨ InAnyCase "false" text
  integers : ∀ name ∈ rules.integers, ∀ text ∈ e.attribute? name, ∃ n, Text.Decimal.Writes text n
  words : ∀ entry ∈ rules.words, ∀ text ∈ e.attribute? entry.1, text ∈ entry.2

theorem exists_hasBool {name : String} : (∃ b, e.HasBool name b) ↔
    ∀ text ∈ e.attribute? name, InAnyCase "true" text ∨ InAnyCase "false" text := by
  unfold HasBool
  cases e.attribute? name with
  | none => simp
  | some text => simp [or_comm, toString]

theorem exists_hasInt32 {name : String} {default : Int32} : (∃ n, e.HasInt32 name default n) ↔
    ∀ text ∈ e.attribute? name, ∃ n, Text.Decimal.Writes text n := by
  unfold HasInt32
  cases e.attribute? name with
  | none => simp
  | some text => simp

theorem exists_hasWord {α : Type} [Keyword α] [LawfulKeyword α] [Inhabited α] {name : String} :
    (∃ value : α, e.HasWord name value) ↔ ∀ text ∈ e.attribute? name, text ∈ Keyword.names α := by
  unfold HasWord
  simp only [Keyword.mem_names]
  cases e.attribute? name with
  | none => simp
  | some text => simp

end Xml.Element

def dataTypes : List String :=
  ["AnsiString", "AnsiStringFixedLength", "Binary", "Byte", "Boolean", "Currency", "Date", "DateTime",
    "DateTime2", "DateTimeOffset", "Decimal", "Double", "Guid", "Int16", "Int32", "Int64", "Object",
    "SByte", "Single", "String", "StringFixedLength", "Time", "UInt16", "UInt32", "UInt64", "VarNumeric",
    "Xml"]

def compressionTypes : List String := ["None", "Row", "Page", "ColumnStore", "ColumnStoreArchive"]

def namedRules : AttributeRules := ⟨["Name"], [], [], []⟩

def databaseRules : AttributeRules :=
  ⟨["Name"], ["CreateProject", "TreatTSqlWarningsAsErrors"], [],
    [("TargetSqlServerPlatform", ["Azure", "SqlServer"]),
      ("TargetSqlServerVersion", ["SqlServer2016", "SqlServer2017", "SqlServer2019", "SqlServer2022"])]⟩

def includeRules : AttributeRules := ⟨["Path"], [], [], []⟩

def comparisonRules : AttributeRules :=
  ⟨["ConnectionString"], ["ExcludeDatabaseRoles", "ExcludeUsers", "ExcludeTables", "ExcludeViews",
    "ExcludeProcedures", "ExcludeTableValuedFunctions", "ExcludeScalarFunctions"], [], []⟩

def schemaRules : AttributeRules := ⟨["Name", "Owner"], [], [], []⟩

def objectRules : AttributeRules := ⟨["Name", "Schema"], [], [], []⟩

def tableRules : AttributeRules := ⟨["Name", "Schema"], [], [], [("CompressionType", compressionTypes)]⟩

def plainColumnRules : AttributeRules :=
  ⟨["Name", "DataType"], ["IsNullable"], ["Length", "Precision", "Scale"], [("DataType", dataTypes)]⟩

def foreignKeyRules : AttributeRules :=
  ⟨["Name", "SchemaName", "TableName", "ColumnName"], ["IsNullable"], [], []⟩

def groupedColumnRules : AttributeRules :=
  ⟨["Name", "ForeignColumnName", "MultipleColumnTableReferenceGroupName"], ["IsNullable"], [], []⟩

def hintRules : AttributeRules := ⟨["SchemaName", "TableName"], [], [], []⟩

def primaryKeyRules : AttributeRules :=
  ⟨["Name"], ["Clustered"], [], [("CompressionType", compressionTypes)]⟩

def columnNameRules : AttributeRules := ⟨["ColumnName"], [], [], []⟩

def indexRules : AttributeRules :=
  ⟨["Name"], ["Unique", "Clustered"], [], [("CompressionType", compressionTypes)]⟩

def indexColumnRules : AttributeRules := ⟨["ColumnName"], [], [], [("SortOrder", ["ASC", "DESC"])]⟩

namespace Xml.Element

structure IsDependency (e : Element) : Prop where
  element : e.name ∈ ["DatabaseDependency", "SystemDependency", "DacpacDependency"]
  attributes : e.Obeys namedRules

inductive IsColumn (e : Element) : Prop
  | plain (element : e.name = "TableColumn") (attributes : e.Obeys plainColumnRules)
  | foreignKey (element : e.name = "ForeignKey") (attributes : e.Obeys foreignKeyRules)
  | grouped (element : e.name = "MultipleColumnForeignKey") (attributes : e.Obeys groupedColumnRules)
    (hint : ∃ hint, e.elementNamed? "ColumnReferenceHint" = some hint ∧ hint.Obeys hintRules)

structure IsPrimaryKey (e : Element) : Prop where
  attributes : e.Obeys primaryKeyRules
  columns : ∀ c ∈ e.members "TablePrimaryKeyColumns", c.Obeys columnNameRules

structure IsIndex (e : Element) : Prop where
  attributes : e.Obeys indexRules
  columns : ∀ c ∈ e.members "TableIndexColumns", c.Obeys indexColumnRules
  includes : ∀ c ∈ e.members "TableIndexIncludes", c.Obeys columnNameRules

structure IsTable (e : Element) : Prop where
  attributes : e.Obeys tableRules
  columns : ∀ c ∈ e.members "TableColumns", c.IsColumn
  primaryKey : ∀ c ∈ e.elementNamed? "PrimaryKey", c.IsPrimaryKey
  indexes : ∀ c ∈ e.members "Indexes", c.IsIndex

structure IsDatabase (e : Element) : Prop where
  attributes : e.Obeys databaseRules
  includes : ∀ c ∈ e.members "DatabaseIncludes", c.Obeys includeRules
  dependencies : ∀ c ∈ e.members "Dependencies", c.IsDependency
  comparison : ∀ c ∈ e.elementNamed? "SchemaCompare", c.Obeys comparisonRules
  schemas : ∀ c ∈ e.members "Schemas", c.Obeys schemaRules
  tables : ∀ c ∈ e.members "Tables", c.IsTable
  views : ∀ c ∈ e.members "Views", c.Obeys objectRules
  functions : ∀ c ∈ e.members "Functions", c.Obeys objectRules
  procedures : ∀ c ∈ e.members "Procedures", c.Obeys objectRules

structure IsSolution (e : Element) : Prop where
  attributes : e.Obeys namedRules
  databases : ∀ c ∈ e.members "Databases", c.IsDatabase

end Xml.Element

namespace Xml.Element

/-- The rules attribute by attribute. -/
theorem obeys_iff {rules : AttributeRules} : e.Obeys rules ↔
    rules.required.Forall (fun name => ∃ text, e.attribute? name = some text) ∧
      rules.booleans.Forall (fun name => ∃ b, e.HasBool name b) ∧
      rules.integers.Forall (fun name => ∀ text ∈ e.attribute? name, ∃ n, Text.Decimal.Writes text n) ∧
      rules.words.Forall fun entry => ∀ text ∈ e.attribute? entry.1, text ∈ entry.2 := by
  simp only [List.forall_iff_forall_mem, exists_hasBool]
  exact ⟨fun h => ⟨h.required, h.booleans, h.integers, h.words⟩, fun h => ⟨h.1, h.2.1, h.2.2.1, h.2.2.2⟩⟩

theorem exists_named : (∃ name, e.attribute? "Name" = some name) ↔ e.Obeys namedRules :=
  ⟨fun h => obeys_iff.2 ⟨h, trivial, trivial, trivial⟩, fun h => (obeys_iff.1 h).1⟩

theorem exists_path : (∃ path, e.attribute? "Path" = some path) ↔ e.Obeys includeRules :=
  ⟨fun h => obeys_iff.2 ⟨h, trivial, trivial, trivial⟩, fun h => (obeys_iff.1 h).1⟩

theorem exists_columnName : (∃ name, e.attribute? "ColumnName" = some name) ↔ e.Obeys columnNameRules :=
  ⟨fun h => obeys_iff.2 ⟨h, trivial, trivial, trivial⟩, fun h => (obeys_iff.1 h).1⟩

/-- A list of elements describes a list exactly when each of them describes something. -/
theorem exists_members {α : Type} {Describes : Element → α → Prop} {IsOf : Element → Prop}
    (h : ∀ {c}, (∃ a, Describes c a) ↔ IsOf c) {elements : List Element} :
    (∃ values, List.Forall₂ Describes elements values) ↔ ∀ c ∈ elements, IsOf c := by
  simp only [exists_forall₂, h]

theorem exists_option {α : Type} {Describes : Element → α → Prop} {IsOf : Element → Prop}
    (h : ∀ {c}, (∃ a, Describes c a) ↔ IsOf c) {element : Option Element} :
    (∃ value, Option.Rel Describes element value) ↔ ∀ c ∈ element, IsOf c := by
  simp only [exists_optionRel, h]

end Xml.Element

open Xml.Element

theorem Dependency.exists_describedBy : (∃ d, Dependency.DescribedBy e d) ↔ e.IsDependency := by
  constructor
  · rintro ⟨d, helement, hname⟩
    have hmem := List.mem_map_of_mem (f := Prod.fst) helement
    exact ⟨hmem, exists_named.1 ⟨_, hname⟩⟩
  · rintro ⟨helement, hname⟩
    obtain ⟨name, hname⟩ := exists_named.2 hname
    obtain ⟨⟨_, kind⟩, hentry, rfl⟩ : ∃ entry ∈ dependencyElements, entry.1 = e.name :=
      List.mem_map.1 helement
    exact ⟨⟨kind, name⟩, hentry, hname⟩

theorem ComparisonOptions.exists_describedBy :
    (∃ d, ComparisonOptions.DescribedBy e d) ↔ e.Obeys comparisonRules := by
  rw [obeys_iff]
  constructor
  · rintro ⟨d, h⟩
    exact ⟨⟨_, h.connectionString⟩, ⟨⟨_, h.excludeDatabaseRoles⟩, ⟨_, h.excludeUsers⟩,
      ⟨_, h.excludeTables⟩, ⟨_, h.excludeViews⟩, ⟨_, h.excludeProcedures⟩,
      ⟨_, h.excludeTableValuedFunctions⟩, _, h.excludeScalarFunctions⟩, trivial, trivial⟩
  · rintro ⟨⟨_, hconnection⟩, ⟨⟨_, hroles⟩, ⟨_, husers⟩, ⟨_, htables⟩, ⟨_, hviews⟩, ⟨_, hprocedures⟩,
      ⟨_, htabular⟩, _, hscalar⟩, -, -⟩
    exact ⟨⟨_, _, _, _, _, _, _, _⟩, hconnection, hroles, husers, htables, hviews, hprocedures, htabular,
      hscalar⟩

theorem SchemaDecl.exists_describedBy : (∃ d, SchemaDecl.DescribedBy e d) ↔ e.Obeys schemaRules := by
  rw [obeys_iff]
  constructor
  · rintro ⟨d, hname, howner⟩
    exact ⟨⟨⟨_, hname⟩, _, howner⟩, trivial, trivial, trivial⟩
  · rintro ⟨⟨⟨_, hname⟩, _, howner⟩, -, -, -⟩
    exact ⟨⟨_, _⟩, hname, howner⟩

theorem PlainColumnDecl.exists_describedBy :
    (∃ d, PlainColumnDecl.DescribedBy e d) ↔ e.Obeys plainColumnRules := by
  rw [obeys_iff]
  constructor
  · rintro ⟨d, h⟩
    refine ⟨⟨⟨_, h.name⟩, _, h.type⟩, ⟨_, h.nullable⟩, ⟨exists_hasInt32.1 ⟨_, h.length⟩,
      exists_hasInt32.1 ⟨_, h.precision⟩, exists_hasInt32.1 ⟨_, h.scale⟩⟩, fun text ht => ?_⟩
    exact Keyword.mem_names.2 ⟨d.type, Option.some.inj (Eq.symm ht |>.trans h.type)⟩
  · rintro ⟨⟨⟨_, hname⟩, _, htext⟩, ⟨_, hnullable⟩, ⟨hlength, hprecision, hscale⟩, htypes⟩
    obtain ⟨type, rfl⟩ := (Keyword.mem_names (α := LogicalType)).1 (htypes _ htext)
    obtain ⟨_, hlength⟩ := exists_hasInt32.2 hlength
    obtain ⟨_, hprecision⟩ := exists_hasInt32.2 hprecision
    obtain ⟨_, hscale⟩ := exists_hasInt32.2 hscale
    exact ⟨⟨_, type, _, _, _, _⟩, hname, hnullable, htext, hlength, hprecision, hscale⟩

theorem ForeignKeyColumnDecl.exists_describedBy :
    (∃ d, ForeignKeyColumnDecl.DescribedBy e d) ↔ e.Obeys foreignKeyRules := by
  rw [obeys_iff]
  constructor
  · rintro ⟨d, h⟩
    exact ⟨⟨⟨_, h.name⟩, ⟨_, h.schema⟩, ⟨_, h.table⟩, _, h.column⟩, ⟨_, h.nullable⟩, trivial, trivial⟩
  · rintro ⟨⟨⟨_, hname⟩, ⟨_, hschema⟩, ⟨_, htable⟩, _, hcolumn⟩, ⟨_, hnullable⟩, -, -⟩
    exact ⟨⟨_, _, _, _, _⟩, hname, hnullable, hschema, htable, hcolumn⟩

theorem GroupedColumnDecl.exists_describedBy : (∃ d, GroupedColumnDecl.DescribedBy e d) ↔
    e.Obeys groupedColumnRules ∧
      ∃ hint, e.elementNamed? "ColumnReferenceHint" = some hint ∧ hint.Obeys hintRules := by
  constructor
  · rintro ⟨d, h⟩
    obtain ⟨hint, hsome, hschema, htable⟩ := h.hint
    exact ⟨obeys_iff.2 ⟨⟨⟨_, h.name⟩, ⟨_, h.column⟩, _, h.group⟩, ⟨_, h.nullable⟩, trivial, trivial⟩,
      hint, hsome, obeys_iff.2 ⟨⟨⟨_, hschema⟩, _, htable⟩, trivial, trivial, trivial⟩⟩
  · rintro ⟨h, hint, hsome, hhint⟩
    obtain ⟨⟨⟨_, hname⟩, ⟨_, hcolumn⟩, _, hgroup⟩, ⟨_, hnullable⟩, -, -⟩ := obeys_iff.1 h
    obtain ⟨⟨⟨_, hschema⟩, _, htable⟩, -, -, -⟩ := obeys_iff.1 hhint
    exact ⟨⟨_, _, _, _, _, _⟩, hname, hnullable, hcolumn, hgroup, hint, hsome, hschema, htable⟩

theorem ColumnDecl.exists_describedBy : (∃ d, ColumnDecl.DescribedBy e d) ↔ e.IsColumn := by
  constructor
  · rintro ⟨_, ⟨he, h⟩ | ⟨he, h⟩ | ⟨he, h⟩⟩
    · exact .plain he (PlainColumnDecl.exists_describedBy.1 ⟨_, h⟩)
    · exact .foreignKey he (ForeignKeyColumnDecl.exists_describedBy.1 ⟨_, h⟩)
    · obtain ⟨hattributes, hhint⟩ := GroupedColumnDecl.exists_describedBy.1 ⟨_, h⟩
      exact .grouped he hattributes hhint
  · rintro (⟨he, h⟩ | ⟨he, h⟩ | ⟨he, h, hhint⟩)
    · obtain ⟨d, hd⟩ := PlainColumnDecl.exists_describedBy.2 h
      exact ⟨_, .plain he hd⟩
    · obtain ⟨d, hd⟩ := ForeignKeyColumnDecl.exists_describedBy.2 h
      exact ⟨_, .foreignKey he hd⟩
    · obtain ⟨d, hd⟩ := GroupedColumnDecl.exists_describedBy.2 ⟨h, hhint⟩
      exact ⟨_, .grouped he hd⟩

theorem PrimaryKeyDecl.exists_describedBy : (∃ d, PrimaryKeyDecl.DescribedBy e d) ↔ e.IsPrimaryKey := by
  constructor
  · rintro ⟨d, h⟩
    exact ⟨obeys_iff.2 ⟨⟨_, h.name⟩, ⟨_, h.clustered⟩, trivial, exists_hasWord.1 ⟨_, h.compression⟩⟩,
      (exists_members exists_columnName).1 ⟨_, h.columns⟩⟩
  · rintro ⟨h, hcolumns⟩
    obtain ⟨⟨_, hname⟩, ⟨_, hclustered⟩, -, hwords⟩ := obeys_iff.1 h
    obtain ⟨_, hcompression⟩ := (exists_hasWord (α := Compression)).2 hwords
    obtain ⟨_, hcolumns⟩ := (exists_members exists_columnName).2 hcolumns
    exact ⟨⟨_, _, _, _⟩, hname, hclustered, hcompression, hcolumns⟩

theorem IndexColumn.exists_describedBy :
    (∃ d, IndexColumn.DescribedBy e d) ↔ e.Obeys indexColumnRules := by
  rw [obeys_iff]
  constructor
  · rintro ⟨d, hname, horder⟩
    exact ⟨⟨_, hname⟩, trivial, trivial, exists_hasWord.1 ⟨_, horder⟩⟩
  · rintro ⟨⟨_, hname⟩, -, -, hwords⟩
    obtain ⟨_, horder⟩ := (exists_hasWord (α := SortOrder)).2 hwords
    exact ⟨⟨_, _⟩, hname, horder⟩

theorem Index.exists_describedBy : (∃ d, Index.DescribedBy e d) ↔ e.IsIndex := by
  constructor
  · rintro ⟨d, h⟩
    exact ⟨obeys_iff.2 ⟨⟨_, h.name⟩, ⟨⟨_, h.unique⟩, _, h.clustered⟩, trivial,
        exists_hasWord.1 ⟨_, h.compression⟩⟩,
      (exists_members IndexColumn.exists_describedBy).1 ⟨_, h.columns⟩,
      (exists_members exists_columnName).1 ⟨_, h.includes⟩⟩
  · rintro ⟨h, hcolumns, hincludes⟩
    obtain ⟨⟨_, hname⟩, ⟨⟨_, hunique⟩, _, hclustered⟩, -, hwords⟩ := obeys_iff.1 h
    obtain ⟨_, hcompression⟩ := (exists_hasWord (α := Compression)).2 hwords
    obtain ⟨_, hcolumns⟩ := (exists_members IndexColumn.exists_describedBy).2 hcolumns
    obtain ⟨_, hincludes⟩ := (exists_members exists_columnName).2 hincludes
    exact ⟨⟨_, _, _, _, _, _⟩, hname, hunique, hclustered, hcompression, hcolumns, hincludes⟩

theorem TableDecl.exists_describedBy : (∃ d, TableDecl.DescribedBy e d) ↔ e.IsTable := by
  constructor
  · rintro ⟨d, h⟩
    exact ⟨obeys_iff.2 ⟨⟨⟨_, h.name⟩, _, h.schema⟩, trivial, trivial,
        exists_hasWord.1 ⟨_, h.compression⟩⟩,
      (exists_members ColumnDecl.exists_describedBy).1 ⟨_, h.columns⟩,
      (exists_option PrimaryKeyDecl.exists_describedBy).1 ⟨_, h.primaryKey⟩,
      (exists_members Index.exists_describedBy).1 ⟨_, h.indexes⟩⟩
  · rintro ⟨h, hcolumns, hkey, hindexes⟩
    obtain ⟨⟨⟨_, hname⟩, _, hschema⟩, -, -, hwords⟩ := obeys_iff.1 h
    obtain ⟨_, hcompression⟩ := (exists_hasWord (α := Compression)).2 hwords
    obtain ⟨_, hcolumns⟩ := (exists_members ColumnDecl.exists_describedBy).2 hcolumns
    obtain ⟨_, hkey⟩ := (exists_option PrimaryKeyDecl.exists_describedBy).2 hkey
    obtain ⟨_, hindexes⟩ := (exists_members Index.exists_describedBy).2 hindexes
    exact ⟨⟨_, _, _, _, _, _, _⟩, hname, hschema, hcompression, hcolumns, hkey, hindexes, rfl⟩

theorem ScriptedDecl.exists_describedBy : (∃ d, ScriptedDecl.DescribedBy e d) ↔ e.Obeys objectRules := by
  rw [obeys_iff]
  constructor
  · rintro ⟨d, hname, hschema, -⟩
    exact ⟨⟨⟨_, hname⟩, _, hschema⟩, trivial, trivial, trivial⟩
  · rintro ⟨⟨⟨_, hname⟩, _, hschema⟩, -, -, -⟩
    exact ⟨⟨_, _, _⟩, hname, hschema, rfl⟩

theorem DatabaseDecl.exists_describedBy : (∃ d, DatabaseDecl.DescribedBy e d) ↔ e.IsDatabase := by
  constructor
  · rintro ⟨d, h⟩
    exact ⟨obeys_iff.2 ⟨⟨_, h.name⟩, ⟨⟨_, h.createProject⟩, _, h.warningsAsErrors⟩, trivial,
        exists_hasWord.1 ⟨_, h.platform⟩, exists_hasWord.1 ⟨_, h.version⟩⟩,
      (exists_members exists_path).1 ⟨_, h.includes⟩,
      (exists_members Dependency.exists_describedBy).1 ⟨_, h.dependencies⟩,
      (exists_option ComparisonOptions.exists_describedBy).1 ⟨_, h.comparison⟩,
      (exists_members SchemaDecl.exists_describedBy).1 ⟨_, h.schemas⟩,
      (exists_members TableDecl.exists_describedBy).1 ⟨_, h.tables⟩,
      (exists_members ScriptedDecl.exists_describedBy).1 ⟨_, h.views⟩,
      (exists_members ScriptedDecl.exists_describedBy).1 ⟨_, h.functions⟩,
      (exists_members ScriptedDecl.exists_describedBy).1 ⟨_, h.procedures⟩⟩
  · rintro ⟨h, hincludes, hdependencies, hcomparison, hschemas, htables, hviews, hfunctions, hprocedures⟩
    obtain ⟨⟨_, hname⟩, ⟨⟨_, hproject⟩, _, hwarnings⟩, -, hplatforms, hversions⟩ := obeys_iff.1 h
    obtain ⟨_, hplatform⟩ := (exists_hasWord (α := Platform)).2 hplatforms
    obtain ⟨_, hversion⟩ := (exists_hasWord (α := ServerVersion)).2 hversions
    obtain ⟨_, hincludes⟩ := (exists_members exists_path).2 hincludes
    obtain ⟨_, hdependencies⟩ := (exists_members Dependency.exists_describedBy).2 hdependencies
    obtain ⟨_, hcomparison⟩ := (exists_option ComparisonOptions.exists_describedBy).2 hcomparison
    obtain ⟨_, hschemas⟩ := (exists_members SchemaDecl.exists_describedBy).2 hschemas
    obtain ⟨_, htables⟩ := (exists_members TableDecl.exists_describedBy).2 htables
    obtain ⟨_, hviews⟩ := (exists_members ScriptedDecl.exists_describedBy).2 hviews
    obtain ⟨_, hfunctions⟩ := (exists_members ScriptedDecl.exists_describedBy).2 hfunctions
    obtain ⟨_, hprocedures⟩ := (exists_members ScriptedDecl.exists_describedBy).2 hprocedures
    exact ⟨⟨_, _, _, _, _, _, _, _, _, _, _, _, _⟩, hname, hproject, hplatform, hversion, hwarnings,
      hincludes, hdependencies, hcomparison, hschemas, htables, hviews, hfunctions, hprocedures⟩

theorem SolutionDecl.exists_describedBy : (∃ d, SolutionDecl.DescribedBy e d) ↔ e.IsSolution := by
  constructor
  · rintro ⟨d, hname, hdatabases⟩
    exact ⟨exists_named.1 ⟨_, hname⟩,
      (exists_members DatabaseDecl.exists_describedBy).1 ⟨_, hdatabases⟩⟩
  · rintro ⟨hname, hdatabases⟩
    obtain ⟨_, hname⟩ := exists_named.2 hname
    obtain ⟨_, hdatabases⟩ := (exists_members DatabaseDecl.exists_describedBy).2 hdatabases
    exact ⟨⟨_, _⟩, hname, hdatabases⟩

/-- A document with the root of definitions can be read exactly when its solutions are of the grammar,
and what is read is what the document describes. -/
theorem Definition.read_exactly_the_grammar {root : Element} (h : root.name = "Sql") :
    ((∃ found, Definition.ofElement root = .ok found) ↔
      ∀ e ∈ root.elementsNamed "SqlProject", e.IsSolution) ∧
      ∀ found, Definition.ofElement root = .ok found ↔ ∃ d, found = some d ∧ d.DescribedBy root := by
  refine ⟨?_, fun found => ofElement_eq_ok h⟩
  rw [← exists_members SolutionDecl.exists_describedBy]
  simp only [ofElement_eq_ok h]
  constructor
  · rintro ⟨_, d, -, hd⟩
    exact ⟨d.solutions, hd⟩
  · rintro ⟨solutions, hs⟩
    exact ⟨_, ⟨solutions⟩, rfl, hs⟩

/-- A solution with its databases in two containers, and a dependency of some kind. -/
def splitDocument (dependency : String) : Element :=
  ⟨"Sql", [], [.element "SqlProject" [⟨none, "Name", "Store"⟩] [
    .element "Databases" [] [.element "Database" [⟨none, "Name", "Core"⟩] []],
    .comment,
    .element "Databases" [] [.element "Database" [⟨none, "Name", "Shop"⟩] [
      .element "Dependencies" [] [.element dependency [⟨none, "Name", "master"⟩] []]]]]]⟩

theorem split_document_read : (splitDocument "SystemDependency").name = "Sql" ∧
    (∃ d, Definition.ofElement (splitDocument "SystemDependency") = .ok (some d) ∧
      d.DescribedBy (splitDocument "SystemDependency") ∧
      d.solutions.map (fun solution => solution.databases.map (·.name)) = [["Core", "Shop"]]) ∧
    ¬ ∀ e ∈ (splitDocument "Dependency").elementsNamed "SqlProject", e.IsSolution := by
  obtain ⟨d, hread, hnames⟩ : ∃ d, Definition.ofElement (splitDocument "SystemDependency") = .ok (some d) ∧
      d.solutions.map (fun solution => solution.databases.map (·.name)) = [["Core", "Shop"]] :=
    ⟨_, rfl, rfl⟩
  obtain ⟨_, ⟨⟩, hdescribed⟩ := ((Definition.read_exactly_the_grammar rfl).2 _).1 hread
  refine ⟨rfl, ⟨d, hread, hdescribed, hnames⟩, fun hall => ?_⟩
  obtain ⟨found, hfound⟩ := (Definition.read_exactly_the_grammar rfl).1.2 hall
  have hfails : Definition.ofElement (splitDocument "Dependency") =
    .error (.unknownDependencyElement "Dependency") := rfl
  rw [hfails] at hfound
  cases hfound

end DatabaseProject
