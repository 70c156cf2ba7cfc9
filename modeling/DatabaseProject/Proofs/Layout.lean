import DatabaseProject.Proofs.Grammar

/-!
# The layout of definitions

Every definition can be written as a tree: one container a list, one attribute a scalar, statements as
attributes. A terse tree leaves out the attributes that have their defaults. The reader gives back the
definition from either.
-/

namespace DatabaseProject

open DatabaseProject.Xml Outcome

namespace Layout

/-- An element with those attributes that have a value. -/
def element (name : String) (fields : List (String × Option String)) (children : List Element) : Element :=
  ⟨name, fields.filterMap fun field => field.2.map fun value => ⟨none, field.1, value⟩,
    children.map Element.toNode⟩

/-- The container of a list. -/
def list (name : String) (members : List Element) : Element := element name [] members

/-- The text of a value, or none where a default is left out. -/
def valueText {α : Type} [DecidableEq α] (terse : Bool) (default : α) (write : α → String) (value : α) :
    Option String :=
  if terse = true ∧ value = default then none else some (write value)

variable {name field : String} {value : Option String} {fields : List (String × Option String)}
  {children : List Element} {e : Element}

@[simp] theorem name_element : (element name fields children).name = name := rfl

@[simp] theorem name_list : (list name children).name = name := rfl

@[simp] theorem elements_element : (element name fields children).elements = children := by
  simp only [Element.elements, element, List.filterMap_map]
  exact List.filterMap_some

@[simp] theorem elements_list : (list name children).elements = children := elements_element

@[simp] theorem attribute?_nil : (element name [] children).attribute? field = none := rfl

@[simp] theorem attribute?_cons {other : String} :
    (element name ((other, value) :: fields) children).attribute? field =
      if other = field then value.or ((element name fields children).attribute? field)
      else (element name fields children).attribute? field := by
  cases value with
  | none => simp [element, Element.attribute?]
  | some text =>
    by_cases h : other = field
    · simp [element, Element.attribute?, h]
    · simp [element, Element.attribute?, h]

theorem members_element {container : String} : (element name fields children).members container =
    (children.filter (·.name == container)).flatMap Element.elements := by
  rw [Element.members, Element.elementsNamed, elements_element]

theorem elementNamed?_element : (element name fields children).elementNamed? field =
    children.find? (·.name == field) := by
  rw [Element.elementNamed?, elements_element]

theorem hasBool_of_eq (terse : Bool) {b : Bool}
    (h : e.attribute? name = valueText terse false toString b) : e.HasBool name b := by
  rw [Element.HasBool, h, valueText]
  split_ifs with hdefault
  · exact hdefault.2
  · exact List.forall₂_same.2 fun c _ => .inl rfl

theorem hasInt32_of_eq (terse : Bool) {default n : Int32}
    (h : e.attribute? name = valueText terse default toString n) : e.HasInt32 name default n := by
  rw [Element.HasInt32, h, valueText]
  split_ifs with hdefault
  · exact hdefault.2
  · exact Text.Decimal.int32?_eq_some.1 (Text.Decimal.int32?_toString n)

theorem hasWord_of_eq (terse : Bool) {α : Type} [Keyword α] [Inhabited α] [DecidableEq α] {word : α}
    (usual : α) (hu : usual = default) (h : e.attribute? name = valueText terse usual Keyword.name word) :
    e.HasWord name word := by
  rw [Element.HasWord, h, valueText]
  split_ifs with hdefault
  · exact hdefault.2.trans hu
  · rfl

theorem forall₂_written {α : Type} {R : Element → α → Prop} {write : α → Element} (h : ∀ a, R (write a) a)
    (values : List α) : List.Forall₂ R (values.map write) values := by
  rw [List.forall₂_map_left_iff, List.forall₂_same]
  exact fun a _ => h a

end Layout

open Layout

variable (terse : Bool)

def Dependency.toElement (d : Dependency) : Element :=
  let name := match d.kind with
    | .database => "DatabaseDependency"
    | .system => "SystemDependency"
    | .dacpac => "DacpacDependency"
  element name [("Name", d.name)] []

def ComparisonOptions.toElement (d : ComparisonOptions) : Element :=
  element "SchemaCompare" [
    ("ConnectionString", d.connectionString),
    ("ExcludeDatabaseRoles", valueText terse false toString d.excludeDatabaseRoles),
    ("ExcludeUsers", valueText terse false toString d.excludeUsers),
    ("ExcludeTables", valueText terse false toString d.excludeTables),
    ("ExcludeViews", valueText terse false toString d.excludeViews),
    ("ExcludeProcedures", valueText terse false toString d.excludeProcedures),
    ("ExcludeTableValuedFunctions", valueText terse false toString d.excludeTableValuedFunctions),
    ("ExcludeScalarFunctions", valueText terse false toString d.excludeScalarFunctions)] []

def SchemaDecl.toElement (d : SchemaDecl) : Element :=
  element "Schema" [("Name", d.name), ("Owner", d.owner)] []

def ColumnDecl.toElement : ColumnDecl → Element
  | .plain d => element "TableColumn" [
      ("Name", d.name),
      ("DataType", d.type.name),
      ("Length", valueText terse 0 toString d.length),
      ("Precision", valueText terse (-1) toString d.precision),
      ("Scale", valueText terse (-1) toString d.scale),
      ("IsNullable", valueText terse false toString d.nullable)] []
  | .foreignKey d => element "ForeignKey" [
      ("Name", d.name),
      ("SchemaName", d.schema),
      ("TableName", d.table),
      ("ColumnName", d.column),
      ("IsNullable", valueText terse false toString d.nullable)] []
  | .grouped d => element "MultipleColumnForeignKey" [
      ("Name", d.name),
      ("ForeignColumnName", d.column),
      ("MultipleColumnTableReferenceGroupName", d.group),
      ("IsNullable", valueText terse false toString d.nullable)]
      [element "ColumnReferenceHint" [("SchemaName", d.schema), ("TableName", d.table)] []]

/-- An element that names a column. -/
def Layout.columnElement (element name : String) : Element :=
  Layout.element element [("ColumnName", name)] []

def PrimaryKeyDecl.toElement (d : PrimaryKeyDecl) : Element :=
  element "PrimaryKey" [
    ("Name", d.name),
    ("Clustered", valueText terse false toString d.clustered),
    ("CompressionType", valueText terse .none Keyword.name d.compression)]
    [list "TablePrimaryKeyColumns" (d.columns.map (columnElement "PrimaryKeyColumn"))]

def IndexColumn.toElement (d : IndexColumn) : Element :=
  element "IndexColumn" [
    ("ColumnName", d.name),
    ("SortOrder", valueText terse .asc Keyword.name d.order)] []

def Index.toElement (d : Index) : Element :=
  element "Index" [
    ("Name", d.name),
    ("Unique", valueText terse false toString d.unique),
    ("Clustered", valueText terse false toString d.clustered),
    ("CompressionType", valueText terse .none Keyword.name d.compression)]
    [list "TableIndexColumns" (d.columns.map (IndexColumn.toElement terse)),
      list "TableIndexIncludes" (d.includes.map (columnElement "IndexInclude"))]

def TableDecl.toElement (d : TableDecl) : Element :=
  element "Table" [
    ("Name", d.name),
    ("Schema", d.schema),
    ("CompressionType", valueText terse .none Keyword.name d.compression)]
    ([list "TableColumns" (d.columns.map (ColumnDecl.toElement terse))]
      ++ (d.primaryKey.map (PrimaryKeyDecl.toElement terse)).toList
      ++ [list "Indexes" (d.indexes.map (Index.toElement terse)),
        list "Triggers" (d.triggers.map fun trigger => element "Trigger" [("Statement", some trigger)] [])])

def ScriptedDecl.toElement (name : String) (d : ScriptedDecl) : Element :=
  element name [("Name", d.name), ("Schema", d.schema), ("Statement", d.statement)] []

def DatabaseDecl.toElement (d : DatabaseDecl) : Element :=
  element "Database" [
    ("Name", d.name),
    ("CreateProject", valueText terse false toString d.createProject),
    ("TargetSqlServerPlatform", valueText terse .sqlServer Keyword.name d.platform),
    ("TargetSqlServerVersion", valueText terse .sqlServer2019 Keyword.name d.version),
    ("TreatTSqlWarningsAsErrors", valueText terse false toString d.warningsAsErrors)]
    ([list "DatabaseIncludes" (d.includes.map fun path => element "Folder" [("Path", some path)] []),
        list "Dependencies" (d.dependencies.map Dependency.toElement)]
      ++ (d.comparison.map (ComparisonOptions.toElement terse)).toList
      ++ [list "Schemas" (d.schemas.map SchemaDecl.toElement),
        list "Tables" (d.tables.map (TableDecl.toElement terse)),
        list "Views" (d.views.map (ScriptedDecl.toElement "View")),
        list "Functions" (d.functions.map (ScriptedDecl.toElement "Function")),
        list "Procedures" (d.procedures.map (ScriptedDecl.toElement "Procedure"))])

def SolutionDecl.toElement (d : SolutionDecl) : Element :=
  element "SqlProject" [("Name", d.name)] [list "Databases" (d.databases.map (DatabaseDecl.toElement terse))]

def Definition.toElement (d : Definition) : Element :=
  element "Sql" [] (d.solutions.map (SolutionDecl.toElement terse))

theorem Dependency.describedBy_toElement (d : Dependency) : d.DescribedBy d.toElement := by
  obtain ⟨kind, name⟩ := d
  cases kind <;> exact ⟨by simp [toElement, dependencyElements], by simp [toElement]⟩

theorem SchemaDecl.describedBy_toElement (d : SchemaDecl) : d.DescribedBy d.toElement :=
  ⟨by simp [toElement], by simp [toElement]⟩

theorem ComparisonOptions.describedBy_toElement (d : ComparisonOptions) :
    d.DescribedBy (d.toElement terse) where
  connectionString := by simp [toElement]
  excludeDatabaseRoles := hasBool_of_eq terse (by simp [toElement])
  excludeUsers := hasBool_of_eq terse (by simp [toElement])
  excludeTables := hasBool_of_eq terse (by simp [toElement])
  excludeViews := hasBool_of_eq terse (by simp [toElement])
  excludeProcedures := hasBool_of_eq terse (by simp [toElement])
  excludeTableValuedFunctions := hasBool_of_eq terse (by simp [toElement])
  excludeScalarFunctions := hasBool_of_eq terse (by simp [toElement])

theorem ColumnDecl.describedBy_toElement (d : ColumnDecl) : d.DescribedBy (d.toElement terse) := by
  cases d with
  | plain d =>
    exact .plain rfl {
      name := by simp [toElement]
      nullable := hasBool_of_eq terse (by simp [toElement])
      type := by simp [toElement]
      length := hasInt32_of_eq terse (by simp [toElement])
      precision := hasInt32_of_eq terse (by simp [toElement])
      scale := hasInt32_of_eq terse (by simp [toElement]) }
  | foreignKey d =>
    exact .foreignKey rfl {
      name := by simp [toElement]
      nullable := hasBool_of_eq terse (by simp [toElement])
      schema := by simp [toElement]
      table := by simp [toElement]
      column := by simp [toElement] }
  | grouped d =>
    exact .grouped rfl {
      name := by simp [toElement]
      nullable := hasBool_of_eq terse (by simp [toElement])
      column := by simp [toElement]
      group := by simp [toElement]
      hint := ⟨_, by rw [toElement, elementNamed?_element]; rfl, by simp, by simp⟩ }

theorem Layout.namesColumns (element : String) (names : List String) :
    NamesColumns (names.map (columnElement element)) names :=
  forall₂_written (fun name => by simp [columnElement]) names

theorem PrimaryKeyDecl.describedBy_toElement (d : PrimaryKeyDecl) : d.DescribedBy (d.toElement terse) where
  name := by simp [toElement]
  clustered := hasBool_of_eq terse (by simp [toElement])
  compression := hasWord_of_eq terse .none rfl (by simp [toElement])
  columns := by simpa [toElement, members_element] using namesColumns "PrimaryKeyColumn" d.columns

theorem IndexColumn.describedBy_toElement (d : IndexColumn) : d.DescribedBy (d.toElement terse) where
  name := by simp [toElement]
  order := hasWord_of_eq terse .asc rfl (by simp [toElement])

theorem Index.describedBy_toElement (d : Index) : d.DescribedBy (d.toElement terse) where
  name := by simp [toElement]
  unique := hasBool_of_eq terse (by simp [toElement])
  clustered := hasBool_of_eq terse (by simp [toElement])
  compression := hasWord_of_eq terse .none rfl (by simp [toElement])
  columns := by
    simpa [toElement, members_element] using
      forall₂_written (IndexColumn.describedBy_toElement terse) d.columns
  includes := by simpa [toElement, members_element] using namesColumns "IndexInclude" d.includes

/-- Between containers there may be an element of another name. -/
theorem Layout.members_optional {before after : List Element} {inner : Option Element} {container : String}
    (h : ∀ other ∈ inner, other.name ≠ container) :
    (element name fields (before ++ inner.toList ++ after)).members container =
      (element name fields (before ++ after)).members container := by
  have hnone : inner.toList.filter (·.name == container) = [] := by
    simpa [List.filter_eq_nil_iff] using h
  simp only [members_element, List.filter_append, hnone, List.append_nil]

theorem TableDecl.describedBy_toElement (d : TableDecl) : d.DescribedBy (d.toElement terse) where
  name := by simp [toElement]
  schema := by simp [toElement]
  compression := hasWord_of_eq terse .none rfl (by simp [toElement])
  columns := by
    rw [toElement, members_optional (by simp [PrimaryKeyDecl.toElement])]
    simpa [members_element] using forall₂_written (ColumnDecl.describedBy_toElement terse) d.columns
  primaryKey := by
    rw [toElement, elementNamed?_element]
    cases d.primaryKey with
    | none => exact .none
    | some key => exact .some (key.describedBy_toElement terse)
  indexes := by
    rw [toElement, members_optional (by simp [PrimaryKeyDecl.toElement])]
    simpa [members_element] using forall₂_written (Index.describedBy_toElement terse) d.indexes
  triggers := by
    rw [toElement, members_optional (by simp [PrimaryKeyDecl.toElement])]
    simp [members_element, Element.statement, Function.comp_def]

theorem ScriptedDecl.describedBy_toElement (element : String) (d : ScriptedDecl) :
    d.DescribedBy (d.toElement element) :=
  ⟨by simp [toElement], by simp [toElement], by simp [toElement, Element.statement]⟩

theorem DatabaseDecl.describedBy_toElement (d : DatabaseDecl) : d.DescribedBy (d.toElement terse) where
  name := by simp [toElement]
  createProject := hasBool_of_eq terse (by simp [toElement])
  platform := hasWord_of_eq terse .sqlServer rfl (by simp [toElement])
  version := hasWord_of_eq terse .sqlServer2019 rfl (by simp [toElement])
  warningsAsErrors := hasBool_of_eq terse (by simp [toElement])
  includes := by
    rw [toElement, members_optional (by simp [ComparisonOptions.toElement])]
    simp [members_element]
  dependencies := by
    rw [toElement, members_optional (by simp [ComparisonOptions.toElement])]
    simpa [members_element] using forall₂_written Dependency.describedBy_toElement d.dependencies
  comparison := by
    rw [toElement, elementNamed?_element]
    cases d.comparison with
    | none => exact .none
    | some options => exact .some (options.describedBy_toElement terse)
  schemas := by
    rw [toElement, members_optional (by simp [ComparisonOptions.toElement])]
    simpa [members_element] using forall₂_written SchemaDecl.describedBy_toElement d.schemas
  tables := by
    rw [toElement, members_optional (by simp [ComparisonOptions.toElement])]
    simpa [members_element] using forall₂_written (TableDecl.describedBy_toElement terse) d.tables
  views := by
    rw [toElement, members_optional (by simp [ComparisonOptions.toElement])]
    simpa [members_element] using forall₂_written (ScriptedDecl.describedBy_toElement "View") d.views
  functions := by
    rw [toElement, members_optional (by simp [ComparisonOptions.toElement])]
    simpa [members_element] using
      forall₂_written (ScriptedDecl.describedBy_toElement "Function") d.functions
  procedures := by
    rw [toElement, members_optional (by simp [ComparisonOptions.toElement])]
    simpa [members_element] using
      forall₂_written (ScriptedDecl.describedBy_toElement "Procedure") d.procedures

theorem SolutionDecl.describedBy_toElement (d : SolutionDecl) : d.DescribedBy (d.toElement terse) where
  name := by simp [toElement]
  databases := by
    simpa [toElement, members_element] using
      forall₂_written (DatabaseDecl.describedBy_toElement terse) d.databases

/-- A definition is read back from the tree that it is written as, with or without its defaults. -/
theorem Definition.ofElement_toElement (d : Definition) :
    Definition.ofElement (d.toElement terse) = .ok (some d) := by
  refine (ofElement_eq_ok rfl).2 ⟨d, rfl, ?_⟩
  have hnamed : (d.toElement terse).elementsNamed "SqlProject" =
      d.solutions.map (SolutionDecl.toElement terse) := by
    rw [Element.elementsNamed, toElement, elements_element, List.filter_eq_self]
    simp [SolutionDecl.toElement]
  rw [DescribedBy, hnamed]
  exact forall₂_written (SolutionDecl.describedBy_toElement terse) d.solutions

end DatabaseProject
