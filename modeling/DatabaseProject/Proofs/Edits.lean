import DatabaseProject.Proofs.Grammar

/-!
# Edits that a reader does not notice

What the reader makes of an element depends on where the element stands: its role says which
attributes are read, which children are looked for, and whether its text is. An `Edit` changes what the
role does not speak of, here or further inside. Any number of edits leave the outcome of reading as it
was, the fault included.
-/

namespace DatabaseProject

open DatabaseProject.Xml Outcome

/-- What an element declares. -/
inductive ElementKind where
  | definition | solution | database | folder | dependency | comparison | schema | table | column
  | hint | primaryKey | columnName | index | indexColumn | trigger | scripted
  deriving DecidableEq

/-- What an element is for the reader. -/
inductive ElementRole where
  | element (kind : ElementKind)
  /-- The container of such elements. -/
  | container (kind : ElementKind)
  deriving DecidableEq

/-- How the children of a name are looked for. -/
inductive Search where
  | each (kind : ElementKind)
  /-- Only the first child of the name is read. -/
  | first (kind : ElementKind)
  /-- The children are containers, and their members are read. -/
  | members (kind : ElementKind)
  deriving DecidableEq

namespace Search

/-- What is read in the end. -/
def kind : Search → ElementKind
  | each kind | first kind | members kind => kind

/-- The role of a child that is looked for. -/
def role : Search → ElementRole
  | each kind | first kind => .element kind
  | members kind => .container kind

/-- What a search of a name finds in an element. -/
def found (e : Element) (name : String) : Search → List Element
  | each _ => e.elementsNamed name
  | first _ => (e.elementNamed? name).toList
  | members _ => e.members name

end Search

namespace ElementKind

/-- The attributes that are read of an element of a name, besides `Name`. -/
@[simp] def ownAttributes (element : String) : ElementKind → List String
  | definition | solution | dependency => []
  | database => ["CreateProject", "TargetSqlServerPlatform", "TargetSqlServerVersion",
    "TreatTSqlWarningsAsErrors"]
  | folder => ["Path"]
  | comparison => ["ConnectionString", "ExcludeDatabaseRoles", "ExcludeUsers", "ExcludeTables",
    "ExcludeViews", "ExcludeProcedures", "ExcludeTableValuedFunctions", "ExcludeScalarFunctions"]
  | schema => ["Owner"]
  | table => ["Schema", "CompressionType"]
  | column => "IsNullable" :: match element with
    | "TableColumn" => ["DataType", "Length", "Precision", "Scale"]
    | "ForeignKey" => ["SchemaName", "TableName", "ColumnName"]
    | "MultipleColumnForeignKey" => ["ForeignColumnName", "MultipleColumnTableReferenceGroupName"]
    | _ => []
  | hint => ["SchemaName", "TableName"]
  | primaryKey => ["Clustered", "CompressionType"]
  | columnName => ["ColumnName"]
  | index => ["Unique", "Clustered", "CompressionType"]
  | indexColumn => ["ColumnName", "SortOrder"]
  | trigger => ["Statement"]
  | scripted => ["Schema", "Statement"]

/-- The children that are looked for in an element of a name. -/
def searches (element : String) : ElementKind → List (String × Search)
  | definition => [("SqlProject", .each solution)]
  | solution => [("Databases", .members database)]
  | database => [("DatabaseIncludes", .members folder), ("Dependencies", .members dependency),
    ("SchemaCompare", .first comparison), ("Schemas", .members schema), ("Tables", .members table),
    ("Views", .members scripted), ("Functions", .members scripted), ("Procedures", .members scripted)]
  | table => [("TableColumns", .members column), ("PrimaryKey", .first primaryKey),
    ("Indexes", .members index), ("Triggers", .members trigger)]
  | column => if element = "MultipleColumnForeignKey" then [("ColumnReferenceHint", .first hint)] else []
  | primaryKey => [("TablePrimaryKeyColumns", .members columnName)]
  | index => [("TableIndexColumns", .members indexColumn), ("TableIndexIncludes", .members columnName)]
  | folder | dependency | comparison | schema | hint | columnName | indexColumn | trigger | scripted => []

/-- The element has a statement, in an attribute or in its text. -/
def hasStatement : ElementKind → Bool
  | trigger | scripted => true
  | _ => false

end ElementKind

namespace ElementRole

/-- The attributes that are read of an element of a name. `Name` counts as read, because faults tell it. -/
def attributes (element : String) : ElementRole → List String
  | .element kind => "Name" :: kind.ownAttributes element
  | .container _ => ["Name"]

/-- How a child of a name is looked for. -/
def search? (element name : String) : ElementRole → Option Search
  | .element kind => (kind.searches element).lookup name
  | .container kind => some (.each kind)

/-- The text of the element is read, as its statement. -/
def ReadsText (e : Element) : ElementRole → Prop
  | .element kind => kind.hasStatement = true ∧ e.attribute? "Statement" = none
  | .container _ => False

/-- Children of different names can change places. -/
def IsKeyed : ElementRole → Prop
  | .element kind => kind.hasStatement = false
  | .container _ => False

end ElementRole

namespace Xml.Node

/-- A comment or a processing instruction. -/
def IsRemark (node : Node) : Prop := node = .comment ∨ node = .instruction

theorem IsRemark.element? {node : Node} (h : node.IsRemark) : node.element? = none := by
  rcases h with rfl | rfl <;> rfl

theorem IsRemark.text? {node : Node} (h : node.IsRemark) : node.text? = none := by
  rcases h with rfl | rfl <;> rfl

/-- The node is an element of a name. -/
def isNamed (name : String) : Node → Bool
  | element own _ _ => own == name
  | _ => false

end Xml.Node

/-- One edit of an element of a role. Where it puts something in, it is read backwards as taking the
same thing out. -/
inductive Edit : ElementRole → Element → Element → Prop
  | remark {role : ElementRole} {name : String} {attributes : List Attribute} {before after : List Node}
    (remark : Node) (h : remark.IsRemark) :
    Edit role ⟨name, attributes, before ++ after⟩ ⟨name, attributes, before ++ remark :: after⟩
  | remarkInText {role : ElementRole} {name : String} {attributes : List Attribute}
    {before after : List Node} {first second : String} (remark : Node) (h : remark.IsRemark) :
    Edit role ⟨name, attributes, before ++ .text (first ++ second) :: after⟩
      ⟨name, attributes, before ++ .text first :: remark :: .text second :: after⟩
  | text {role : ElementRole} {name : String} {attributes : List Attribute} {before after : List Node}
    (content : String) (h : ¬ role.ReadsText ⟨name, attributes, before ++ after⟩) :
    Edit role ⟨name, attributes, before ++ after⟩ ⟨name, attributes, before ++ .text content :: after⟩
  | child {role : ElementRole} {name : String} {attributes : List Attribute} {before after : List Node}
    (child : Element) (h : role.search? name child.name = none) :
    Edit role ⟨name, attributes, before ++ after⟩ ⟨name, attributes, before ++ child.toNode :: after⟩
  /-- Where only the first child of a name is read, another one behind it does not matter. -/
  | surplus {role : ElementRole} {name : String} {attributes : List Attribute} {before after : List Node}
    {kind : ElementKind} (first child : Element)
    (h : role.search? name child.name = some (.first kind)) (hfirst : first.toNode ∈ before)
    (hname : first.name = child.name) :
    Edit role ⟨name, attributes, before ++ after⟩ ⟨name, attributes, before ++ child.toNode :: after⟩
  | unread {role : ElementRole} {name : String} {before after : List Attribute} {children : List Node}
    (a : Attribute) (h : a.space.isSome ∨ a.name ∉ role.attributes name) :
    Edit role ⟨name, before ++ after, children⟩ ⟨name, before ++ a :: after, children⟩
  /-- Children change places, but not those of one name among themselves. -/
  | permute {role : ElementRole} {name : String} {attributes : List Attribute} {children others : List Node}
    (h : role.IsKeyed) (hperm : children.Perm others)
    (hnames : ∀ n, children.filter (Node.isNamed n) = others.filter (Node.isNamed n)) :
    Edit role ⟨name, attributes, children⟩ ⟨name, attributes, others⟩
  /-- A container becomes two. -/
  | split {role : ElementRole} {name : String} {attributes : List Attribute} {before after : List Node}
    {container : String} {kind : ElementKind} {own other : List Attribute} {front back : List Node}
    (h : role.search? name container = some (.members kind)) :
    Edit role ⟨name, attributes, before ++ .element container own (front ++ back) :: after⟩
      ⟨name, attributes,
        before ++ .element container own front :: .element container other back :: after⟩
  /-- An edit of a child, in the role in which it is looked for. -/
  | inside {role : ElementRole} {name : String} {attributes : List Attribute} {before after : List Node}
    {search : Search} {child edited : Element} (hsearch : role.search? name child.name = some search)
    (h : Edit search.role child edited) :
    Edit role ⟨name, attributes, before ++ child.toNode :: after⟩
      ⟨name, attributes, before ++ edited.toNode :: after⟩

/-- Two elements are the same to the reader. -/
def ElementKind.ReadsAlike (e other : Element) : ElementKind → Prop
  | definition => Definition.ofElement e = Definition.ofElement other
  | solution => SolutionDecl.ofElement e = SolutionDecl.ofElement other
  | database => DatabaseDecl.ofElement e = DatabaseDecl.ofElement other
  | folder => e.required "Path" = other.required "Path"
  | dependency => Dependency.ofElement e = Dependency.ofElement other
  | comparison => ComparisonOptions.ofElement e = ComparisonOptions.ofElement other
  | schema => SchemaDecl.ofElement e = SchemaDecl.ofElement other
  | table => TableDecl.ofElement e = TableDecl.ofElement other
  | column => ColumnDecl.ofElement e = ColumnDecl.ofElement other
  | hint => e.required "SchemaName" = other.required "SchemaName" ∧
    e.required "TableName" = other.required "TableName"
  | primaryKey => PrimaryKeyDecl.ofElement e = PrimaryKeyDecl.ofElement other
  | columnName => e.required "ColumnName" = other.required "ColumnName"
  | index => Index.ofElement e = Index.ofElement other
  | indexColumn => IndexColumn.ofElement e = IndexColumn.ofElement other
  | trigger => e.statement = other.statement
  | scripted => ScriptedDecl.ofElement e = ScriptedDecl.ofElement other

theorem ElementKind.ReadsAlike.refl (kind : ElementKind) (e : Element) : kind.ReadsAlike e e := by
  cases kind
  case hint => exact ⟨rfl, rfl⟩
  all_goals rfl

/-- Two elements agree in everything that an element of the kind is asked for. -/
structure Agree (kind : ElementKind) (e other : Element) : Prop where
  name : e.name = other.name
  attributes : ∀ n ∈ "Name" :: kind.ownAttributes e.name, e.attribute? n = other.attribute? n
  statement : kind.hasStatement = true → e.statement = other.statement
  found : ∀ n search, (kind.searches e.name).lookup n = some search →
    List.Forall₂ search.kind.ReadsAlike (search.found e n) (search.found other n)

/-- Two elements are the same to the reader in a role. -/
def ElementRole.ReadsAlike (e other : Element) : ElementRole → Prop
  | .element kind => kind.ReadsAlike e other
  | .container kind => List.Forall₂ kind.ReadsAlike e.elements other.elements

theorem mapM_congr_of_forall₂ {α β ε : Type} {f : α → Except ε β} {xs ys : List α}
    (h : List.Forall₂ (fun x y => f x = f y) xs ys) : xs.mapM f = ys.mapM f := by
  induction h with
  | nil => rfl
  | cons hfirst _ ih => rw [List.mapM_cons, List.mapM_cons, hfirst, ih]

theorem mapM_congr_of_optionRel {α β ε : Type} {f : α → Except ε β} {x y : Option α}
    (h : Option.Rel (fun x y => f x = f y) x y) : x.mapM f = y.mapM f := by
  cases h with
  | none => rfl
  | @some a b hsame =>
    change (f a >>= fun c => pure (some c)) = (f b >>= fun c => pure (some c))
    rw [hsame]

theorem optionRel_of_toList {α β : Type} {R : α → β → Prop} {x : Option α} {y : Option β}
    (h : List.Forall₂ R x.toList y.toList) : Option.Rel R x y := by
  cases x <;> cases y <;> cases h
  · exact .none
  · exact .some ‹_›

namespace Agree

variable {kind : ElementKind} {e other : Element} {n : String}

theorem attribute? (h : Agree kind e other) (hn : n ∈ "Name" :: kind.ownAttributes e.name) :
    e.attribute? n = other.attribute? n := h.attributes n hn

theorem missing (h : Agree kind e other) : e.missing n = other.missing n := by
  rw [Element.missing, Element.missing, h.name, h.attribute? (List.mem_cons_self ..)]

theorem required (h : Agree kind e other) (n : String) (hn : n ∈ "Name" :: kind.ownAttributes e.name) :
    e.required n = other.required n := by
  rw [Element.required, Element.required, h.attribute? hn, h.missing]

theorem bool (h : Agree kind e other) (n : String) (hn : n ∈ "Name" :: kind.ownAttributes e.name) :
    e.bool n = other.bool n := by
  rw [Element.bool, Element.bool, h.attribute? hn, h.name]

theorem int32 (h : Agree kind e other) (n : String) (default : Int32)
    (hn : n ∈ "Name" :: kind.ownAttributes e.name) :
    e.int32 n default = other.int32 n default := by
  rw [Element.int32, Element.int32, h.attribute? hn, h.name]

theorem keyword? {α : Type} [Keyword α] (h : Agree kind e other) (n : String)
    (hn : n ∈ "Name" :: kind.ownAttributes e.name) :
    (e.keyword? n : Reading (Option α)) = other.keyword? n := by
  rw [Element.keyword?, Element.keyword?, h.attribute? hn]

theorem keyword {α : Type} [Keyword α] [Inhabited α] (h : Agree kind e other) (n : String)
    (hn : n ∈ "Name" :: kind.ownAttributes e.name) : (e.keyword n : Reading α) = other.keyword n := by
  rw [Element.keyword, Element.keyword, h.keyword? n hn]

variable {α : Type} {f : Element → Reading α}

theorem mapM_members (h : Agree kind e other) (n : String) (inner : ElementKind)
    (hn : (kind.searches e.name).lookup n = some (.members inner))
    (hf : ∀ a b, inner.ReadsAlike a b → f a = f b) : (e.members n).mapM f = (other.members n).mapM f :=
  mapM_congr_of_forall₂ ((h.found _ _ hn).imp hf)

theorem mapM_elementsNamed (h : Agree kind e other) (n : String) (inner : ElementKind)
    (hn : (kind.searches e.name).lookup n = some (.each inner))
    (hf : ∀ a b, inner.ReadsAlike a b → f a = f b) :
    (e.elementsNamed n).mapM f = (other.elementsNamed n).mapM f :=
  mapM_congr_of_forall₂ ((h.found _ _ hn).imp hf)

theorem elementNamed? (h : Agree kind e other) (n : String) (inner : ElementKind)
    (hn : (kind.searches e.name).lookup n = some (.first inner)) :
    Option.Rel inner.ReadsAlike (e.elementNamed? n) (other.elementNamed? n) :=
  optionRel_of_toList (h.found _ _ hn)

theorem mapM_elementNamed? (h : Agree kind e other) (n : String) (inner : ElementKind)
    (hn : (kind.searches e.name).lookup n = some (.first inner))
    (hf : ∀ a b, inner.ReadsAlike a b → f a = f b) :
    (e.elementNamed? n).mapM f = (other.elementNamed? n).mapM f :=
  mapM_congr_of_optionRel (optionRel_imp (h.elementNamed? n inner hn) hf)

end Agree

section Readers

variable {e other : Element}

theorem Dependency.ofElement_congr (h : Agree .dependency e other) :
    Dependency.ofElement e = Dependency.ofElement other := by
  simp only [ofElement, h.name, h.required "Name" (List.mem_cons_self ..)]

theorem ComparisonOptions.ofElement_congr (h : Agree .comparison e other) :
    ComparisonOptions.ofElement e = ComparisonOptions.ofElement other := by
  rw [ofElement, ofElement, h.required "ConnectionString" (by simp),
    h.bool "ExcludeDatabaseRoles" (by simp), h.bool "ExcludeUsers" (by simp),
    h.bool "ExcludeTables" (by simp), h.bool "ExcludeViews" (by simp),
    h.bool "ExcludeProcedures" (by simp), h.bool "ExcludeTableValuedFunctions" (by simp),
    h.bool "ExcludeScalarFunctions" (by simp)]

theorem SchemaDecl.ofElement_congr (h : Agree .schema e other) :
    SchemaDecl.ofElement e = SchemaDecl.ofElement other := by
  rw [ofElement, ofElement, h.required "Name" (by simp), h.required "Owner" (by simp)]

theorem PlainColumnDecl.ofElement_congr (h : Agree .column e other) (he : e.name = "TableColumn")
    (name : String) (nullable : Bool) :
    PlainColumnDecl.ofElement name nullable e = PlainColumnDecl.ofElement name nullable other := by
  rw [ofElement, ofElement, h.keyword? "DataType" (by simp [he]), h.missing,
    h.int32 "Length" 0 (by simp [he]), h.int32 "Precision" (-1) (by simp [he]),
    h.int32 "Scale" (-1) (by simp [he])]

theorem ForeignKeyColumnDecl.ofElement_congr (h : Agree .column e other) (he : e.name = "ForeignKey")
    (name : String) (nullable : Bool) : ForeignKeyColumnDecl.ofElement name nullable e =
      ForeignKeyColumnDecl.ofElement name nullable other := by
  rw [ofElement, ofElement, h.required "SchemaName" (by simp [he]),
    h.required "TableName" (by simp [he]), h.required "ColumnName" (by simp [he])]

theorem GroupedColumnDecl.ofElement_congr (h : Agree .column e other)
    (he : e.name = "MultipleColumnForeignKey") (name : String) (nullable : Bool) :
    GroupedColumnDecl.ofElement name nullable e = GroupedColumnDecl.ofElement name nullable other := by
  have hhint := h.elementNamed? "ColumnReferenceHint" .hint (by rw [he]; rfl)
  unfold ofElement
  rw [h.required "ForeignColumnName" (by simp [he]),
    h.required "MultipleColumnTableReferenceGroupName" (by simp [he])]
  generalize e.elementNamed? "ColumnReferenceHint" = found at hhint
  generalize other.elementNamed? "ColumnReferenceHint" = foundOther at hhint
  cases hhint with
  | none => rfl
  | some hsame =>
    obtain ⟨hschema, htable⟩ := hsame
    simp only [hschema, htable]

theorem ColumnDecl.ofElement_congr (h : Agree .column e other) :
    ColumnDecl.ofElement e = ColumnDecl.ofElement other := by
  unfold ofElement
  rw [h.required "Name" (by simp), h.bool "IsNullable" (by simp), ← h.name]
  refine bind_congr fun name => bind_congr fun nullable => ?_
  split
  · rename_i he
    rw [PlainColumnDecl.ofElement_congr h he]
  · rename_i he
    rw [ForeignKeyColumnDecl.ofElement_congr h he]
  · rename_i he
    rw [GroupedColumnDecl.ofElement_congr h he]
  · rfl

theorem PrimaryKeyDecl.ofElement_congr (h : Agree .primaryKey e other) :
    PrimaryKeyDecl.ofElement e = PrimaryKeyDecl.ofElement other := by
  rw [ofElement, ofElement, h.required "Name" (by simp), h.bool "Clustered" (by simp),
    h.keyword "CompressionType" (by simp),
    h.mapM_members "TablePrimaryKeyColumns" .columnName rfl fun _ _ => id]

theorem IndexColumn.ofElement_congr (h : Agree .indexColumn e other) :
    IndexColumn.ofElement e = IndexColumn.ofElement other := by
  rw [ofElement, ofElement, h.required "ColumnName" (by simp),
    h.keyword "SortOrder" (by simp)]

theorem Index.ofElement_congr (h : Agree .index e other) :
    Index.ofElement e = Index.ofElement other := by
  rw [ofElement, ofElement, h.mapM_members "TableIndexColumns" .indexColumn rfl fun _ _ => id,
    h.mapM_members "TableIndexIncludes" .columnName rfl fun _ _ => id,
    h.required "Name" (by simp), h.bool "Unique" (by simp),
    h.bool "Clustered" (by simp), h.keyword "CompressionType" (by simp)]

theorem TableDecl.ofElement_congr (h : Agree .table e other) :
    TableDecl.ofElement e = TableDecl.ofElement other := by
  have htriggers : (e.members "Triggers").map Element.statement =
      (other.members "Triggers").map Element.statement := by
    rw [← List.forall₂_eq_eq_eq, List.forall₂_map_left_iff, List.forall₂_map_right_iff]
    exact h.found "Triggers" (.members .trigger) rfl
  rw [ofElement, ofElement, h.mapM_members "TableColumns" .column rfl fun _ _ => id,
    h.mapM_elementNamed? "PrimaryKey" .primaryKey rfl fun _ _ => id,
    h.mapM_members "Indexes" .index rfl fun _ _ => id, htriggers,
    h.required "Name" (by simp), h.required "Schema" (by simp),
    h.keyword "CompressionType" (by simp)]

theorem ScriptedDecl.ofElement_congr (h : Agree .scripted e other) :
    ScriptedDecl.ofElement e = ScriptedDecl.ofElement other := by
  rw [ofElement, ofElement, h.required "Name" (by simp), h.required "Schema" (by simp),
    h.statement rfl]

theorem DatabaseDecl.ofElement_congr (h : Agree .database e other) :
    DatabaseDecl.ofElement e = DatabaseDecl.ofElement other := by
  rw [ofElement, ofElement, h.mapM_members "DatabaseIncludes" .folder rfl fun _ _ => id,
    h.mapM_members "Dependencies" .dependency rfl fun _ _ => id,
    h.mapM_elementNamed? "SchemaCompare" .comparison rfl fun _ _ => id,
    h.mapM_members "Schemas" .schema rfl fun _ _ => id,
    h.mapM_members "Tables" .table rfl fun _ _ => id,
    h.required "Name" (by simp), h.bool "CreateProject" (by simp),
    h.keyword "TargetSqlServerPlatform" (by simp),
    h.keyword "TargetSqlServerVersion" (by simp),
    h.bool "TreatTSqlWarningsAsErrors" (by simp),
    h.mapM_members "Views" .scripted rfl fun _ _ => id,
    h.mapM_members "Functions" .scripted rfl fun _ _ => id,
    h.mapM_members "Procedures" .scripted rfl fun _ _ => id]

theorem SolutionDecl.ofElement_congr (h : Agree .solution e other) :
    SolutionDecl.ofElement e = SolutionDecl.ofElement other := by
  rw [ofElement, ofElement, h.required "Name" (by simp),
    h.mapM_members "Databases" .database rfl fun _ _ => id]

theorem Definition.ofElement_congr (h : Agree .definition e other) :
    Definition.ofElement e = Definition.ofElement other := by
  rw [ofElement, ofElement, h.name, h.mapM_elementsNamed "SqlProject" .solution rfl fun _ _ => id]

/-- Elements that agree in what is asked of their kind are the same to the reader. -/
theorem Agree.readsAlike {kind : ElementKind} (h : Agree kind e other) : kind.ReadsAlike e other := by
  cases kind with
  | definition => exact Definition.ofElement_congr h
  | solution => exact SolutionDecl.ofElement_congr h
  | database => exact DatabaseDecl.ofElement_congr h
  | folder => exact h.required "Path" (by simp)
  | dependency => exact Dependency.ofElement_congr h
  | comparison => exact ComparisonOptions.ofElement_congr h
  | schema => exact SchemaDecl.ofElement_congr h
  | table => exact TableDecl.ofElement_congr h
  | column => exact ColumnDecl.ofElement_congr h
  | hint => exact ⟨h.required "SchemaName" (by simp), h.required "TableName" (by simp)⟩
  | primaryKey => exact PrimaryKeyDecl.ofElement_congr h
  | columnName => exact h.required "ColumnName" (by simp)
  | index => exact Index.ofElement_congr h
  | indexColumn => exact IndexColumn.ofElement_congr h
  | trigger => exact h.statement rfl
  | scripted => exact ScriptedDecl.ofElement_congr h

end Readers

section Unnoticed

variable {role : ElementRole} {e other : Element}

theorem Xml.Element.statement_congr (h : e.attribute? "Statement" = other.attribute? "Statement")
    (htext : e.attribute? "Statement" = none → e.text = other.text) : e.statement = other.statement := by
  rw [Element.statement, Element.statement, ← h]
  cases hs : e.attribute? "Statement" with
  | none => rw [htext hs]
  | some text => rfl

theorem Xml.Element.elementNamed?_eq_head? (n : String) : e.elementNamed? n = (e.elementsNamed n).head? :=
  List.head?_filter.symm

/-- A search only looks at the children of its name. -/
theorem Search.found_congr {n : String} (h : e.elementsNamed n = other.elementsNamed n) (search : Search) :
    search.found e n = search.found other n := by
  cases search with
  | each kind => exact h
  | first kind => rw [found, found, Element.elementNamed?_eq_head?, Element.elementNamed?_eq_head?, h]
  | members kind => rw [found, found, Element.members, Element.members, h]

theorem forall₂_readsAlike_refl (kind : ElementKind) (elements : List Element) :
    List.Forall₂ kind.ReadsAlike elements elements :=
  List.forall₂_same.2 fun e _ => .refl kind e

theorem ElementRole.readsAlike_of_found {kind : ElementKind} (hname : e.name = other.name)
    (hattributes : ∀ n ∈ (ElementRole.element kind).attributes e.name,
      e.attribute? n = other.attribute? n)
    (htext : (ElementRole.element kind).ReadsText e → e.text = other.text)
    (hfound : ∀ n search, (ElementRole.element kind).search? e.name n = some search →
      List.Forall₂ search.kind.ReadsAlike (search.found e n) (search.found other n)) :
    (ElementRole.element kind).ReadsAlike e other := by
  refine Agree.readsAlike ⟨hname, hattributes, fun hs => ?_, hfound⟩
  have hread : "Statement" ∈ "Name" :: kind.ownAttributes e.name := by
    cases kind <;> simp [ElementKind.hasStatement] at hs ⊢
  exact Element.statement_congr (hattributes _ hread) fun hnone => htext ⟨hs, hnone⟩

/-- What leaves the child elements alone, and the attributes and the text as far as they are read, is not
noticed. -/
theorem ElementRole.readsAlike_of_elements (hname : e.name = other.name)
    (hattributes : ∀ n ∈ role.attributes e.name, e.attribute? n = other.attribute? n)
    (htext : role.ReadsText e → e.text = other.text) (helements : e.elements = other.elements) :
    role.ReadsAlike e other := by
  cases role with
  | element kind =>
    refine readsAlike_of_found hname hattributes htext fun n search _ => ?_
    have hnamed : e.elementsNamed n = other.elementsNamed n := congrArg (List.filter _) helements
    rw [search.found_congr hnamed]
    exact forall₂_readsAlike_refl _ _
  | container kind =>
    change List.Forall₂ _ _ _
    rw [helements]
    exact forall₂_readsAlike_refl _ _

variable {name : String} {attributes : List Attribute} {before after : List Node} {child : Element}

theorem Xml.Element.elements_append {children : List Node} :
    (Element.mk name attributes (before ++ children)).elements =
      (Element.mk name attributes before).elements ++ (Element.mk name attributes children).elements :=
  List.filterMap_append

theorem Xml.Element.elements_cons :
    (Element.mk name attributes (child.toNode :: after)).elements =
      child :: (Element.mk name attributes after).elements := rfl

theorem Xml.Element.elementsNamed_append {children : List Node} {n : String} :
    (Element.mk name attributes (before ++ children)).elementsNamed n =
      (Element.mk name attributes before).elementsNamed n ++
        (Element.mk name attributes children).elementsNamed n := by
  rw [elementsNamed, elements_append, List.filter_append]
  rfl

theorem Xml.Element.elementsNamed_cons_of_eq {n : String} (h : child.name = n) :
    (Element.mk name attributes (child.toNode :: after)).elementsNamed n =
      child :: (Element.mk name attributes after).elementsNamed n := by
  rw [elementsNamed, elements_cons, List.filter_cons_of_pos (by simpa using h)]
  rfl

theorem Xml.Element.elementsNamed_cons_of_ne {n : String} (h : child.name ≠ n) :
    (Element.mk name attributes (child.toNode :: after)).elementsNamed n =
      (Element.mk name attributes after).elementsNamed n := by
  rw [elementsNamed, elements_cons, List.filter_cons_of_neg (by simpa using h)]
  rfl

theorem Xml.Element.text_insert (x : Node) (h : x.text? = none) :
    (Element.mk name attributes (before ++ x :: after)).text =
      (Element.mk name attributes (before ++ after)).text := by
  simp only [text, List.filterMap_append, List.filterMap_cons_none h]

theorem Xml.Element.elementsNamed_of_filter {children others : List Node} {n : String}
    (h : children.filter (Node.isNamed n) = others.filter (Node.isNamed n)) :
    (Element.mk name attributes children).elementsNamed n =
      (Element.mk name attributes others).elementsNamed n := by
  have hnamed : ∀ nodes : List Node, (Element.mk name attributes nodes).elementsNamed n =
      (nodes.filter (Node.isNamed n)).filterMap Node.element? := by
    intro nodes
    rw [elementsNamed, elements, List.filter_filterMap, List.filterMap_filter]
    refine List.filterMap_congr fun node _ => ?_
    cases node <;> simp [Node.element?, Node.isNamed, Option.filter]
  rw [hnamed, hnamed, h]

/-- A child that is found by no search in the role is not noticed. -/
theorem ElementRole.readsAlike_insert (h : ∀ n search, role.search? name n = some search →
      search.found ⟨name, attributes, before ++ after⟩ n =
        search.found ⟨name, attributes, before ++ child.toNode :: after⟩ n)
    (hrole : ∀ kind, role ≠ .container kind) :
    role.ReadsAlike ⟨name, attributes, before ++ after⟩
      ⟨name, attributes, before ++ child.toNode :: after⟩ := by
  cases role with
  | container kind => exact absurd rfl (hrole kind)
  | element kind =>
    refine readsAlike_of_found rfl (fun _ _ => rfl) (fun _ => ?_) fun n search hsearch => ?_
    · exact (Element.text_insert child.toNode rfl).symm
    · rw [h n search hsearch]
      exact forall₂_readsAlike_refl _ _

/-- A child that reads as before in the role of its search makes no difference to the search. -/
theorem Search.found_replace {edited : Element} {n : String} {search : Search}
    (hname : child.name = edited.name) (h : child.name = n → search.role.ReadsAlike child edited) :
    List.Forall₂ search.kind.ReadsAlike
      (search.found ⟨name, attributes, before ++ child.toNode :: after⟩ n)
      (search.found ⟨name, attributes, before ++ edited.toNode :: after⟩ n) := by
  have hrefl := forall₂_readsAlike_refl search.kind
  by_cases hn : child.name = n
  · have hedited : edited.name = n := hname ▸ hn
    cases search with
    | each kind =>
      rw [found, found, Element.elementsNamed_append, Element.elementsNamed_append,
        Element.elementsNamed_cons_of_eq hn, Element.elementsNamed_cons_of_eq hedited]
      exact List.rel_append (hrefl _) (.cons (h hn) (hrefl _))
    | first kind =>
      rw [found, found, Element.elementNamed?_eq_head?, Element.elementNamed?_eq_head?,
        Element.elementsNamed_append, Element.elementsNamed_append, Element.elementsNamed_cons_of_eq hn,
        Element.elementsNamed_cons_of_eq hedited]
      cases (Element.mk name attributes before).elementsNamed n with
      | nil => exact .cons (h hn) .nil
      | cons first rest => exact hrefl [first]
    | members kind =>
      rw [found, found, Element.members, Element.members, Element.elementsNamed_append,
        Element.elementsNamed_append, Element.elementsNamed_cons_of_eq hn,
        Element.elementsNamed_cons_of_eq hedited, List.flatMap_append, List.flatMap_append,
        List.flatMap_cons, List.flatMap_cons]
      exact List.rel_append (hrefl _) (List.rel_append (h hn) (hrefl _))
  · have hsame : (Element.mk name attributes (before ++ child.toNode :: after)).elementsNamed n =
        (Element.mk name attributes (before ++ edited.toNode :: after)).elementsNamed n := by
      rw [Element.elementsNamed_append, Element.elementsNamed_append,
        Element.elementsNamed_cons_of_ne hn, Element.elementsNamed_cons_of_ne (hname ▸ hn)]
    rw [search.found_congr hsame]
    exact hrefl _

/-- A search of members finds the same in one container as in its two parts. -/
theorem Search.found_split {container n : String} {kind : ElementKind} {own other : List Attribute}
    {front back : List Node} {search : Search} (h : container = n → search = .members kind) :
    search.found ⟨name, attributes, before ++ .element container own (front ++ back) :: after⟩ n =
      search.found ⟨name, attributes,
        before ++ .element container own front :: .element container other back :: after⟩ n := by
  change search.found
      ⟨name, attributes, before ++ (Element.mk container own (front ++ back)).toNode :: after⟩ n =
    search.found ⟨name, attributes, before ++ (Element.mk container own front).toNode ::
      (Element.mk container other back).toNode :: after⟩ n
  by_cases hn : container = n
  · rw [h hn, found, found, Element.members, Element.members, Element.elementsNamed_append,
      Element.elementsNamed_append, Element.elementsNamed_cons_of_eq hn, Element.elementsNamed_cons_of_eq hn,
      Element.elementsNamed_cons_of_eq hn, List.flatMap_append, List.flatMap_append, List.flatMap_cons,
      List.flatMap_cons, List.flatMap_cons, Element.elements_append, List.append_assoc]
    rfl
  · refine search.found_congr ?_
    rw [Element.elementsNamed_append, Element.elementsNamed_append, Element.elementsNamed_cons_of_ne hn,
      Element.elementsNamed_cons_of_ne hn, Element.elementsNamed_cons_of_ne hn]

/-- An edit keeps the name of its element and is not noticed by the reader. -/
theorem Edit.readsAlike (h : Edit role e other) : e.name = other.name ∧ role.ReadsAlike e other := by
  induction h with
  | remark x hx =>
    refine ⟨rfl, ElementRole.readsAlike_of_elements rfl (fun _ _ => rfl) (fun _ => ?_) ?_⟩
    · exact (Element.text_insert x hx.text?).symm
    · simp only [Element.elements, List.filterMap_append, List.filterMap_cons_none hx.element?]
  | remarkInText x hx =>
    refine ⟨rfl, ElementRole.readsAlike_of_elements rfl (fun _ _ => rfl) (fun _ => ?_) ?_⟩
    · rcases hx with rfl | rfl <;>
        simp only [Element.text, List.filterMap_append, List.filterMap_cons, Node.text?,
          String.join_append, String.join_cons, String.append_assoc]
    · rcases hx with rfl | rfl <;>
        simp only [Element.elements, List.filterMap_append, List.filterMap_cons, Node.element?]
  | text content h =>
    refine ⟨rfl, ElementRole.readsAlike_of_elements rfl (fun _ _ => rfl) (fun hread => absurd hread h) ?_⟩
    simp only [Element.elements, List.filterMap_append, List.filterMap_cons, Node.element?]
  | child child h =>
    refine ⟨rfl, ElementRole.readsAlike_insert (fun n search hsearch => ?_) ?_⟩
    · have hne : child.name ≠ n := by
        rintro rfl
        rw [h] at hsearch
        cases hsearch
      refine search.found_congr ?_
      rw [Element.elementsNamed_append, Element.elementsNamed_append, Element.elementsNamed_cons_of_ne hne]
    · rintro kind rfl
      cases h
  | @surplus role name attributes before after kind first child h hfirst hname =>
    refine ⟨rfl, ElementRole.readsAlike_insert (fun n search hsearch => ?_) ?_⟩
    · by_cases hn : child.name = n
      · obtain rfl : search = .first kind := Option.some.inj (hsearch.symm.trans (hn ▸ h))
        have hmem : first ∈ (Element.mk name attributes before).elementsNamed n :=
          List.mem_filter.2 ⟨List.mem_filterMap.2 ⟨_, hfirst, rfl⟩, by simpa using hname.trans hn⟩
        obtain ⟨x, rest, hbefore⟩ := List.exists_cons_of_ne_nil (List.ne_nil_of_mem hmem)
        rw [Search.found, Search.found, Element.elementNamed?_eq_head?, Element.elementNamed?_eq_head?,
          Element.elementsNamed_append, Element.elementsNamed_append, hbefore]
        rfl
      · refine search.found_congr ?_
        rw [Element.elementsNamed_append, Element.elementsNamed_append, Element.elementsNamed_cons_of_ne hn]
    · rintro kind rfl
      cases h
  | @unread role name before after children a h =>
    refine ⟨rfl, ElementRole.readsAlike_of_elements rfl (fun n hn => ?_) (fun _ => rfl) rfl⟩
    have hskip : (a.space.isNone && a.name == n) = false := by
      rcases h with h | h
      · simp [Option.isNone_eq_false_iff.2 h]
      · have hne : a.name ≠ n := fun he => h (he ▸ hn)
        simp [hne]
    simp only [Element.attribute?, List.find?_append, List.find?_cons, hskip]
  | @permute role name attributes children others h hperm hnames =>
    cases role with
    | container kind => exact h.elim
    | element kind =>
      refine ⟨rfl, ElementRole.readsAlike_of_found rfl (fun _ _ => rfl) (fun hread => ?_) ?_⟩
      · exact absurd (hread.1.symm.trans h) Bool.noConfusion
      · intro n search _
        rw [search.found_congr (Element.elementsNamed_of_filter (hnames n))]
        exact forall₂_readsAlike_refl _ _
  | @split role name attributes before after container kind own other front back h =>
    cases role with
    | container kind => cases h
    | element kind =>
      refine ⟨rfl, ElementRole.readsAlike_of_found rfl (fun _ _ => rfl) (fun _ => ?_) ?_⟩
      · simp only [Element.text, List.filterMap_append, List.filterMap_cons, Node.text?]
      · intro n search hsearch
        rw [Search.found_split fun hn => Option.some.inj (hsearch.symm.trans (hn ▸ h))]
        exact forall₂_readsAlike_refl _ _
  | @inside role name attributes before after search child edited hsearch h ih =>
    obtain ⟨hname, hsame⟩ := ih
    refine ⟨rfl, ?_⟩
    cases role with
    | element kind =>
      refine ElementRole.readsAlike_of_found rfl (fun _ _ => rfl) (fun _ => ?_) fun n other hother => ?_
      · exact (Element.text_insert child.toNode rfl).trans (Element.text_insert edited.toNode rfl).symm
      · refine Search.found_replace hname fun hn => ?_
        obtain rfl : other = search := Option.some.inj (hother.symm.trans (hn ▸ hsearch))
        exact hsame
    | container kind =>
      obtain rfl : .each kind = search := Option.some.inj hsearch
      change List.Forall₂ _ _ _
      rw [Element.elements_append, Element.elements_append, Element.elements_cons, Element.elements_cons]
      exact List.rel_append (forall₂_readsAlike_refl _ _) (.cons hsame (forall₂_readsAlike_refl _ _))

/-- Any number of edits leave what is read of a document as it was, be it a definition or a fault. -/
theorem Definition.edits_do_not_matter {root edited : Element}
    (h : Relation.EqvGen (Edit (.element .definition)) root edited) :
    Definition.ofElement root = Definition.ofElement edited := by
  induction h with
  | rel root edited hedit => exact hedit.readsAlike.2
  | refl root => rfl
  | symm root edited _ ih => exact ih.symm
  | trans root middle edited _ _ ih ih' => exact ih.trans ih'

end Unnoticed

/-- A document with one database. -/
def databaseDocument (db : Element) : Element :=
  ⟨"Sql", [], [.element "SqlProject" [⟨none, "Name", "Store"⟩] [.element "Databases" [] [db.toNode]]]⟩

theorem edit_databaseDocument {db edited : Element} (h : Edit (.element .database) db edited) :
    Edit (.element .definition) (databaseDocument db) (databaseDocument edited) := by
  have hlist : Edit (.container .database) ⟨"Databases", [], [db.toNode]⟩
      ⟨"Databases", [], [edited.toNode]⟩ :=
    @Edit.inside _ _ _ [] [] (.each .database) db edited rfl h
  have hsolution : Edit (.element .solution)
      ⟨"SqlProject", [⟨none, "Name", "Store"⟩], [.element "Databases" [] [db.toNode]]⟩
      ⟨"SqlProject", [⟨none, "Name", "Store"⟩], [.element "Databases" [] [edited.toNode]]⟩ :=
    @Edit.inside _ _ _ [] [] (.members .database) _ _ rfl hlist
  exact @Edit.inside _ _ _ [] [] (.each .solution) _ _ rfl hsolution

/-- A database with these children. -/
def coreDatabase (children : List Node) : Element := ⟨"Database", [⟨none, "Name", "Core"⟩], children⟩

/-- A container of schemas with these names. -/
def schemasNode (names : List String) : Node :=
  .element "Schemas" [] (names.map fun name =>
    .element "Schema" [⟨none, "Name", name⟩, ⟨none, "Owner", "dbo"⟩] [])

/-- A container of one view, whose statement is in these pieces of text. -/
def viewsNode (pieces : List Node) : Node :=
  .element "Views" [] [.element "View" [⟨none, "Name", "Recent"⟩, ⟨none, "Schema", "sales"⟩] pieces]

/-- A database whose views come first, whose schemas are in two containers, with a comment in the statement
and an attribute of another namespace. -/
def editedDatabase : Element :=
  ⟨"Database", [⟨some "urn:notes", "Name", "Draft"⟩, ⟨none, "Name", "Core"⟩], [
    viewsNode [.text "SELECT", .comment, .text " 1"], schemasNode ["sales"], schemasNode ["audit"]]⟩

theorem edited_database_read :
    Relation.EqvGen (Edit (.element .definition))
      (databaseDocument (coreDatabase [schemasNode ["sales", "audit"], viewsNode [.text "SELECT 1"]]))
      (databaseDocument editedDatabase) ∧
    Definition.ofElement
        (databaseDocument (coreDatabase [schemasNode ["sales", "audit"], viewsNode [.text "SELECT 1"]])) =
      Definition.ofElement (databaseDocument editedDatabase) ∧
    (Definition.ofElement (databaseDocument editedDatabase)).isOk = true := by
  let pieces : List Node := [.text "SELECT", .comment, .text " 1"]
  have hcomment : Edit (.element .database)
      (coreDatabase [schemasNode ["sales", "audit"], viewsNode [.text "SELECT 1"]])
      (coreDatabase [schemasNode ["sales", "audit"], viewsNode pieces]) :=
    @Edit.inside _ _ _ [_] [] (.members .scripted) ⟨"Views", _, _⟩ ⟨"Views", _, _⟩ rfl
      (@Edit.inside _ _ _ [] [] (.each .scripted) ⟨"View", _, _⟩ ⟨"View", _, _⟩ rfl
        (@Edit.remarkInText _ _ _ [] [] "SELECT" " 1" .comment (.inl rfl)))
  have hsplit : Edit (.element .database) (coreDatabase [schemasNode ["sales", "audit"], viewsNode pieces])
      (coreDatabase [schemasNode ["sales"], schemasNode ["audit"], viewsNode pieces]) :=
    @Edit.split _ _ _ [] [_] _ .schema _ _ [_] [_] rfl
  have hpermute : Edit (.element .database)
      (coreDatabase [schemasNode ["sales"], schemasNode ["audit"], viewsNode pieces])
      (coreDatabase [viewsNode pieces, schemasNode ["sales"], schemasNode ["audit"]]) := by
    refine .permute rfl (@List.perm_append_comm _ [_, _] [_]) fun n => ?_
    by_cases hn : "Schemas" = n
    · subst hn
      rfl
    · have hnot : ∀ names, Node.isNamed n (schemasNode names) = false := fun _ => beq_false_of_ne hn
      simp only [List.filter_cons, hnot, List.filter_nil, Bool.false_eq_true, if_false]
  have hattribute : Edit (.element .database)
      (coreDatabase [viewsNode pieces, schemasNode ["sales"], schemasNode ["audit"]]) editedDatabase :=
    @Edit.unread _ _ [] _ _ ⟨some "urn:notes", "Name", "Draft"⟩ (.inl rfl)
  have hall := Relation.EqvGen.trans _ _ _ (.rel _ _ (edit_databaseDocument hcomment))
    (.trans _ _ _ (.rel _ _ (edit_databaseDocument hsplit))
      (.trans _ _ _ (.rel _ _ (edit_databaseDocument hpermute))
        (.rel _ _ (edit_databaseDocument hattribute))))
  exact ⟨hall, Definition.edits_do_not_matter hall, rfl⟩

end DatabaseProject
