import DatabaseProject.Project.Comparison
import DatabaseProject.Project.Descriptor
import DatabaseProject.Proofs.Path
import DatabaseProject.Proofs.WrittenTree
import Mathlib.Data.List.Forall2

/-!
# Descriptors read back

The project file and the comparison file of a project with plain strings are well-formed documents.
Read again and freed of their indentation, they are the elements that were written, in which every
string of the project and of the comparison is found at its place.
-/

namespace DatabaseProject

open Xml
open Xml.Markup (readable_field readable_literal)

/-- A reference with plain strings only. -/
def ProjectReference.IsPlain : ProjectReference → Prop
  | dacpac fileName => PlainText fileName
  | project name guid => PlainText name ∧ PlainText guid
  | system name hintPath => PlainText name ∧ PlainText hintPath

/-- A project with plain strings only. -/
structure Project.IsPlain (project : Project) : Prop where
  name : PlainText project.name
  guid : PlainText project.guid
  provider : PlainText project.schemaProvider
  references : ∀ reference ∈ project.references, reference.IsPlain
  folders : ∀ folder ∈ project.folders, PlainText folder

/-- The attribute of an item. -/
theorem Xml.readableAttributes_include {value : String} (h : PlainText value) :
    ReadableAttributes [("Include", value)] :=
  .one (.ofList (by decide)) (by decide) h

/-- The attribute that restricts an element to a configuration or to a machine. -/
theorem Xml.readableAttributes_condition {value : String} (h : PlainText value) :
    ReadableAttributes [("Condition", value)] :=
  .one (.ofList (by decide)) (by decide) h

namespace ProjectReference

theorem plain_stem {fileName : String} (h : PlainText fileName) :
    PlainText ((Path.mk fileName).stem?.getD fileName) := by
  cases hs : (Path.mk fileName).stem? with
  | none => exact h
  | some stem => exact fun c hc => h c (Path.mem_text_of_stem? hs hc)

theorem readable_artifact {path literal : String} (hp : PlainText path) (hl : PlainText literal) :
    (artifact path literal).Readable := by
  refine .group (.ofList (by decide)) (readableAttributes_include hp) ?_
  simp only [List.forall_mem_cons, List.not_mem_nil, false_imp_iff, implies_true, and_true]
  exact ⟨readable_field (by decide) hp, readable_literal (by decide) (by decide),
    readable_field (by decide) hl⟩

theorem readable_markup {reference : ProjectReference} (h : reference.IsPlain) :
    reference.markup.Readable := by
  cases reference with
  | dacpac fileName => exact readable_artifact h (plain_stem h)
  | project name guid =>
    have hfile : PlainText (name ++ ".sqlproj") := h.1.append (.ofList (by decide))
    refine .group (.ofList (by decide)) (readableAttributes_include hfile) ?_
    simp only [List.forall_mem_cons, List.not_mem_nil, false_imp_iff, implies_true, and_true]
    exact ⟨readable_field (by decide) h.1, readable_field (by decide) h.2,
      readable_literal (by decide) (by decide), readable_literal (by decide) (by decide),
      readable_field (by decide) h.1⟩
  | system name hintPath => exact readable_artifact h.2 h.1

end ProjectReference

namespace Project

variable {project : Project} {options : ComparisonOptions}

theorem readable_folderMarkup {folder : String} (h : PlainText folder) : (folderMarkup folder).Readable :=
  .bare (.ofList (by decide)) (readableAttributes_include h)

theorem readable_identityProperties (h : project.IsPlain) : project.identityProperties.Readable := by
  have hconfiguration : (Markup.leaf "Configuration" [("Condition", " '$(Configuration)' == '' ")]
      "Debug").Readable :=
    .leaf (.ofList (by decide)) (readableAttributes_condition (.ofList (by decide))) (.ofList (by decide))
  have hplatform : (Markup.leaf "Platform" [("Condition", " '$(Platform)' == '' ")] "AnyCPU").Readable :=
    .leaf (.ofList (by decide)) (readableAttributes_condition (.ofList (by decide))) (.ofList (by decide))
  refine .group (.ofList (by decide)) .nil ?_
  simp only [List.forall_mem_cons, List.not_mem_nil, false_imp_iff, implies_true, and_true]
  refine ⟨hconfiguration, hplatform, readable_field (by decide) h.name, ?_, ?_,
    readable_field (by decide) h.guid, readable_field (by decide) h.provider, ?_,
    .bare (.ofList (by decide)) .nil, readable_field (by decide) h.name,
    readable_field (by decide) h.name, ?_, ?_, ?_, ?_, ?_, ?_, ?_, ?_, ?_⟩
  all_goals exact readable_literal (by decide) (by decide)

theorem plain_buildBool (b : Bool) : PlainText (buildBool b) := by
  cases b <;> exact .ofList (by decide)

/-- Properties that one configuration sets. -/
theorem readable_configured {configuration : List Char} {children : List Markup}
    (hp : configuration.all isPlain = true) (hc : ∀ child ∈ children, child.Readable) :
    (Markup.group "PropertyGroup"
      [("Condition", configurationCondition (String.ofList configuration))] children).Readable := by
  have hcondition : PlainText (configurationCondition (String.ofList configuration)) :=
    ((PlainText.ofList (by decide)).append (.ofList hp)).append (.ofList (by decide))
  exact .group (.ofList (by decide)) (readableAttributes_condition hcondition) hc

theorem readable_releaseProperties (project : Project) : project.releaseProperties.Readable := by
  apply readable_configured (by decide)
  simp only [List.forall_mem_cons, List.not_mem_nil, false_imp_iff, implies_true, and_true]
  refine ⟨?_, ?_, ?_, ?_, ?_, ?_, ?_, ?_, ?_, readable_field (by decide) (plain_buildBool _)⟩
  all_goals exact readable_literal (by decide) (by decide)

theorem readable_debugProperties (project : Project) : project.debugProperties.Readable := by
  apply readable_configured (by decide)
  simp only [List.forall_mem_cons, List.not_mem_nil, false_imp_iff, implies_true, and_true]
  refine ⟨?_, ?_, ?_, ?_, ?_, ?_, ?_, ?_, ?_, ?_, readable_field (by decide) (plain_buildBool _)⟩
  all_goals exact readable_literal (by decide) (by decide)

theorem plain_commonProps : PlainText commonProps := .ofList (by decide)

theorem plain_installedTargets : PlainText installedTargets := .ofList (by decide)

theorem plain_extensionTargets : PlainText extensionTargets := .ofList (by decide)

/-- A condition that a file is there. -/
theorem plain_exists {file : String} (h : PlainText file) : PlainText ("Exists('" ++ file ++ "')") :=
  ((PlainText.ofList (by decide)).append h).append (.ofList (by decide))

theorem readable_toolProperties : toolProperties.Readable := by
  refine .group (.ofList (by decide)) .nil ?_
  simp only [List.forall_mem_cons, List.not_mem_nil, false_imp_iff, implies_true, and_true]
  exact ⟨.leaf (.ofList (by decide)) (readableAttributes_condition (.ofList (by decide)))
      (.ofList (by decide)),
    .leaf (.ofList (by decide)) (readableAttributes_condition (plain_exists plain_installedTargets))
      (.ofList (by decide)),
    .leaf (.ofList (by decide)) (readableAttributes_condition (.ofList (by decide)))
      (.ofList (by decide))⟩

theorem readable_rootAttributes : ReadableAttributes
    [("DefaultTargets", "Build"), ("xmlns", buildSpace), ("ToolsVersion", "4.0")] := by
  have hversion : ReadableAttributes [("ToolsVersion", "4.0")] :=
    .one (.ofList (by decide)) (by decide) (.ofList (by decide))
  have hspace : ReadableAttributes [("xmlns", buildSpace), ("ToolsVersion", "4.0")] := by
    refine ⟨List.forall_mem_cons.2 ⟨.ofList (by decide), hversion.names⟩, by decide,
      List.forall_mem_cons.2 ⟨.ofList (by decide), hversion.values⟩, by decide⟩
  exact .cons (.ofList (by decide)) (by decide) (.ofList (by decide)) (by decide) hspace

/-- An import of build rules, with the condition before or behind the file. -/
theorem readable_import {file condition : String} (hf : PlainText file) (hc : PlainText condition) :
    (Markup.bare "Import" [("Project", file), ("Condition", condition)]).Readable ∧
      (Markup.bare "Import" [("Condition", condition), ("Project", file)]).Readable := by
  have hproject : ReadableAttributes [("Project", file)] := .one (.ofList (by decide)) (by decide) hf
  exact ⟨.bare (.ofList (by decide))
      (.cons (.ofList (by decide)) (by decide) hf (by simp) (readableAttributes_condition hc)),
    .bare (.ofList (by decide)) (.cons (.ofList (by decide)) (by decide) hc (by simp) hproject)⟩

theorem readable_items {children : List Markup} (hc : ∀ child ∈ children, child.Readable) :
    (Markup.group "ItemGroup" [] children).Readable :=
  .group (.ofList (by decide)) .nil hc

/-- The markup of a plain project can be read. -/
theorem readable_markup (h : project.IsPlain) : project.markup.Readable := by
  have hscripts : ∀ child ∈ [Markup.bare "Build" [("Include", project.buildPattern)],
      folderMarkup project.name], child.Readable := by
    have hpattern : PlainText project.buildPattern := h.name.append (.ofList (by decide))
    simp only [List.forall_mem_cons, List.not_mem_nil, false_imp_iff, implies_true, and_true]
    exact ⟨.bare (.ofList (by decide)) (readableAttributes_include hpattern), readable_folderMarkup h.name⟩
  have hreferences : ∀ child ∈ project.references.map ProjectReference.markup, child.Readable := by
    rw [List.forall_mem_map]
    exact fun reference hm => ProjectReference.readable_markup (h.references reference hm)
  have hcomparison : ∀ child ∈ (if project.hasComparison then
      [Markup.bare "None" [("Include", project.comparisonFileName)]] else []), child.Readable := by
    have hfile : PlainText project.comparisonFileName := h.name.append (.ofList (by decide))
    split
    · rw [List.forall_mem_singleton]
      exact .bare (.ofList (by decide)) (readableAttributes_include hfile)
    · simp
  have hfolders : ∀ child ∈ project.folders.map folderMarkup, child.Readable := by
    rw [List.forall_mem_map]
    exact fun folder hm => readable_folderMarkup (h.folders folder hm)
  refine .group (.ofList (by decide)) readable_rootAttributes ?_
  simp only [List.forall_mem_cons, List.not_mem_nil, false_imp_iff, implies_true, and_true]
  exact ⟨(readable_import plain_commonProps (plain_exists plain_commonProps)).1,
    readable_identityProperties h, readable_releaseProperties project, readable_debugProperties project,
    readable_toolProperties, (readable_import plain_extensionTargets (.ofList (by decide))).2,
    (readable_import plain_installedTargets (.ofList (by decide))).2, readable_items hscripts,
    readable_items hreferences, readable_items hcomparison, readable_items hfolders⟩

theorem plain_excludedType {type : String} (h : type ∈ options.excludedTypes) :
    PlainText (objectTypeSpace ++ type) := by
  have hspace : PlainText objectTypeSpace := .ofList (by decide)
  have hplain : ∀ type ∈ ["SqlRole", "SqlUser", "SqlTable", "SqlView", "SqlProcedure",
      "SqlTableValuedFunction", "SqlScalarFunction"], PlainText type := by decide
  obtain ⟨entry, he, hentry⟩ := List.mem_filterMap.1 h
  obtain ⟨-, he'⟩ := Option.ite_none_right_eq_some.1 hentry
  obtain rfl := Option.some.inj he'
  exact hspace.append (hplain entry.2 (List.mem_map_of_mem he))

/-- The markup of a comparison of plain strings can be read. -/
theorem readable_comparisonMarkup (h : project.IsPlain) (ho : PlainText options.connectionString) :
    (project.comparisonMarkup options).Readable := by
  have hfile : PlainText project.fileName := h.name.append (.ofList (by decide))
  have hwrapped : ∀ {name : List Char} {children : List Markup}, isNameText name = true →
      (∀ child ∈ children, child.Readable) → (Markup.group (String.ofList name) [] children).Readable :=
    fun hn hc => .group (.ofList hn) .nil hc
  have hproject : ∀ child ∈ [Markup.field "ProjectFilePath" project.fileName,
      .field "ProjectGuid" project.guid, .field "Dsp" project.schemaProvider,
      .field "FolderStructure" "3"], child.Readable := by
    simp only [List.forall_mem_cons, List.not_mem_nil, false_imp_iff, implies_true, and_true]
    exact ⟨readable_field (by decide) hfile, readable_field (by decide) h.guid,
      readable_field (by decide) h.provider, readable_literal (by decide) (by decide)⟩
  have htypes : ∀ child ∈ options.excludedTypes.map fun type =>
      Markup.field "ExcludedType" (objectTypeSpace ++ type), child.Readable := by
    rw [List.forall_mem_map]
    exact fun type hm => readable_field (by decide) (plain_excludedType hm)
  refine hwrapped (by decide) ?_
  simp only [List.forall_mem_cons, List.not_mem_nil, false_imp_iff, implies_true, and_true]
  refine ⟨readable_literal (by decide) (by decide), hwrapped (by decide) ?_, hwrapped (by decide) ?_,
    hwrapped (by decide) htypes⟩
  · rw [List.forall_mem_singleton]
    exact hwrapped (by decide) hproject
  · rw [List.forall_mem_singleton]
    refine hwrapped (by decide) ?_
    rw [List.forall_mem_singleton]
    exact readable_field (by decide) ho

end Project

/-- What scripts call the database of a package file: the name of the file up to its last point, or
the whole text where that ends in no name. -/
inductive DatabaseOfPackage (fileName : String) : String → Prop
  | stem {name stem : String} : Path.EndsIn fileName name → name ≠ ".." → Path.StemOf name stem →
      DatabaseOfPackage fileName stem
  | text : (∀ name, Path.EndsIn fileName name → name = "..") → DatabaseOfPackage fileName fileName

/-- What the item of a reference says: what it includes, where it is or what it is called, and the
name of its database. -/
def ProjectReference.ReadFrom (item : Element) : ProjectReference → Prop
  | dacpac fileName => item.name = "ArtifactReference" ∧ item.attribute? "Include" = some fileName ∧
    item.textsAt ["HintPath"] = [fileName] ∧
    ∃ database, item.textsAt ["DatabaseVariableLiteralValue"] = [database] ∧
      DatabaseOfPackage fileName database
  | project name guid => item.name = "ProjectReference" ∧
    item.attribute? "Include" = some (name ++ ".sqlproj") ∧
    item.textsAt ["Name"] = [name] ∧ item.textsAt ["Project"] = [guid] ∧
    item.textsAt ["DatabaseVariableLiteralValue"] = [name]
  | system name hintPath => item.name = "ArtifactReference" ∧ item.attribute? "Include" = some hintPath ∧
    item.textsAt ["HintPath"] = [hintPath] ∧ item.textsAt ["DatabaseVariableLiteralValue"] = [name]

/-- The items of references, in document order. -/
def Xml.Element.referenceItems (root : Element) : List Element :=
  (root.elementsNamed "ItemGroup").flatMap fun items => items.elements.filter fun item =>
    item.name == "ArtifactReference" || item.name == "ProjectReference"

/-- A project as the root element of its file tells it. -/
structure Project.ReadFrom (root : Element) (project : Project) : Prop where
  name : root.textsAt ["PropertyGroup", "Name"] = [project.name]
  rootSpace : root.textsAt ["PropertyGroup", "RootNamespace"] = [project.name]
  assembly : root.textsAt ["PropertyGroup", "AssemblyName"] = [project.name]
  guid : root.textsAt ["PropertyGroup", "ProjectGuid"] = [project.guid]
  provider : root.textsAt ["PropertyGroup", "DSP"] = [project.schemaProvider]
  warnings : root.textsAt ["PropertyGroup", "TreatTSqlWarningsAsErrors"] =
    if project.warningsAsErrors then ["True", "True"] else ["False", "False"]
  scripts : root.includesAt ["ItemGroup", "Build"] = [project.name ++ "\\**\\*.sql"]
  folders : root.includesAt ["ItemGroup", "Folder"] = project.name :: project.folders
  references : List.Forall₂ (fun item reference => reference.ReadFrom item)
    root.referenceItems project.references
  comparison : root.includesAt ["ItemGroup", "None"] =
    if project.hasComparison then [project.name ++ ".scmp"] else []

/-- The object types that a comparison leaves out, as its file names them. -/
def ComparisonOptions.typesLeftOut (options : ComparisonOptions) : List String :=
  (if options.excludeDatabaseRoles then ["Microsoft.Data.Tools.Schema.Sql.SchemaModel.SqlRole"] else [])
  ++ (if options.excludeUsers then ["Microsoft.Data.Tools.Schema.Sql.SchemaModel.SqlUser"] else [])
  ++ (if options.excludeTables then ["Microsoft.Data.Tools.Schema.Sql.SchemaModel.SqlTable"] else [])
  ++ (if options.excludeViews then ["Microsoft.Data.Tools.Schema.Sql.SchemaModel.SqlView"] else [])
  ++ (if options.excludeProcedures then ["Microsoft.Data.Tools.Schema.Sql.SchemaModel.SqlProcedure"] else [])
  ++ (if options.excludeTableValuedFunctions then
      ["Microsoft.Data.Tools.Schema.Sql.SchemaModel.SqlTableValuedFunction"] else [])
  ++ if options.excludeScalarFunctions then
      ["Microsoft.Data.Tools.Schema.Sql.SchemaModel.SqlScalarFunction"] else []

/-- A project and a comparison as the root element of the comparison's file tells them. -/
structure Project.ComparisonReadFrom (root : Element) (project : Project) (options : ComparisonOptions) :
    Prop where
  file : root.textsAt ["SourceModelProvider", "ProjectBasedModelProvider", "ProjectFilePath"] =
    [project.name ++ ".sqlproj"]
  guid : root.textsAt ["SourceModelProvider", "ProjectBasedModelProvider", "ProjectGuid"] = [project.guid]
  provider : root.textsAt ["SourceModelProvider", "ProjectBasedModelProvider", "Dsp"] =
    [project.schemaProvider]
  connection : root.textsAt ["TargetModelProvider", "ConnectionBasedModelProvider", "ConnectionString"] =
    [options.connectionString]
  excluded : root.textsAt ["ExcludedTypes", "ExcludedType"] = options.typesLeftOut

namespace Project

open Xml.Markup (elementsNamed_group elements_group text_leaf)

theorem map_excludedTypes (options : ComparisonOptions) :
    options.excludedTypes.map (objectTypeSpace ++ ·) = options.typesLeftOut := by
  have hentry : ∀ (out : Bool) (type : String) (others : List (Bool × String)),
      (((out, type) :: others).filterMap fun entry => if entry.1 then some entry.2 else none).map
        (objectTypeSpace ++ ·) = (if out then [objectTypeSpace ++ type] else []) ++
          (others.filterMap fun entry => if entry.1 then some entry.2 else none).map (objectTypeSpace ++ ·) := by
    intro out type others
    cases out <;> rfl
  simp only [ComparisonOptions.excludedTypes, hentry, ComparisonOptions.typesLeftOut, List.append_assoc]
  rw [List.filterMap_nil, List.map_nil, List.append_nil]
  rfl

theorem comparisonReadFrom_tree (project : Project) (options : ComparisonOptions) :
    project.ComparisonReadFrom (project.comparisonMarkup options).tree options := by
  constructor
  case excluded =>
    rw [← map_excludedTypes]
    simp [Element.textsAt, Element.descend, comparisonMarkup, Markup.field, elementsNamed_group,
      text_leaf, List.filter_map, Function.comp_def]
  all_goals simp [Element.textsAt, Element.descend, comparisonMarkup, Markup.field, elementsNamed_group,
    text_leaf, fileName]

theorem properties_tree (project : Project) : project.markup.tree.elementsNamed "PropertyGroup" =
    [project.identityProperties.tree, project.releaseProperties.tree, project.debugProperties.tree,
      toolProperties.tree] := by
  simp [markup, identityProperties, releaseProperties, debugProperties, toolProperties,
    elementsNamed_group]

/-- All items of a project file, in order. -/
def items (project : Project) : List Markup :=
  [.bare "Build" [("Include", project.buildPattern)], folderMarkup project.name]
    ++ project.references.map ProjectReference.markup
    ++ (if project.hasComparison then [.bare "None" [("Include", project.comparisonFileName)]] else [])
    ++ project.folders.map folderMarkup

theorem items_tree (project : Project) (keep : Element → Bool) :
    ((project.markup.tree.elementsNamed "ItemGroup").flatMap fun group => group.elements.filter keep) =
      (project.items.map Markup.tree).filter keep := by
  have hgroups : project.markup.tree.elementsNamed "ItemGroup" = [
      (Markup.group "ItemGroup" [] [.bare "Build" [("Include", project.buildPattern)],
        folderMarkup project.name]).tree,
      (Markup.group "ItemGroup" [] (project.references.map ProjectReference.markup)).tree,
      (Markup.group "ItemGroup" [] (if project.hasComparison then
        [.bare "None" [("Include", project.comparisonFileName)]] else [])).tree,
      (Markup.group "ItemGroup" [] (project.folders.map folderMarkup)).tree] := by
    simp [markup, identityProperties, releaseProperties, debugProperties, toolProperties,
      elementsNamed_group]
  simp only [hgroups, List.flatMap_cons, List.flatMap_nil, elements_group, List.append_nil, items,
    List.map_append, List.filter_append, List.append_assoc]

end Project

namespace ProjectReference

open Xml.Markup (textsAt_group attribute?_include)

theorem name_markup (reference : ProjectReference) :
    reference.markup.name = "ArtifactReference" ∨ reference.markup.name = "ProjectReference" := by
  cases reference with
  | dacpac | system => exact .inl rfl
  | project => exact .inr rfl

theorem textsAt_artifact (path literal : String) :
    (artifact path literal).tree.textsAt ["HintPath"] = [path] ∧
      (artifact path literal).tree.textsAt ["DatabaseVariableLiteralValue"] = [literal] := by
  constructor <;> simp [artifact, Markup.field, textsAt_group, Markup.text_leaf]

theorem databaseOfPackage (fileName : String) :
    DatabaseOfPackage fileName ((Path.mk fileName).stem?.getD fileName) := by
  cases hs : (Path.mk fileName).stem? with
  | none =>
    refine .text fun name hends => ?_
    by_contra hup
    have hname := Path.fileName?_eq_some.2 ⟨hends, hup⟩
    simp [Path.stem?, hname] at hs
  | some stem =>
    obtain ⟨name, hends, hup, hstem⟩ := Path.stemOf_of_stem? hs
    exact .stem hends hup hstem

/-- The item of a reference tells the reference. -/
theorem readFrom_tree (reference : ProjectReference) : reference.ReadFrom reference.markup.tree := by
  cases reference with
  | dacpac fileName =>
    obtain ⟨hpath, hliteral⟩ := textsAt_artifact fileName ((Path.mk fileName).stem?.getD fileName)
    exact ⟨Markup.name_tree _, attribute?_include _ _, hpath, _, hliteral, databaseOfPackage fileName⟩
  | project name guid =>
    refine ⟨Markup.name_tree _, attribute?_include _ _, ?_, ?_, ?_⟩
    all_goals simp [markup, Markup.field, textsAt_group, Markup.text_leaf]
  | system name hintPath =>
    obtain ⟨hpath, hliteral⟩ := textsAt_artifact hintPath name
    exact ⟨Markup.name_tree _, attribute?_include _ _, hpath, hliteral⟩

end ProjectReference

namespace Project

theorem filter_references {wanted : String} (ha : wanted ≠ "ArtifactReference")
    (hp : wanted ≠ "ProjectReference") (references : List ProjectReference) :
    (references.map ProjectReference.markup).filter (·.name == wanted) = [] := by
  rw [List.filter_eq_nil_iff, List.forall_mem_map]
  intro reference _ he
  rcases reference.name_markup with h | h
  · exact ha ((eq_of_beq he).symm.trans h)
  · exact hp ((eq_of_beq he).symm.trans h)

theorem filter_folders (wanted : String) (folders : List String) :
    (folders.map folderMarkup).filter (·.name == wanted) =
      if wanted = "Folder" then folders.map folderMarkup else [] := by
  split
  · rename_i h
    rw [List.filter_eq_self, List.forall_mem_map]
    exact fun folder _ => beq_iff_eq.2 h.symm
  · rename_i h
    rw [List.filter_eq_nil_iff, List.forall_mem_map]
    exact fun folder _ he => h (eq_of_beq he).symm

/-- What the items of a name include. -/
theorem includesAt_items (project : Project) (wanted : String) :
    project.markup.tree.includesAt ["ItemGroup", wanted] =
      (project.items.filter (·.name == wanted)).filterMap (·.tree.attribute? "Include") := by
  have hitems := project.items_tree (·.name == wanted)
  have hdescend : project.markup.tree.descend ["ItemGroup", wanted] =
      (project.markup.tree.elementsNamed "ItemGroup").flatMap fun group =>
        group.elements.filter (·.name == wanted) := by
    simp [Element.descend, Element.elementsNamed]
  rw [Element.includesAt, hdescend, hitems, List.filter_map, List.filterMap_map]
  simp only [Function.comp_def, Markup.name_tree]

/-- The items of references are those of the project's references. -/
theorem referenceItems_tree (project : Project) : project.markup.tree.referenceItems =
    project.references.map fun reference => reference.markup.tree := by
  have hreferences : (project.references.map ProjectReference.markup).filter (fun item =>
      item.name == "ArtifactReference" || item.name == "ProjectReference") =
        project.references.map ProjectReference.markup := by
    rw [List.filter_eq_self, List.forall_mem_map]
    intro reference _
    rcases reference.name_markup with h | h <;> simp [h]
  have hfolders : (project.folders.map folderMarkup).filter (fun item =>
      item.name == "ArtifactReference" || item.name == "ProjectReference") = [] := by
    rw [List.filter_eq_nil_iff, List.forall_mem_map]
    simp [folderMarkup]
  rw [Element.referenceItems, items_tree, List.filter_map]
  simp only [Function.comp_def, Markup.name_tree, items, List.filter_append, hreferences, hfolders]
  cases project.hasComparison <;> simp [folderMarkup]

/-- The root of a project file tells the project. -/
theorem readFrom_tree (project : Project) : project.ReadFrom project.markup.tree := by
  have htexts : ∀ field, project.markup.tree.textsAt ["PropertyGroup", field] =
      [project.identityProperties, project.releaseProperties, project.debugProperties,
        toolProperties].flatMap fun group => group.tree.textsAt [field] := by
    intro field
    simp [Element.textsAt, Element.descend, properties_tree]
  have hfolder : (fun item : Markup => item.tree.attribute? "Include") ∘ folderMarkup = some :=
    funext fun folder => Markup.attribute?_bare "Folder" folder
  constructor
  case references =>
    rw [referenceItems_tree, List.forall₂_map_left_iff]
    exact List.forall₂_same.2 fun reference _ => reference.readFrom_tree
  case scripts | folders | comparison =>
    rw [includesAt_items]
    cases hc : project.hasComparison <;>
      simp [items, hc, buildPattern, comparisonFileName, filter_references, filter_folders, Markup.attribute?_bare, folderMarkup, hfolder]
  case warnings =>
    rw [htexts]
    cases hw : project.warningsAsErrors <;>
      simp [identityProperties, releaseProperties, debugProperties, toolProperties, buildBool, hw,
        Markup.field, Markup.textsAt_group, Markup.text_leaf]
  all_goals
    rw [htexts]
    simp [identityProperties, releaseProperties, debugProperties, toolProperties, Markup.field,
      Markup.textsAt_group, Markup.text_leaf]

/-- The files of a project and of a comparison with plain strings are well-formed documents. Without
their indentation they are the elements that were written, and every string is found at its place. -/
theorem descriptor_reads_back (project : Project) (options : ComparisonOptions) (h : project.IsPlain)
    (ho : PlainText options.connectionString) :
    (∃ root, Document.WellFormed project.descriptor root ∧
      root.withoutIndentation = project.markup.tree ∧ project.ReadFrom root.withoutIndentation) ∧
    ∃ root, Document.WellFormed (project.comparison options) root ∧
      root.withoutIndentation = (project.comparisonMarkup options).tree ∧
      project.ComparisonReadFrom root.withoutIndentation options := by
  obtain ⟨root, hwell, htree⟩ := (readable_markup h).document
  obtain ⟨other, hwell', htree'⟩ := (readable_comparisonMarkup h ho).document
  refine ⟨⟨root, hwell, htree, ?_⟩, other, hwell', htree', ?_⟩
  · rw [htree]
    exact project.readFrom_tree
  · rw [htree']
    exact comparisonReadFrom_tree project options

/-- A project with all characters that are escaped. -/
theorem quoted_project_reads_back :
    let project : Project := ⟨"R&D <\"new\">", "\x7b1'2\x7d", "Provider", true,
      [.dacpac "a.b.dacpac", .project "C&A" "\x7b3\x7d", .system "master" "C:\\<tools>\\master.dacpac"], true,
      ["R&D\\Security\\", " "]⟩
    let options : ComparisonOptions := ⟨"Data Source='a>b'", true, false, false, true, false, false, false⟩
    project.IsPlain ∧ PlainText options.connectionString ∧
    (∃ root, Document.root? project.descriptor = some root ∧ project.ReadFrom root.withoutIndentation) ∧
    ∃ root, Document.root? (project.comparison options) = some root ∧
      root.withoutIndentation.textsAt ["ExcludedTypes", "ExcludedType"] =
        ["Microsoft.Data.Tools.Schema.Sql.SchemaModel.SqlRole",
          "Microsoft.Data.Tools.Schema.Sql.SchemaModel.SqlView"] := by
  intro project options
  have hplain : project.IsPlain := by
    refine ⟨by decide, by decide, by decide, ?_, by decide⟩
    simp only [project, List.forall_mem_cons, List.not_mem_nil, false_imp_iff, implies_true, and_true]
    have hpackage : PlainText "a.b.dacpac" := by decide
    exact ⟨hpackage, ⟨by decide, by decide⟩, by decide, by decide⟩
  have hconnection : PlainText options.connectionString := by decide
  obtain ⟨⟨root, hwell, -, hread⟩, other, hwell', -, hread'⟩ :=
    descriptor_reads_back project options hplain hconnection
  exact ⟨hplain, hconnection, ⟨root, hwell.root, hread⟩, other, hwell'.root, hread'.excluded⟩

end Project

end DatabaseProject
