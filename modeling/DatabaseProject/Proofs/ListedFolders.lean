import DatabaseProject.Proofs.FileTree
import DatabaseProject.Proofs.Renaming
import DatabaseProject.Proofs.ScriptPaths

/-!
# Listed folders and the places of scripts

A project lists the folders of a database from its schemas and the categories of their objects; the
scripts are written to the paths of the schemas and objects themselves. Both come to the same: every
folder of a script is listed, and every listed category has a script. The folders of the includes only
follow behind.
-/

namespace DatabaseProject

open Outcome

/-- The folders that a path leads through. -/
def Path.directories (path : Path) : List String := path.fields.dropLast

/-- The kind of object that an item declares. -/
def Item.kind? : Item → Option ObjectKind
  | .schema _ => none
  | .table _ => some .table
  | .view _ => some .view
  | .function _ => some .function
  | .procedure _ => some .procedure

/-- A schema has declared objects of a kind. -/
def DatabaseDecl.declares (decl : DatabaseDecl) (schema : String) : ObjectKind → Bool
  | .function => decl.functions.any (·.schema = schema)
  | .procedure => decl.procedures.any (·.schema = schema)
  | .table => decl.tables.any (·.schema = schema)
  | .view => decl.views.any (·.schema = schema)

/-- The folders of the categories that a schema has declared objects of. -/
def DatabaseDecl.categories (decl : DatabaseDecl) (schema : String) : List String :=
  ([.function, .procedure, .table, .view].filter (decl.declares schema)).map ObjectKind.folder

theorem DatabaseDecl.categories_sublist (decl : DatabaseDecl) (schema : String) :
    (decl.categories schema).Sublist ["Functions", "Stored Procedures", "Tables", "Views"] :=
  List.filter_sublist.map ObjectKind.folder

theorem Item.kind_of_addition {database : String} {resolve : ColumnResolver} {item : Item}
    {object : DatabaseObject} (h : item.addition database resolve = .ok (.object object)) :
    item.kind? = some object.kind := by
  cases item with
  | schema decl => cases h
  | table decl =>
    obtain ⟨table, -, he⟩ := map_eq_ok.1 h
    cases he
    rfl
  | view decl => cases h; rfl
  | function decl => cases h; rfl
  | procedure decl => cases h; rfl

theorem DatabaseDecl.declares_iff {decl : DatabaseDecl} {schema : String} {kind : ObjectKind} :
    decl.declares schema kind = true ↔ ∃ item ∈ decl.objectsIn schema, item.kind? = some kind := by
  simp only [objectsIn, List.mem_append, or_and_right, exists_or, List.mem_map, List.mem_filter,
    decide_eq_true_eq]
  cases kind <;> simp [declares, Item.kind?]

/-- The stored categories of a schema are the declared ones. -/
theorem Schema.Holds.kinds_eq {database : String} {resolve : ColumnResolver} {decl : DatabaseDecl}
    {schema : SchemaDecl} {stored : Schema}
    (h : stored.Holds database resolve schema (decl.objectsIn schema.name)) :
    stored.kinds.map ObjectKind.folder = decl.categories schema.name := by
  have hkind : ∀ kind : ObjectKind, (stored.objects.values.any (·.kind == kind)) =
      decl.declares schema.name kind := by
    intro kind
    rw [Bool.eq_iff_iff, DatabaseDecl.declares_iff, List.any_eq_true]
    constructor
    · intro hstored
      obtain ⟨object, ho, hk⟩ := hstored
      obtain ⟨item, hi, ha⟩ := exists_left_of_forall₂ h.additions ho
      rw [beq_iff_eq] at hk
      exact ⟨item, hi, hk ▸ Item.kind_of_addition ha⟩
    · intro hdeclared
      obtain ⟨item, hi, hk⟩ := hdeclared
      obtain ⟨object, ho, ha⟩ := exists_right_of_forall₂ h.additions hi
      rw [Item.kind_of_addition ha, Option.some.injEq] at hk
      exact ⟨object, ho, beq_iff_eq.2 hk⟩
  unfold kinds DatabaseDecl.categories
  simp only [hkind]
  rfl

theorem Schema.mem_kinds {schema : Schema} {kind : ObjectKind} :
    kind ∈ schema.kinds ↔ ∃ object ∈ schema.objects.values, object.kind = kind := by
  have hall : kind ∈ ObjectKind.all := by cases kind <;> decide
  simp [kinds, hall]

namespace Project

variable {settings : Settings} {tree : FileTree} {db : Database} {decl : DatabaseDecl}
  {previous : List Project} {project : Project} {guid entry path name : String}
  {listed folders : List String}

/-- The entry for the folder of a script of a database. -/
def folderOf (db : String) (path : Path) : String := "\\".intercalate (db :: path.directories) ++ "\\"

theorem folderEntry_cons (names : List String) :
    folderEntry (name :: names) = name ++ "\\" ++ folderEntry names := by
  rw [folderEntry, List.map_cons, String.join_cons]
  rfl

theorem folderEntry_eq_intercalate {names : List String} (hne : names ≠ []) :
    folderEntry names = "\\".intercalate names ++ "\\" := by
  induction names with
  | nil => exact absurd rfl hne
  | cons first rest ih =>
    cases rest with
    | nil => simp [folderEntry, String.join_cons]
    | cons next rest =>
      rw [folderEntry_cons, ih (List.cons_ne_nil _ _), String.intercalate_cons_cons, String.append_assoc,
        String.append_assoc, String.append_assoc]

theorem folderOf_eq (db : String) (path : Path) : folderOf db path = folderEntry (db :: path.directories) :=
  (folderEntry_eq_intercalate (List.cons_ne_nil _ _)).symm

theorem folderEntry_pair (db schema : String) : folderEntry [db, schema] = db ++ "\\" ++ schema ++ "\\" := by
  simp [folderEntry_eq_intercalate, String.append_assoc]

theorem folderEntry_triple (db schema category : String) :
    folderEntry [db, schema, category] = db ++ "\\" ++ schema ++ "\\" ++ category ++ "\\" := by
  simp [folderEntry_eq_intercalate, String.append_assoc]

theorem folderEntry_security (db : String) : folderEntry [db, "Security"] = db ++ "\\Security\\" := by
  rw [folderEntry_pair, String.append_assoc, String.append_assoc]
  rfl

/-- The folders of the schemas in the order of their declarations, each with its categories. -/
theorem scriptFolders_eq {resolve : ColumnResolver} (h : db.Realises resolve decl) :
    scriptFolders db = folderEntry [decl.name, "Security"] :: decl.schemas.flatMap fun schema =>
      folderEntry [decl.name, schema.name] :: (decl.categories schema.name).map fun category =>
        folderEntry [decl.name, schema.name, category] := by
  have hname : db.name = decl.name := by
    rw [h.settings]
    rfl
  have hschemas : List.Forall₂ (fun schema stored => schemaFolders decl.name stored =
      folderEntry [decl.name, schema.name] :: (decl.categories schema.name).map fun category =>
        folderEntry [decl.name, schema.name, category]) decl.schemas db.schemas.values := by
    apply h.forall₂_schemas.imp
    intro schema stored hholds
    have hstored : stored.name = schema.name := by
      rw [hholds.settings]
      rfl
    rw [schemaFolders, hstored, ← hholds.kinds_eq, List.map_map]
    rfl
  unfold scriptFolders
  rw [hname]
  congr 1
  generalize decl.schemas = schemas at hschemas ⊢
  generalize db.schemas.values = stored at hschemas ⊢
  induction hschemas with
  | nil => rfl
  | cons hfirst _ ih => rw [List.flatMap_cons, List.flatMap_cons, hfirst, ih]

theorem folderOf_schema {schema : Schema} (h : '/' ∉ schema.name.toList) :
    folderOf name schema.scriptPath = folderEntry [name, "Security"] := by
  rw [folderOf_eq, Path.directories, Schema.fields_scriptPath_of_no_separator h]
  rfl

theorem folderOf_object {object : DatabaseObject}
    (hs : object.schema ≠ "" ∧ '/' ∉ object.schema.toList) (hn : '/' ∉ object.name.toList) :
    folderOf name object.scriptPath = folderEntry [name, object.schema, object.kind.folder] := by
  rw [folderOf_eq, Path.directories, DatabaseObject.fields_scriptPath_of_no_separator hs hn]
  rfl

/-- The folder of an object's script is listed for its schema. -/
theorem mem_scriptFolders_of_object (hc : db.Coherent) {object : DatabaseObject} (ho : object ∈ db.objects) :
    folderEntry [db.name, object.schema, object.kind.folder] ∈ scriptFolders db := by
  obtain ⟨schema, hs, ho⟩ := List.mem_flatMap.1 ho
  obtain ⟨key, hkey⟩ := OrderedMap.mem_values.1 hs
  obtain ⟨name, hname⟩ := OrderedMap.mem_values.1 ho
  have hschema : object.schema = schema.name := ((hc.schemas _ hkey).2.2.objects _ hname).2.1
  apply List.mem_cons_of_mem
  refine List.mem_flatMap.2 ⟨schema, hs, List.mem_cons_of_mem _ (List.mem_map.2 ⟨object.kind, ?_, ?_⟩)⟩
  · exact Schema.mem_kinds.2 ⟨object, ho, rfl⟩
  · rw [hschema]

/-- A listed folder is that of the schema scripts, that of a schema or that of an object's script. -/
theorem object_of_mem_scriptFolders (hc : db.Coherent) (he : entry ∈ scriptFolders db)
    (hsecurity : entry ≠ folderEntry [db.name, "Security"])
    (hschema : ∀ schema ∈ db.schemas.values, entry ≠ folderEntry [db.name, schema.name]) :
    ∃ object ∈ db.objects, entry = folderEntry [db.name, object.schema, object.kind.folder] := by
  rcases List.mem_cons.1 he with he | he
  · exact absurd he hsecurity
  obtain ⟨schema, hs, he⟩ := List.mem_flatMap.1 he
  rcases List.mem_cons.1 he with he | he
  · exact absurd he (hschema schema hs)
  obtain ⟨kind, hk, rfl⟩ := List.mem_map.1 he
  obtain ⟨object, ho, rfl⟩ := Schema.mem_kinds.1 hk
  obtain ⟨key, hkey⟩ := OrderedMap.mem_values.1 hs
  obtain ⟨name, hname⟩ := OrderedMap.mem_values.1 ho
  have hplace : object.schema = schema.name := ((hc.schemas _ hkey).2.2.objects _ hname).2.1
  exact ⟨object, List.mem_flatMap.2 ⟨schema, hs, ho⟩, by rw [hplace]⟩

/-- The entry for an upper folder of an include. -/
def IsIncluded (settings : Settings) (tree : FileTree) (db path entry : String) : Prop :=
  ∃ folder location names, includeFolder settings tree path = .ok (folder, location) ∧
    names ∈ tree.foldersBelow location listedDepth ∧ entry = "\\".intercalate (db :: names) ++ "\\"

/-- New entries only follow behind those that are listed already. -/
theorem foldl_addNew (entries listed : List String) :
    ∃ added, entries.foldl addNew listed = listed ++ added ∧ ∀ entry ∈ added, entry ∈ entries := by
  induction entries generalizing listed with
  | nil => exact ⟨[], by simp, by simp⟩
  | cons entry rest ih =>
    rw [List.foldl_cons]
    by_cases hl : listed.contains entry = true
    · obtain ⟨added, he, hall⟩ := ih listed
      rw [addNew, if_pos hl]
      exact ⟨added, he, fun other ho => List.mem_cons_of_mem _ (hall other ho)⟩
    · obtain ⟨added, he, hall⟩ := ih (listed ++ [entry])
      rw [addNew, if_neg hl]
      refine ⟨entry :: added, by rw [he, List.append_assoc, List.singleton_append], ?_⟩
      rw [List.forall_mem_cons]
      exact ⟨List.mem_cons_self, fun other ho => List.mem_cons_of_mem _ (hall other ho)⟩

theorem addInclude_appends (h : addInclude settings tree name listed path = .ok folders) :
    ∃ added, folders = listed ++ added ∧ ∀ entry ∈ added, IsIncluded settings tree name path entry := by
  obtain ⟨⟨folder, location⟩, hf, h⟩ := bind_eq_ok.1 h
  dsimp only at h
  split at h
  · cases h
    obtain ⟨added, he, hall⟩ := foldl_addNew
      ((tree.foldersBelow location listedDepth).map fun names => folderEntry (name :: names)) listed
    refine ⟨added, he, fun entry hm => ?_⟩
    obtain ⟨names, hn, hentry⟩ := List.mem_map.1 (hall entry hm)
    rw [folderEntry_eq_intercalate (List.cons_ne_nil _ _)] at hentry
    exact ⟨folder, location, names, hf, hn, hentry.symm⟩
  · cases h

/-- The folders of the includes follow behind those of the scripts. -/
theorem listFolders_appends (h : listFolders settings tree db = .ok folders) :
    ∃ included, folders = scriptFolders db ++ included ∧
      ∀ entry ∈ included, ∃ path ∈ db.includes, IsIncluded settings tree db.name path entry := by
  refine foldlM_induction (motive := fun paths folders => ∃ included,
    folders = scriptFolders db ++ included ∧
      ∀ entry ∈ included, ∃ path ∈ paths, IsIncluded settings tree db.name path entry)
    ⟨[], by simp, by simp⟩ ?_ h
  rintro paths _ path folders ⟨included, rfl, hall⟩ hstep
  obtain ⟨added, rfl, hadded⟩ := addInclude_appends hstep
  refine ⟨included ++ added, List.append_assoc _ _ _, fun entry he => ?_⟩
  rcases List.mem_append.1 he with he | he
  · obtain ⟨earlier, hm, hi⟩ := hall entry he
    exact ⟨earlier, List.mem_append_left _ hm, hi⟩
  · exact ⟨path, by simp, hadded entry he⟩

/-- What an assembled project lists before the folders of its includes: the folder of the schema
scripts, and for each schema in order its folder and those of its categories in order. The folders of
all scripts are among them, and each folder of a category is that of a script. -/
theorem listed_folders_hold_scripts {registry : Registry} (h : (registry.construct decl).1 = .ok ())
    (hdb : (registry.construct decl).2.database decl.name = .ok db)
    (hn : ∀ item ∈ decl.items, item.name ≠ "" ∧ '/' ∉ item.name.toList)
    (ha : assemble settings tree previous guid db = .ok project) :
    ∃ listed included, project.folders = listed ++ included ∧
      (∀ entry ∈ included, ∃ path ∈ decl.includes, IsIncluded settings tree decl.name path entry) ∧
      (listed = (decl.name ++ "\\Security\\") :: decl.schemas.flatMap fun schema =>
        (decl.name ++ "\\" ++ schema.name ++ "\\") :: (decl.categories schema.name).map fun category =>
          decl.name ++ "\\" ++ schema.name ++ "\\" ++ category ++ "\\") ∧
      (∀ schema, (decl.categories schema).Sublist ["Functions", "Stored Procedures", "Tables", "Views"]) ∧
      (∀ scripts, db.scripts = .ok scripts → ∀ script ∈ scripts, folderOf decl.name script.path ∈ listed) ∧
      ∀ entry ∈ listed, entry ≠ decl.name ++ "\\Security\\" →
        (∀ schema ∈ decl.schemas, entry ≠ decl.name ++ "\\" ++ schema.name ++ "\\") →
        ∃ object ∈ db.objects, folderOf decl.name object.scriptPath = entry ∧
          ∀ scripts, db.scripts = .ok scripts → ∃ script ∈ scripts, script.path = object.scriptPath := by
  obtain ⟨hconstructed, hrealises⟩ := Registry.constructed_of_database h hdb
  have hcoherent := hconstructed.coherent
  have hname := hconstructed.name_eq
  obtain ⟨hschemas, hobjects⟩ :=
    hconstructed.names_satisfy (fun name => name ≠ "" ∧ '/' ∉ name.toList) hn
  have hincludes : db.includes = decl.includes := by
    rw [hrealises.settings]
    rfl
  obtain ⟨included, hfolders, hincluded⟩ := listFolders_appends (listFolders_of_assemble ha)
  rw [hincludes, hname] at hincluded
  refine ⟨scriptFolders db, included, hfolders, hincluded, ?_, decl.categories_sublist, ?_, ?_⟩
  · rw [scriptFolders_eq hrealises, folderEntry_security]
    simp only [folderEntry_pair, folderEntry_triple]
  · intro scripts hs script hm
    rcases (Database.mem_scripts hs).1 hm with ⟨schema, hschema, rfl⟩ | ⟨object, ho, hscript⟩
    · change folderOf decl.name schema.scriptPath ∈ scriptFolders db
      rw [folderOf_schema (hschemas schema hschema).2, ← hname]
      exact List.mem_cons_self
    · obtain ⟨hplace, hobject⟩ := hobjects object ho
      rw [Database.path_of_scriptFile hscript, folderOf_object hplace hobject.2, ← hname]
      exact mem_scriptFolders_of_object hcoherent ho
  · intro entry he hsecurity hother
    rw [← folderEntry_security, ← hname] at hsecurity
    simp only [← folderEntry_pair, ← hname] at hother
    have hstored : ∀ schema ∈ db.schemas.values, entry ≠ folderEntry [db.name, schema.name] := by
      intro schema hs
      obtain ⟨declared, hd, hholds⟩ := exists_left_of_forall₂ hrealises.forall₂_schemas hs
      have hsame : schema.name = declared.name := by
        rw [hholds.settings]
        rfl
      rw [hsame]
      exact hother declared hd
    obtain ⟨object, ho, rfl⟩ := object_of_mem_scriptFolders hcoherent he hsecurity hstored
    obtain ⟨hplace, hobject⟩ := hobjects object ho
    refine ⟨object, ho, by rw [folderOf_object hplace hobject.2, hname], fun scripts hs => ?_⟩
    have hpath : object.scriptPath ∈ scripts.map (·.path) := by
      rw [Database.paths_of_scripts hs]
      exact List.mem_append_right _ (List.mem_map_of_mem ho)
    obtain ⟨script, hm, hp⟩ := List.mem_map.1 hpath
    exact ⟨script, hm, hp⟩

/-- A schema with the name of the folder of the schema scripts, and an include with the folder of a
schema in it. -/
theorem security_schema_listed :
    let settings : Settings := ⟨⟨"/out"⟩, ⟨"/project"⟩, none, ∅⟩
    let tree := FileTree.ofEntries [(["project"], .folder), (["project", "inc"], .folder),
      (["project", "inc", "sales"], .folder), (["project", "inc", "sales", "More"], .folder)]
    let decl := { DatabaseDecl.named "Shop" with
      includes := ["inc"]
      schemas := [⟨"sales", "dbo"⟩, ⟨"Security", "dbo"⟩]
      views := [⟨"Totals", "sales", "CREATE VIEW [sales].[Totals] AS SELECT 1"⟩]
      procedures := [⟨"Close", "Security", "CREATE PROCEDURE [Security].[Close] AS RETURN"⟩] }
    ∃ db project scripts, (Registry.empty.construct decl).1 = .ok () ∧
      (Registry.empty.construct decl).2.database "Shop" = .ok db ∧
      (∀ item ∈ decl.items, item.name ≠ "" ∧ '/' ∉ item.name.toList) ∧
      assemble settings tree [] "" db = .ok project ∧ db.scripts = .ok scripts ∧
      ∀ script ∈ scripts, folderOf "Shop" script.path ∈ project.folders := by
  intro settings tree decl
  have hok : (Registry.empty.construct decl).1 = .ok () := by rfl
  have hn : ∀ item ∈ decl.items, item.name ≠ "" ∧ '/' ∉ item.name.toList := by decide
  obtain ⟨db, hdb, scripts, hs⟩ : ∃ db, (Registry.empty.construct decl).2.database "Shop" = .ok db ∧
      ∃ scripts, db.scripts = .ok scripts := ⟨_, rfl, _, rfl⟩
  obtain ⟨project, ha⟩ : ∃ project, assemble settings tree [] "" db = .ok project := by
    have hassemble : ((Registry.empty.construct decl).2.database "Shop" >>=
        assemble settings tree [] "").toOption.isSome = true := by
      unfold assemble listFolders addInclude FileTree.foldersBelow
      rw [FileTree.below_eq_insertionSort]
      decide
    rw [hdb, Option.isSome_iff_exists] at hassemble
    obtain ⟨project, ha⟩ := hassemble
    exact ⟨project, toOption_eq_some.1 ha⟩
  obtain ⟨listed, included, hfolders, -, -, -, hscripts, -⟩ := listed_folders_hold_scripts hok hdb hn ha
  refine ⟨db, project, scripts, hok, hdb, hn, ha, hs, fun script hm => ?_⟩
  rw [hfolders]
  exact List.mem_append_left _ (hscripts scripts hs script hm)

end Project

end DatabaseProject
