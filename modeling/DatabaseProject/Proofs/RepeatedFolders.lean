import DatabaseProject.Proofs.Assembly
import Mathlib.Data.List.Count

/-!
# Folders that a project lists twice

What an include adds to the list is new there, but the folders of schemas and of their categories are
listed without looking at what is in the list already. So a schema is listed twice if its folder is the
one of all schema scripts, or if it is named like the folder of a category of another schema; no other
folder is listed twice, and none is listed more often.
-/

namespace DatabaseProject

open Outcome

namespace DatabaseDecl

variable {decl : DatabaseDecl} {name : String}

/-- The folder of a category, as a name below the folder of the database. -/
def categoryFolder (schema category : String) : String := schema ++ "\\" ++ category

/-- The folders of the categories of all schemas. -/
def categoryFolders (decl : DatabaseDecl) : List String :=
  decl.schemas.flatMap fun schema => (decl.categories schema.name).map (categoryFolder schema.name)

/-- A schema of the name would have a folder that is listed for something else: for the scripts of all
schemas, or for a category. -/
def IsTaken (decl : DatabaseDecl) (name : String) : Prop :=
  name = "Security" ∨ ∃ schema ∈ decl.schemas, ∃ category ∈ decl.categories schema.name,
    name = schema.name ++ "\\" ++ category

/-- All folders that scripts are written to, as names below the folder of the database. -/
def folderNames (decl : DatabaseDecl) : List String :=
  "Security" :: decl.schemas.flatMap fun schema =>
    schema.name :: (decl.categories schema.name).map (categoryFolder schema.name)

theorem mem_categoryFolders : name ∈ decl.categoryFolders ↔
    ∃ schema ∈ decl.schemas, ∃ category ∈ decl.categories schema.name,
      name = schema.name ++ "\\" ++ category := by
  simp only [categoryFolders, List.mem_flatMap, List.mem_map, categoryFolder, eq_comm]

/-- No category is named with a separator, so its schema can be told from its folder. -/
theorem lastSegment_categoryFolder (schema : String) {category : String}
    (h : category ∈ decl.categories name) :
    Include.lastSegment (categoryFolder schema category) = category := by
  have hplain : ∀ category ∈ ["Functions", "Stored Procedures", "Tables", "Views"],
      '/' ∉ category.toList ∧ '\\' ∉ category.toList := by decide
  exact Include.lastSegment_append (hplain category ((decl.categories_sublist name).subset h))
    (.inr ⟨schema, .inr rfl⟩)

theorem categoryFolder_inj {schema schema' category category' name' : String}
    (h : category ∈ decl.categories name) (h' : category' ∈ decl.categories name')
    (he : categoryFolder schema category = categoryFolder schema' category') :
    schema = schema' ∧ category = category' := by
  have hcategory : category = category' := by
    rw [← lastSegment_categoryFolder schema h, he, lastSegment_categoryFolder schema' h']
  subst hcategory
  rw [categoryFolder, categoryFolder, String.append_left_inj, String.append_left_inj] at he
  exact ⟨he, rfl⟩

theorem security_not_mem_categoryFolders : "Security" ∉ decl.categoryFolders := by
  intro h
  obtain ⟨schema, -, category, -, he⟩ := mem_categoryFolders.1 h
  have hseparator : '\\' ∈ (schema.name ++ "\\" ++ category).toList := by simp
  rw [← he] at hseparator
  exact absurd hseparator (by decide)

theorem nodup_categoryFolders (h : (decl.schemas.map (·.name)).Nodup) : decl.categoryFolders.Nodup := by
  refine List.nodup_flatMap.2 ⟨fun schema _ => ?_, ?_⟩
  · have hnodup : (decl.categories schema.name).Nodup :=
      (decl.categories_sublist schema.name).nodup (by decide)
    exact hnodup.map_on fun first hf second hs he => (categoryFolder_inj hf hs he).2
  · refine (List.pairwise_map.1 h).imp fun {first second} hne => ?_
    intro folder hf hs
    obtain ⟨category, hc, rfl⟩ := List.mem_map.1 hf
    obtain ⟨category', hc', he⟩ := List.mem_map.1 hs
    exact hne (categoryFolder_inj hc' hc he).1.symm

/-- How often a folder is listed: for all schema scripts, for a schema and for a category. -/
theorem count_folderNames : decl.folderNames.count name =
    ["Security"].count name + (decl.schemas.map (·.name)).count name + decl.categoryFolders.count name := by
  have hperm : (decl.schemas.map (·.name) ++ decl.categoryFolders).Perm
      (decl.schemas.flatMap fun schema =>
        schema.name :: (decl.categories schema.name).map (categoryFolder schema.name)) := by
    rw [List.map_eq_flatMap]
    exact List.flatMap_append_perm _ _ _
  rw [folderNames, ← List.singleton_append, List.count_append, ← hperm.count_eq, List.count_append,
    Nat.add_assoc]

/-- A folder is listed twice if it is that of a schema whose name is taken, and once otherwise. -/
theorem count_folderNames_eq_two (h : (decl.schemas.map (·.name)).Nodup) (name : String) :
    decl.folderNames.count name ≤ 2 ∧
      (decl.folderNames.count name = 2 ↔ name ∈ decl.schemas.map (·.name) ∧ decl.IsTaken name) := by
  have hschema := List.nodup_iff_count_le_one.1 h name
  have hcategory := List.nodup_iff_count_le_one.1 (nodup_categoryFolders h) name
  have hsecurity := List.nodup_iff_count_le_one.1 (List.nodup_singleton "Security") name
  have happart : ¬(0 < ["Security"].count name ∧ 0 < decl.categoryFolders.count name) := by
    rw [List.count_pos_iff, List.count_pos_iff, List.mem_singleton]
    rintro ⟨rfl, hm⟩
    exact security_not_mem_categoryFolders hm
  have htaken : decl.IsTaken name ↔
      0 < ["Security"].count name ∨ 0 < decl.categoryFolders.count name := by
    rw [List.count_pos_iff, List.count_pos_iff, List.mem_singleton, mem_categoryFolders, IsTaken]
  rw [← List.count_pos_iff, htaken, count_folderNames]
  omega

end DatabaseDecl

namespace Project

variable {settings : Settings} {tree : FileTree} {db : Database} {decl : DatabaseDecl}
  {previous : List Project} {project : Project} {guid name : String} {folders : List String}

theorem folderEntry_category {schema category : String} : folderEntry [name, schema, category] =
    folderEntry [name, DatabaseDecl.categoryFolder schema category] := by
  simp only [folderEntry_cons, DatabaseDecl.categoryFolder, String.append_assoc]

theorem folderEntry_injective (db : String) : Function.Injective fun name => folderEntry [db, name] := by
  intro first second h
  simp only [folderEntry_cons, String.append_right_inj, String.append_left_inj] at h
  exact h

theorem scriptFolders_eq_map {resolve : ColumnResolver} (h : db.Realises resolve decl) :
    scriptFolders db = decl.folderNames.map fun name => folderEntry [decl.name, name] := by
  rw [scriptFolders_eq h, DatabaseDecl.folderNames, List.map_cons, List.map_flatMap]
  simp only [List.map_cons, List.map_map, folderEntry_category]
  rfl

/-- Adding what is new to a list makes nothing stand in it twice. -/
theorem count_addNew (listed : List String) (other entry : String) :
    (addNew listed other).count entry = listed.count entry ∨
      listed.count entry = 0 ∧ (addNew listed other).count entry = 1 := by
  rw [addNew]
  split
  · exact .inl rfl
  · rename_i hnew
    rw [List.contains_iff_mem] at hnew
    by_cases he : other = entry
    · subst he
      have hzero := List.count_eq_zero.2 hnew
      exact .inr ⟨hzero, by rw [List.count_append, hzero, List.count_singleton_self]⟩
    · left
      rw [List.count_append, List.count_singleton, if_neg (by simpa using he), Nat.add_zero]

theorem count_foldl_addNew (entries listed : List String) (entry : String) :
    (entries.foldl addNew listed).count entry = listed.count entry ∨
      listed.count entry = 0 ∧ (entries.foldl addNew listed).count entry = 1 := by
  induction entries generalizing listed with
  | nil => exact .inl rfl
  | cons other rest ih =>
    rw [List.foldl_cons]
    have hstep := count_addNew listed other entry
    have hrest := ih (addNew listed other)
    omega

/-- Of the folders that scripts are written to, those of schemas whose name is taken are listed twice. -/
theorem count_scriptFolders {resolve : ColumnResolver} (h : db.Realises resolve decl) (entry : String) :
    (scriptFolders db).count entry ≤ 2 ∧ ((scriptFolders db).count entry = 2 ↔
      ∃ schema ∈ decl.schemas, decl.IsTaken schema.name ∧
        entry = folderEntry [decl.name, schema.name]) := by
  rw [scriptFolders_eq_map h]
  by_cases hentry : ∃ name, entry = folderEntry [decl.name, name]
  · obtain ⟨name, rfl⟩ := hentry
    have hnames : (decl.schemas.map (·.name)).Nodup := h.names ▸ db.schemas.nodup
    obtain ⟨hle, htwo⟩ := DatabaseDecl.count_folderNames_eq_two hnames name
    rw [List.count_map_of_injective _ _ (folderEntry_injective decl.name) name, htwo]
    refine ⟨hle, ?_⟩
    simp only [List.mem_map, (folderEntry_injective decl.name).eq_iff]
    constructor
    · rintro ⟨⟨schema, hs, rfl⟩, htaken⟩
      exact ⟨schema, hs, htaken, rfl⟩
    · rintro ⟨schema, hs, htaken, rfl⟩
      exact ⟨⟨schema, hs, rfl⟩, htaken⟩
  · have hzero : (decl.folderNames.map fun name => folderEntry [decl.name, name]).count entry = 0 := by
      rw [List.count_eq_zero, List.mem_map]
      rintro ⟨name, -, rfl⟩
      exact hentry ⟨name, rfl⟩
    rw [hzero]
    refine ⟨Nat.zero_le 2, iff_of_false (by decide) ?_⟩
    rintro ⟨schema, -, -, rfl⟩
    exact hentry ⟨schema.name, rfl⟩

/-- The includes add no second entry to these. -/
theorem count_folders {resolve : ColumnResolver} (hr : db.Realises resolve decl)
    (h : listFolders settings tree db = .ok folders) (entry : String) :
    folders.count entry ≤ 2 ∧ (folders.count entry = 2 ↔
      ∃ schema ∈ decl.schemas, decl.IsTaken schema.name ∧
        entry = folderEntry [decl.name, schema.name]) := by
  obtain ⟨hle, htwo⟩ := count_scriptFolders hr entry
  obtain ⟨found, -, rfl⟩ := listFolders_adds h
  rcases count_foldl_addNew (found.flatten.map (includedEntry db.name)) (scriptFolders db) entry with
    hsame | ⟨hzero, hone⟩
  · rw [hsame]
    exact ⟨hle, htwo⟩
  · rw [hone]
    refine ⟨Nat.le_succ 1, iff_of_false (by decide) fun hrepeated => ?_⟩
    rw [htwo.2 hrepeated] at hzero
    cases hzero

/-- The folders of an assembled project are distinct exactly if no schema has a name that is taken: no
folder is listed more than twice, and twice only that of a schema with the name of the folder of all schema
scripts, or with the name of the folder of a category of another schema. -/
theorem folders_distinct_iff {registry : Registry} (h : (registry.construct decl).1 = .ok ())
    (hdb : (registry.construct decl).2.database decl.name = .ok db)
    (ha : assemble settings tree previous guid db = .ok project) :
    (project.folders.Nodup ↔ ∀ schema ∈ decl.schemas, ¬decl.IsTaken schema.name) ∧
    ∀ entry, project.folders.count entry ≤ 2 ∧ (project.folders.count entry = 2 ↔
      ∃ schema ∈ decl.schemas, decl.IsTaken schema.name ∧
        entry = folderEntry [decl.name, schema.name]) := by
  obtain ⟨-, hrealises⟩ := Registry.constructed_of_database h hdb
  have hcount := count_folders hrealises (listFolders_of_assemble ha)
  refine ⟨?_, hcount⟩
  rw [List.nodup_iff_count_le_one]
  constructor
  · intro hnodup schema hs htaken
    have htwo := (hcount (folderEntry [decl.name, schema.name])).2.2 ⟨schema, hs, htaken, rfl⟩
    have hone := hnodup (folderEntry [decl.name, schema.name])
    omega
  · intro hfree entry
    obtain ⟨hle, htwo⟩ := hcount entry
    have hne : project.folders.count entry ≠ 2 := by
      rw [ne_eq, htwo]
      rintro ⟨schema, hs, htaken, -⟩
      exact hfree schema hs htaken
    omega

/-- A schema with the name of the folder of another schema's views, and an include with these folders. -/
def viewFolderSchema : DatabaseDecl :=
  { DatabaseDecl.named "Shop" with
    includes := ["inc"]
    schemas := [⟨"sales", "dbo"⟩, ⟨"sales\\Views", "dbo"⟩]
    views := [⟨"Totals", "sales", "CREATE VIEW [sales].[Totals] AS SELECT 1"⟩] }

theorem view_folder_schema_listed_twice :
    let settings : Settings := ⟨⟨"/out"⟩, ⟨"/project"⟩, none, ∅⟩
    let tree := FileTree.ofEntries [(["project"], .folder), (["project", "inc"], .folder),
      (["project", "inc", "sales"], .folder), (["project", "inc", "sales", "Views"], .folder)]
    ∃ db project, (Registry.empty.construct viewFolderSchema).1 = .ok () ∧
      (Registry.empty.construct viewFolderSchema).2.database "Shop" = .ok db ∧
      assemble settings tree [] "{1}" db = .ok project ∧ ¬project.folders.Nodup ∧
      project.folders.count "Shop\\sales\\Views\\" = 2 ∧ project.folders.count "Shop\\sales\\" ≤ 2 := by
  intro settings tree
  have hok : (Registry.empty.construct viewFolderSchema).1 = .ok () := by rfl
  obtain ⟨db, hdb⟩ : ∃ db, (Registry.empty.construct viewFolderSchema).2.database "Shop" = .ok db := ⟨_, rfl⟩
  obtain ⟨project, ha⟩ : ∃ project, assemble settings tree [] "{1}" db = .ok project := by
    have hassemble : ((Registry.empty.construct viewFolderSchema).2.database "Shop" >>=
        assemble settings tree [] "{1}").toOption.isSome = true := by
      unfold assemble listFolders addInclude FileTree.foldersBelow
      rw [FileTree.below_eq_insertionSort]
      decide
    rw [hdb, Option.isSome_iff_exists] at hassemble
    obtain ⟨project, ha⟩ := hassemble
    exact ⟨project, toOption_eq_some.1 ha⟩
  obtain ⟨hdistinct, hcount⟩ := folders_distinct_iff hok hdb ha
  have htaken : viewFolderSchema.IsTaken "sales\\Views" :=
    .inr ⟨⟨"sales", "dbo"⟩, by decide, "Views", by decide, rfl⟩
  have hschema : ⟨"sales\\Views", "dbo"⟩ ∈ viewFolderSchema.schemas := by decide
  refine ⟨db, project, hok, hdb, ha, fun hnodup => ?_, (hcount _).2.2 ⟨_, hschema, htaken, rfl⟩, (hcount _).1⟩
  exact hdistinct.1 hnodup _ hschema htaken

/-- A schema with the name of the folder of all schema scripts. -/
def securitySchema : DatabaseDecl :=
  { DatabaseDecl.named "Shop" with schemas := [⟨"Security", "dbo"⟩] }

/-- Its folder is listed a second time. -/
theorem security_schema_listed_twice :
    let settings : Settings := ⟨⟨"/out"⟩, ⟨"/project"⟩, none, ∅⟩
    ∃ db project, (Registry.empty.construct securitySchema).1 = .ok () ∧
      (Registry.empty.construct securitySchema).2.database "Shop" = .ok db ∧
      assemble settings FileTree.empty [] "{1}" db = .ok project ∧
      project.folders = ["Shop\\Security\\", "Shop\\Security\\"] ∧ ¬project.folders.Nodup := by
  intro settings
  exact ⟨_, _, rfl, rfl, rfl, by decide, by decide⟩

end Project

end DatabaseProject
