import DatabaseProject.Generate
import DatabaseProject.Proofs.Acceptance
import DatabaseProject.Proofs.Isolation
import DatabaseProject.Proofs.Path

/-!
# Places of scripts

When all names of a declaration are single segments of paths, the path of every script leads
downwards only, and no two scripts of a database have one path. What is known of the declaration
is carried over to the databases that a solution constructs from it.
-/

namespace DatabaseProject

open Outcome

/-- The names of a declared database and of everything in it are segments of paths. -/
structure DatabaseDecl.HasSegmentNames (decl : DatabaseDecl) : Prop where
  name : Path.IsSegment decl.name
  items : ∀ item ∈ decl.items, Path.IsSegment item.name

/-- The names of a solution and of everything in it are segments of paths. -/
structure SolutionDecl.HasSegmentNames (decl : SolutionDecl) : Prop where
  name : Path.IsSegment decl.name
  databases : ∀ db ∈ decl.databases, db.HasSegmentNames

structure Database.HasSegmentNames (db : Database) : Prop where
  name : Path.IsSegment db.name
  schemas : ∀ schema ∈ db.schemas.values, Path.IsSegment schema.name
  objects : ∀ object ∈ db.objects, Path.IsSegment object.schema ∧ Path.IsSegment object.name

instance (decl : DatabaseDecl) : Decidable decl.HasSegmentNames :=
  decidable_of_iff (Path.IsSegment decl.name ∧ ∀ item ∈ decl.items, Path.IsSegment item.name)
    ⟨fun h => ⟨h.1, h.2⟩, fun h => ⟨h.name, h.items⟩⟩

instance (decl : SolutionDecl) : Decidable decl.HasSegmentNames :=
  decidable_of_iff (Path.IsSegment decl.name ∧ ∀ db ∈ decl.databases, db.HasSegmentNames)
    ⟨fun h => ⟨h.1, h.2⟩, fun h => ⟨h.name, h.databases⟩⟩

/-- A database that has been constructed from a declaration. -/
structure Database.Constructed (decl : DatabaseDecl) (db : Database) : Prop where
  settings : db = { Database.ofDecl decl with schemas := db.schemas }
  filled : db.Filled decl.name decl.items

namespace Database.Constructed

variable {decl : DatabaseDecl} {db : Database}

theorem name_eq (h : db.Constructed decl) : db.name = decl.name := by
  rw [h.settings]
  rfl

theorem coherent (h : db.Constructed decl) : db.Coherent := h.filled.sound.coherent

/-- What holds of all declared names holds of the names in the database. -/
theorem names_satisfy (h : db.Constructed decl) (Fits : String → Prop)
    (hn : ∀ item ∈ decl.items, Fits item.name) :
    (∀ schema ∈ db.schemas.values, Fits schema.name) ∧
      ∀ object ∈ db.objects, Fits object.schema ∧ Fits object.name := by
  have hschema : ∀ key ∈ db.schemas.keys, Fits key := by
    intro key hk
    rw [h.filled.names, DatabaseDecl.schemaDecls_items] at hk
    obtain ⟨schema, hs, rfl⟩ := List.mem_map.1 hk
    exact hn (.schema schema) (by simp [DatabaseDecl.items, hs])
  refine ⟨fun schema hs => ?_, fun object ho => ?_⟩
  · obtain ⟨key, he⟩ := OrderedMap.mem_values.1 hs
    rw [(h.coherent.schemas _ he).1]
    exact hschema key (OrderedMap.keys_of_mem he)
  · obtain ⟨schema, hs, ho⟩ := List.mem_flatMap.1 ho
    obtain ⟨key, he⟩ := OrderedMap.mem_values.1 hs
    obtain ⟨hkey, -, hcoherent⟩ := h.coherent.schemas _ he
    obtain ⟨name, hobject⟩ := OrderedMap.mem_values.1 ho
    constructor
    · rw [(hcoherent.objects _ hobject).2.1, hkey]
      exact hschema key (OrderedMap.keys_of_mem he)
    · obtain ⟨declared, stored, hget, hholds⟩ := h.filled.schema_of_mem (OrderedMap.keys_of_mem he)
      obtain rfl := OrderedMap.entry_unique (OrderedMap.get?_eq_some.1 hget) he
      have hname : name ∈ stored.objects.keys := OrderedMap.keys_of_mem hobject
      rw [hholds.names] at hname
      obtain ⟨item, hi, rfl⟩ := List.mem_map.1 hname
      rw [(hcoherent.objects _ hobject).1]
      exact hn item (Item.mem_inSchema.1 hi).1

theorem hasSegmentNames (h : db.Constructed decl) (hn : decl.HasSegmentNames) :
    db.HasSegmentNames := by
  obtain ⟨hschemas, hobjects⟩ := h.names_satisfy Path.IsSegment hn.items
  exact ⟨h.name_eq ▸ hn.name, hschemas, hobjects⟩

end Database.Constructed

namespace Registry

variable {registry final : Registry} {decl : DatabaseDecl} {decls : List DatabaseDecl}

theorem constructed_of_construct (h : (registry.construct decl).1 = .ok ()) : ∃ db,
    db.Constructed decl ∧
      (registry.construct decl).2.databases.values = registry.databases.values ++ [db] ∧
      (registry.construct decl).2.databases.keys = registry.databases.keys ++ [decl.name] := by
  have hfresh : decl.name ∉ registry.databases.keys :=
    OrderedMap.get?_eq_none.1 (construct_isOk.1 h).1
  rw [construct_fresh hfresh] at h ⊢
  obtain ⟨db, hdb⟩ := Entry.addItems_some (.ofDecl decl) decl.name decl.items
  refine ⟨db, ⟨(Entry.extended_addItems hdb).settings, ?_⟩, ?_⟩
  · have hfilled := (Database.filled_ofDecl decl).addItems (Prod.ext h hdb)
    rwa [List.nil_append] at hfilled
  · rw [hdb]
    exact ⟨OrderedMap.values_put_of_not_mem hfresh, OrderedMap.keys_put_of_not_mem hfresh⟩

theorem constructed_of_constructAll (h : registry.constructAll decls = (.ok (), final)) : ∃ dbs,
    List.Forall₂ Database.Constructed decls dbs ∧
      final.databases.values = registry.databases.values ++ dbs ∧
      final.databases.keys = registry.databases.keys ++ decls.map (·.name) := by
  induction decls generalizing registry with
  | nil =>
    cases h
    exact ⟨[], .nil, by simp, by simp⟩
  | cons decl rest ih =>
    obtain ⟨hok, hrest⟩ := constructAll_cons_ok h rfl
    obtain ⟨db, hdb, hvalues, hkeys⟩ := constructed_of_construct hok
    obtain ⟨dbs, hdbs, hfinal, hnames⟩ := ih hrest
    refine ⟨db :: dbs, .cons hdb hdbs, ?_, ?_⟩
    · rw [hfinal, hvalues, List.append_assoc, List.singleton_append]
    · rw [hnames, hkeys, List.append_assoc, List.map_cons, List.singleton_append]

end Registry

theorem ObjectKind.isSegment_folder (kind : ObjectKind) : Path.IsSegment kind.folder := by
  cases kind <;> decide

/-- The segments of the path of a schema's script. -/
def Schema.scriptParts (schema : Schema) : List String := ["Security", schema.name ++ ".sql"]

/-- The segments of the path of an object's script. -/
def DatabaseObject.scriptParts (object : DatabaseObject) : List String :=
  [object.schema, object.kind.folder, object.name ++ ".sql"]

theorem isSegment_script {name : String} (h : '/' ∉ name.toList) :
    Path.IsSegment (name ++ ".sql") :=
  .of_ending h (by decide) (by decide)

theorem Schema.fields_scriptPath_of_no_separator {schema : Schema} (h : '/' ∉ schema.name.toList) :
    schema.scriptPath.fields = schema.scriptParts := by
  have hfirst : Path.IsSegment "Security" := by decide
  have hlast := isSegment_script h
  rw [scriptPath, Path.fields_join_of_last [] hfirst.fields_eq hfirst.ne_empty hlast.isAbsolute_eq,
    hfirst.fields_eq, hlast.fields_eq]
  rfl

/-- A schema may be called like a filler or lead upwards: the path is written as it is. -/
theorem DatabaseObject.fields_scriptPath_of_no_separator {object : DatabaseObject}
    (hs : object.schema ≠ "" ∧ '/' ∉ object.schema.toList) (hn : '/' ∉ object.name.toList) :
    object.scriptPath.fields = object.scriptParts := by
  have hkind := object.kind.isSegment_folder
  have hlast := isSegment_script hn
  have hschema := Path.fields_of_no_separator hs.2
  have hfolder : (object.kind.folderPath object.schema).fields = [object.schema, object.kind.folder] := by
    rw [ObjectKind.folderPath, Path.fields_join_of_last [] hschema hs.1 hkind.isAbsolute_eq, hschema,
      hkind.fields_eq]
    rfl
  rw [scriptPath, Path.fields_join_of_last [object.schema] hfolder hkind.ne_empty
    hlast.isAbsolute_eq, hfolder, hlast.fields_eq]
  rfl

theorem Schema.fields_scriptPath {schema : Schema} (h : Path.IsSegment schema.name) :
    schema.scriptPath.fields = schema.scriptParts :=
  fields_scriptPath_of_no_separator h.no_separator

theorem DatabaseObject.fields_scriptPath {object : DatabaseObject}
    (hs : Path.IsSegment object.schema) (hn : Path.IsSegment object.name) :
    object.scriptPath.fields = object.scriptParts :=
  fields_scriptPath_of_no_separator ⟨hs.ne_empty, hs.no_separator⟩ hn.no_separator

namespace Database

variable {db : Database} {scripts : List ScriptFile} {script : ScriptFile}

/-- A script is that of a schema or that of an object. -/
theorem mem_scripts (h : db.scripts = .ok scripts) : script ∈ scripts ↔
    (∃ schema ∈ db.schemas.values, schema.scriptFile = script) ∨
      ∃ object ∈ db.objects, object.scriptFile = .ok script := by
  obtain ⟨objects, ho, hs⟩ := bind_eq_ok.1 h
  cases hs
  rw [List.mem_append, List.mem_map, mem_mapM ho]

theorem path_of_scriptFile {object : DatabaseObject} (h : object.scriptFile = .ok script) :
    script.path = object.scriptPath := by
  obtain ⟨text, -, hs⟩ := bind_eq_ok.1 h
  cases hs
  rfl

/-- The path of a script is made of segments. -/
theorem HasSegmentNames.segments_of_mem (hn : db.HasSegmentNames) (h : db.scripts = .ok scripts)
    (hs : script ∈ scripts) : ∃ names last, script.path.fields = names ++ [last] ∧
      ∀ part ∈ names ++ [last], Path.IsSegment part := by
  rcases (mem_scripts h).1 hs with ⟨schema, hm, rfl⟩ | ⟨object, hm, ho⟩
  · have hname := hn.schemas schema hm
    refine ⟨["Security"], schema.name ++ ".sql", Schema.fields_scriptPath hname, ?_⟩
    rw [List.forall_mem_append, List.forall_mem_singleton, List.forall_mem_singleton]
    exact ⟨by decide, isSegment_script hname.no_separator⟩
  · obtain ⟨hschema, hname⟩ := hn.objects object hm
    refine ⟨[object.schema, object.kind.folder], object.name ++ ".sql", ?_, ?_⟩
    · rw [path_of_scriptFile ho]
      exact DatabaseObject.fields_scriptPath hschema hname
    · simp only [List.cons_append, List.nil_append, List.forall_mem_cons, List.not_mem_nil,
        false_imp_iff, implies_true, and_true]
      exact ⟨hschema, object.kind.isSegment_folder, isSegment_script hname.no_separator⟩

theorem Coherent.schema_unique (h : db.Coherent) {first second : Schema}
    (hf : first ∈ db.schemas.values) (hs : second ∈ db.schemas.values)
    (hn : first.name = second.name) : first = second := by
  obtain ⟨key, hkey⟩ := OrderedMap.mem_values.1 hf
  obtain ⟨other, hother⟩ := OrderedMap.mem_values.1 hs
  obtain rfl : key = other := (h.schemas _ hkey).1.symm.trans (hn.trans (h.schemas _ hother).1)
  exact OrderedMap.entry_unique hkey hother

theorem Coherent.object_unique (h : db.Coherent) {first second : DatabaseObject}
    (hf : first ∈ db.objects) (hs : second ∈ db.objects) (hschema : first.schema = second.schema)
    (hname : first.name = second.name) : first = second := by
  obtain ⟨schema, hm, hf⟩ := List.mem_flatMap.1 hf
  obtain ⟨other, ho, hs⟩ := List.mem_flatMap.1 hs
  obtain ⟨key, hkey⟩ := OrderedMap.mem_values.1 hm
  obtain ⟨key', hkey'⟩ := OrderedMap.mem_values.1 ho
  have hc := (h.schemas _ hkey).2.2
  have hc' := (h.schemas _ hkey').2.2
  obtain ⟨name, hn⟩ := OrderedMap.mem_values.1 hf
  obtain ⟨name', hn'⟩ := OrderedMap.mem_values.1 hs
  obtain rfl : schema = other := by
    apply h.schema_unique hm ho
    rw [← (hc.objects _ hn).2.1, ← (hc'.objects _ hn').2.1, hschema]
  obtain rfl : name = name' := (hc.objects _ hn).1.symm.trans (hname.trans (hc'.objects _ hn').1)
  exact OrderedMap.entry_unique hn hn'

/-- No two scripts of a database have one place. -/
theorem script_unique (hc : db.Coherent) (hn : db.HasSegmentNames) (h : db.scripts = .ok scripts)
    {first second : ScriptFile} (hf : first ∈ scripts) (hs : second ∈ scripts)
    (he : first.path.fields = second.path.fields) : first = second := by
  rcases (mem_scripts h).1 hf with ⟨schema, hm, rfl⟩ | ⟨object, hm, ho⟩ <;>
    rcases (mem_scripts h).1 hs with ⟨other, hm', rfl⟩ | ⟨other, hm', ho'⟩
  · change schema.scriptPath.fields = other.scriptPath.fields at he
    rw [Schema.fields_scriptPath (hn.schemas _ hm), Schema.fields_scriptPath (hn.schemas _ hm')] at he
    have hname : schema.name = other.name := by simpa [Schema.scriptParts] using he
    rw [hc.schema_unique hm hm' hname]
  · change schema.scriptPath.fields = _ at he
    rw [Schema.fields_scriptPath (hn.schemas _ hm), path_of_scriptFile ho',
      DatabaseObject.fields_scriptPath (hn.objects _ hm').1 (hn.objects _ hm').2] at he
    simp [Schema.scriptParts, DatabaseObject.scriptParts] at he
  · change _ = other.scriptPath.fields at he
    rw [Schema.fields_scriptPath (hn.schemas _ hm'), path_of_scriptFile ho,
      DatabaseObject.fields_scriptPath (hn.objects _ hm).1 (hn.objects _ hm).2] at he
    simp [Schema.scriptParts, DatabaseObject.scriptParts] at he
  · rw [path_of_scriptFile ho, path_of_scriptFile ho',
      DatabaseObject.fields_scriptPath (hn.objects _ hm).1 (hn.objects _ hm).2,
      DatabaseObject.fields_scriptPath (hn.objects _ hm').1 (hn.objects _ hm').2] at he
    have hboth : object.schema = other.schema ∧ object.name = other.name := by
      simp only [DatabaseObject.scriptParts, List.cons.injEq, String.append_left_inj] at he
      exact ⟨he.1, he.2.2.1⟩
    rw [hc.object_unique hm hm' hboth.1 hboth.2] at ho
    exact Except.ok.inj (ho.symm.trans ho')

end Database

end DatabaseProject
