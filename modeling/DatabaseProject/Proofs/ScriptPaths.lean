import DatabaseProject.Proofs.Precedence
import DatabaseProject.Proofs.Scripts

/-!
# One script for each schema and object

The scripts of a constructed database follow its declaration: one for each schema, then one for each
object, schema by schema. Where all names are single segments, a script of a schema has two fields
and a script of an object three; the last one has the ending of scripts, which no category has, so
that no path leads through another one, whatever the schemas are called.
-/

namespace DatabaseProject

open Outcome

/-- The script that creates a declared schema. -/
def SchemaDecl.WrittenAs (decl : SchemaDecl) (script : ScriptFile) : Prop :=
  script = ⟨Path.join ⟨"Security"⟩ ⟨decl.name ++ ".sql"⟩,
    "CREATE SCHEMA [" ++ decl.name ++ "] AUTHORIZATION " ++ decl.owner ++ ";"⟩

/-- The place of the script of an object. -/
def ObjectKind.scriptPath (kind : ObjectKind) (schema name : String) : Path :=
  (kind.folderPath schema).join ⟨name ++ ".sql"⟩

/-- The script that creates a declared object: a table as it is built, all others as declared. -/
inductive Item.WrittenAs (database : String) (resolve : ColumnResolver) : Item → ScriptFile → Prop
  | table {decl : TableDecl} {table : Table} {content : String}
      (built : Table.build database resolve decl = .ok table) (written : table.script = .ok content) :
      WrittenAs database resolve (.table decl) ⟨ObjectKind.table.scriptPath decl.schema decl.name, content⟩
  | view (decl : ScriptedDecl) : WrittenAs database resolve (.view decl)
      ⟨ObjectKind.view.scriptPath decl.schema decl.name, decl.statement⟩
  | function (decl : ScriptedDecl) : WrittenAs database resolve (.function decl)
      ⟨ObjectKind.function.scriptPath decl.schema decl.name, decl.statement⟩
  | procedure (decl : ScriptedDecl) : WrittenAs database resolve (.procedure decl)
      ⟨ObjectKind.procedure.scriptPath decl.schema decl.name, decl.statement⟩

theorem Item.writtenAs_of_addition {database : String} {resolve : ColumnResolver} {item : Item}
    {object : DatabaseObject} {script : ScriptFile}
    (ha : item.addition database resolve = .ok (.object object)) (hs : object.scriptFile = .ok script) :
    item.WrittenAs database resolve script := by
  obtain ⟨content, hc, he⟩ := bind_eq_ok.1 hs
  cases he
  cases item with
  | schema decl => cases ha
  | table decl =>
    obtain ⟨table, hb, he⟩ := map_eq_ok.1 ha
    cases he
    have href := Table.ref_of_build hb
    have hschema : table.schema = decl.schema := congrArg TableRef.schema href
    have hname : table.name = decl.name := congrArg TableRef.table href
    have hpath : (DatabaseObject.table table).scriptPath =
        ObjectKind.table.scriptPath decl.schema decl.name := by
      rw [← hschema, ← hname]
      rfl
    rw [hpath]
    exact .table hb hc
  | view decl =>
    cases ha
    cases hc
    exact .view decl
  | function decl =>
    cases ha
    cases hc
    exact .function decl
  | procedure decl =>
    cases ha
    cases hc
    exact .procedure decl

theorem Schema.Holds.writtenAs {database : String} {resolve : ColumnResolver} {decl : SchemaDecl}
    {items : List Item} {schema : Schema} (h : schema.Holds database resolve decl items) :
    decl.WrittenAs schema.scriptFile := by
  rw [h.settings]
  rfl

/-- What a schema holds are the items, one object for each. -/
theorem Schema.Holds.additions {database : String} {resolve : ColumnResolver} {decl : SchemaDecl}
    {items : List Item} {schema : Schema} (h : schema.Holds database resolve decl items) :
    List.Forall₂ (fun item object => item.addition database resolve = .ok (.object object))
      items schema.objects.values := by
  have heq : List.Forall₂ Eq (items.map (·.addition database resolve))
      (schema.objects.values.map fun object => .ok (.object object)) :=
    List.forall₂_eq_eq_eq ▸ h.objects.symm
  rwa [List.forall₂_map_left_iff, List.forall₂_map_right_iff] at heq

namespace Database

variable {decl : DatabaseDecl} {db : Database} {resolve : ColumnResolver} {scripts : List ScriptFile}

/-- The stored schemas are the declared ones, in order, each with its declared objects. -/
theorem Realises.forall₂_schemas (h : db.Realises resolve decl) : List.Forall₂
    (fun schema stored => stored.Holds decl.name resolve schema (decl.objectsIn schema.name))
    decl.schemas db.schemas.values := by
  have hvalues : db.schemas.values =
      decl.schemas.filterMap fun schema => db.schemas.get? schema.name := by
    rw [OrderedMap.values_eq_filterMap, h.names, List.filterMap_map]
    rfl
  rw [hvalues]
  have hall := h.schemas
  generalize decl.schemas = schemas at hall ⊢
  induction schemas with
  | nil => exact .nil
  | cons schema rest ih =>
    rw [List.forall_mem_cons] at hall
    obtain ⟨⟨stored, hget, hholds⟩, hrest⟩ := hall
    rw [List.filterMap_cons, hget]
    exact .cons hholds (ih hrest)

/-- The stored objects are the declared ones, schema by schema. -/
theorem Realises.forall₂_objects (h : db.Realises resolve decl) : List.Forall₂
    (fun item object => item.addition decl.name resolve = .ok (.object object))
    (decl.schemas.flatMap fun schema => decl.objectsIn schema.name) db.objects :=
  List.rel_flatMap h.forall₂_schemas fun _ _ hholds => hholds.additions

/-- A script for each declared schema, and then one for each declared object. -/
theorem Realises.writtenAs (h : db.Realises resolve decl) (hs : db.scripts = .ok scripts) :
    ∃ schemaScripts objectScripts, scripts = schemaScripts ++ objectScripts ∧
      List.Forall₂ SchemaDecl.WrittenAs decl.schemas schemaScripts ∧
      List.Forall₂ (Item.WrittenAs decl.name resolve)
        (decl.schemas.flatMap fun schema => decl.objectsIn schema.name) objectScripts := by
  obtain ⟨objectScripts, ho, he⟩ := bind_eq_ok.1 hs
  cases he
  refine ⟨_, objectScripts, rfl, ?_, ?_⟩
  · rw [List.forall₂_map_right_iff]
    exact h.forall₂_schemas.imp fun _ _ hholds => hholds.writtenAs
  · have hscripts := mapM_eq_ok.1 ho
    have hobjects := h.forall₂_objects
    clear ho hs
    generalize (decl.schemas.flatMap fun schema => decl.objectsIn schema.name) = items at hobjects ⊢
    generalize db.objects = objects at hobjects hscripts
    induction hobjects generalizing objectScripts with
    | nil =>
      cases hscripts
      exact .nil
    | cons hitem _ ih =>
      cases hscripts with
      | cons hscript hrest => exact .cons (Item.writtenAs_of_addition hitem hscript) (ih _ hrest)

/-- The places of the scripts, in order. -/
theorem paths_of_scripts (hs : db.scripts = .ok scripts) : scripts.map (·.path) =
    db.schemas.values.map Schema.scriptPath ++ db.objects.map DatabaseObject.scriptPath := by
  obtain ⟨objectScripts, ho, he⟩ := bind_eq_ok.1 hs
  cases he
  have hobjects : objectScripts.map (·.path) = db.objects.map DatabaseObject.scriptPath := by
    rw [← List.forall₂_eq_eq_eq, List.forall₂_map_left_iff, List.forall₂_map_right_iff]
    exact (mapM_eq_ok.1 ho).flip.imp fun _ _ hscript => path_of_scriptFile hscript
  rw [List.map_append, hobjects, List.map_map]
  rfl

/-- The segments of the paths of all scripts. -/
def scriptParts (db : Database) : List (List String) :=
  db.schemas.values.map Schema.scriptParts ++ db.objects.map DatabaseObject.scriptParts

theorem fields_of_scripts (hschemas : ∀ schema ∈ db.schemas.values, Path.IsSegment schema.name)
    (hobjects : ∀ object ∈ db.objects, Path.IsSegment object.schema ∧ Path.IsSegment object.name)
    (hs : db.scripts = .ok scripts) : scripts.map (·.path.fields) = db.scriptParts := by
  have hfields : scripts.map (·.path.fields) = (scripts.map (·.path)).map Path.fields := by
    rw [List.map_map]
    rfl
  rw [hfields, paths_of_scripts hs, List.map_append, List.map_map, List.map_map, scriptParts]
  congr 1
  · exact List.map_congr_left fun schema hm => Schema.fields_scriptPath (hschemas schema hm)
  · exact List.map_congr_left fun object hm =>
      DatabaseObject.fields_scriptPath (hobjects object hm).1 (hobjects object hm).2

theorem Coherent.nodup_schemas (h : db.Coherent) : db.schemas.values.Nodup := by
  have hkeys : db.schemas.values.map (·.name) = db.schemas.keys := by
    unfold OrderedMap.values OrderedMap.keys
    rw [List.map_map]
    exact List.map_congr_left fun entry he => (h.schemas entry he).1
  apply List.Nodup.of_map (·.name)
  rw [hkeys]
  exact db.schemas.nodup

theorem Coherent.nodup_objects (h : db.Coherent) : db.objects.Nodup := by
  have hcoherent : ∀ schema ∈ db.schemas.values, schema.Coherent := by
    intro schema hm
    obtain ⟨key, he⟩ := OrderedMap.mem_values.1 hm
    exact (h.schemas _ he).2.2
  unfold objects
  rw [List.nodup_flatMap]
  constructor
  · intro schema hm
    have hkeys : schema.objects.values.map (·.name) = schema.objects.keys := by
      unfold OrderedMap.values OrderedMap.keys
      rw [List.map_map]
      exact List.map_congr_left fun entry he => ((hcoherent schema hm).objects entry he).1
    apply List.Nodup.of_map (·.name)
    rw [hkeys]
    exact schema.objects.nodup
  · apply h.nodup_schemas.pairwise_of_forall_ne
    intro schema hm other hm' hne object ho ho'
    obtain ⟨name, he⟩ := OrderedMap.mem_values.1 ho
    obtain ⟨name', he'⟩ := OrderedMap.mem_values.1 ho'
    have hschema := ((hcoherent schema hm).objects _ he).2.1
    have hother := ((hcoherent other hm').objects _ he').2.1
    exact hne (h.schema_unique hm hm' (hschema.symm.trans hother))

theorem Coherent.nodup_scriptParts (h : db.Coherent) : db.scriptParts.Nodup := by
  unfold scriptParts
  rw [List.nodup_append]
  refine ⟨?_, ?_, ?_⟩
  · apply h.nodup_schemas.map_on
    intro schema hm other hm' he
    have hname : schema.name = other.name := by simpa [Schema.scriptParts] using he
    exact h.schema_unique hm hm' hname
  · apply h.nodup_objects.map_on
    intro object hm other hm' he
    have hboth : object.schema = other.schema ∧ object.name = other.name := by
      simp only [DatabaseObject.scriptParts, List.cons.injEq, String.append_left_inj] at he
      exact ⟨he.1, he.2.2.1⟩
    exact h.object_unique hm hm' hboth.1 hboth.2
  · intro parts hp parts' hp' he
    obtain ⟨schema, -, rfl⟩ := List.mem_map.1 hp
    obtain ⟨object, -, rfl⟩ := List.mem_map.1 hp'
    have hlength := congrArg List.length he
    simp [Schema.scriptParts, DatabaseObject.scriptParts] at hlength

end Database

/-- No category of objects is called like a script. -/
theorem ObjectKind.folder_ne_script (kind : ObjectKind) (name : String) : name ++ ".sql" ≠ kind.folder := by
  intro he
  have hlast : (name ++ ".sql").toList.getLast? = some 'l' := by
    rw [String.toList_append, List.getLast?_append]
    rfl
  rw [he] at hlast
  cases kind <;> exact absurd hlast (by decide)

/-- No path of a script leads through another one, also where a schema has the name of the folder of
the schema scripts. -/
theorem Database.eq_of_prefix_scriptParts {db : Database} {parts others : List String}
    (hp : parts ∈ db.scriptParts) (ho : others ∈ db.scriptParts) (h : parts <+: others) :
    parts = others := by
  rcases List.mem_append.1 hp with hp | hp <;> rcases List.mem_append.1 ho with ho | ho
  · obtain ⟨schema, -, rfl⟩ := List.mem_map.1 hp
    obtain ⟨other, -, rfl⟩ := List.mem_map.1 ho
    exact h.eq_of_length rfl
  · obtain ⟨schema, -, rfl⟩ := List.mem_map.1 hp
    obtain ⟨object, -, rfl⟩ := List.mem_map.1 ho
    obtain ⟨-, hsecond⟩ := List.cons_prefix_cons.1 h
    obtain ⟨hfolder, -⟩ := List.cons_prefix_cons.1 hsecond
    exact absurd hfolder (object.kind.folder_ne_script schema.name)
  · obtain ⟨object, -, rfl⟩ := List.mem_map.1 hp
    obtain ⟨schema, -, rfl⟩ := List.mem_map.1 ho
    have hlength := h.length_le
    simp [Schema.scriptParts, DatabaseObject.scriptParts] at hlength
  · obtain ⟨object, -, rfl⟩ := List.mem_map.1 hp
    obtain ⟨other, -, rfl⟩ := List.mem_map.1 ho
    exact h.eq_of_length rfl

/-- A path of two or three segments, which stays below every folder that it is joined to. -/
structure Path.StaysBelow (path : Path) : Prop where
  length_eq : path.fields.length = 2 ∨ path.fields.length = 3
  segments : ∀ part ∈ path.fields, IsSegment part
  below : ∀ folder : Path, (folder.join path).parts = folder.parts ++ path.fields

theorem Path.staysBelow_of_segments {path : Path} (names : List String) {last : String}
    (hf : path.fields = names ++ [last]) (hl : names.length = 1 ∨ names.length = 2)
    (hs : ∀ part ∈ names ++ [last], IsSegment part) : path.StaysBelow := by
  refine ⟨?_, hf ▸ hs, fun folder => ?_⟩
  · rw [hf, List.length_append, List.length_singleton]
    omega
  · rw [(leadsTo_join folder hf hs).parts_eq, hf, List.append_assoc]

theorem Database.staysBelow_of_mem {db : Database} {scripts : List ScriptFile} {script : ScriptFile}
    (hschemas : ∀ schema ∈ db.schemas.values, Path.IsSegment schema.name)
    (hobjects : ∀ object ∈ db.objects, Path.IsSegment object.schema ∧ Path.IsSegment object.name)
    (h : db.scripts = .ok scripts) (hs : script ∈ scripts) : script.path.StaysBelow := by
  have hmem : script.path.fields ∈ db.scriptParts := by
    rw [← fields_of_scripts hschemas hobjects h]
    exact List.mem_map_of_mem hs
  rcases List.mem_append.1 hmem with hm | hm
  · obtain ⟨schema, hm, he⟩ := List.mem_map.1 hm
    apply Path.staysBelow_of_segments ["Security"] he.symm (.inl rfl)
    rw [List.forall_mem_append, List.forall_mem_singleton, List.forall_mem_singleton]
    exact ⟨by decide, isSegment_script (hschemas schema hm).no_separator⟩
  · obtain ⟨object, hm, he⟩ := List.mem_map.1 hm
    obtain ⟨hschema, hname⟩ := hobjects object hm
    apply Path.staysBelow_of_segments [object.schema, object.kind.folder] he.symm (.inr rfl)
    simp only [List.cons_append, List.nil_append, List.forall_mem_cons, List.not_mem_nil,
      false_imp_iff, implies_true, and_true]
    exact ⟨hschema, object.kind.isSegment_folder, isSegment_script hname.no_separator⟩

namespace Registry

variable {registry : Registry} {decl : DatabaseDecl} {db : Database} {scripts : List ScriptFile}

/-- What stands under the name of a constructed database. -/
theorem constructed_of_database (h : (registry.construct decl).1 = .ok ())
    (hdb : (registry.construct decl).2.database decl.name = .ok db) :
    db.Constructed decl ∧ db.Realises (registry.construct decl).2.resolve decl := by
  have hfresh : decl.name ∉ registry.databases.keys :=
    OrderedMap.get?_eq_none.1 (construct_isOk.1 h).1
  rw [construct_fresh hfresh] at h hdb ⊢
  obtain ⟨built, hbuilt⟩ := Entry.addItems_some (.ofDecl decl) decl.name decl.items
  have hfilled := (Database.filled_ofDecl decl).addItems (Prod.ext h hbuilt)
  have hx := Entry.extended_addItems hbuilt
  rw [database_eq, hbuilt, entry_withEntry, if_pos rfl, Option.some_or] at hdb
  obtain rfl : built = db := Except.ok.inj hdb
  rw [List.nil_append] at hfilled
  refine ⟨⟨hx.settings, hfilled⟩, hfilled.realises hx ?_⟩
  intro ref href
  rw [resolve_eq, href, hbuilt, entry_withEntry, if_pos rfl, Option.some_or]

/-- The scripts of a constructed database: one for each schema, then one for each object, schema by
schema, all others than tables as declared. Where the declared names are segments of paths, all paths
stay below the folder of the database, no two are the same and none leads through another. -/
theorem one_script_for_each (h : (registry.construct decl).1 = .ok ())
    (hdb : (registry.construct decl).2.database decl.name = .ok db) (hs : db.scripts = .ok scripts) :
    (scripts.map (·.path) =
        db.schemas.values.map Schema.scriptPath ++ db.objects.map DatabaseObject.scriptPath) ∧
    (∃ schemaScripts objectScripts, scripts = schemaScripts ++ objectScripts ∧
      List.Forall₂ SchemaDecl.WrittenAs decl.schemas schemaScripts ∧
      List.Forall₂ (Item.WrittenAs decl.name (registry.construct decl).2.resolve)
        (decl.schemas.flatMap fun schema => decl.objectsIn schema.name) objectScripts) ∧
    ((∀ item ∈ decl.items, Path.IsSegment item.name) →
      (∀ script ∈ scripts, script.path.StaysBelow) ∧
      (scripts.map (·.path)).Nodup ∧
      scripts.Pairwise fun first second => ¬ first.path.fields <+: second.path.fields ∧
        ¬ second.path.fields <+: first.path.fields) := by
  obtain ⟨hconstructed, hrealises⟩ := constructed_of_database h hdb
  refine ⟨Database.paths_of_scripts hs, hrealises.writtenAs hs, fun hnames => ?_⟩
  obtain ⟨hschemas, hobjects⟩ := hconstructed.names_satisfy Path.IsSegment hnames
  have hfields := Database.fields_of_scripts hschemas hobjects hs
  have hnodup : (scripts.map (·.path.fields)).Nodup := by
    rw [hfields]
    exact hconstructed.coherent.nodup_scriptParts
  refine ⟨fun script hm => Database.staysBelow_of_mem hschemas hobjects hs hm, ?_, ?_⟩
  · have hpaths : scripts.map (·.path.fields) = (scripts.map (·.path)).map Path.fields := by
      rw [List.map_map]
      rfl
    rw [hpaths] at hnodup
    exact hnodup.of_map
  · rw [← List.pairwise_map (R := fun parts others => ¬ parts <+: others ∧ ¬ others <+: parts), hfields]
    apply hconstructed.coherent.nodup_scriptParts.pairwise_of_forall_ne
    intro parts hp others ho hne
    constructor
    · intro hbelow
      exact hne (Database.eq_of_prefix_scriptParts hp ho hbelow)
    · intro hbelow
      exact hne (Database.eq_of_prefix_scriptParts ho hp hbelow).symm

/-- Schemas with the names of the folder of the schema scripts and of a category. -/
theorem security_schema_beside_schema_scripts :
    let decl := { DatabaseDecl.named "Shop" with
      schemas := [⟨"Security", "dbo"⟩, ⟨"Tables", "dbo"⟩]
      tables := [⟨"Tables", "Security", .none, [.plain ⟨"Id", .int32, 0, -1, -1, false⟩], none, [], []⟩]
      views := [⟨"Security", "Tables", "CREATE VIEW [Tables].[Security] AS SELECT 1"⟩]
      procedures := [⟨"Views", "Security", "CREATE PROCEDURE [Security].[Views] AS RETURN"⟩] }
    ∃ db scripts, (empty.construct decl).1 = .ok () ∧
      (empty.construct decl).2.database "Shop" = .ok db ∧ db.scripts = .ok scripts ∧
      (∀ item ∈ decl.items, Path.IsSegment item.name) ∧
      (∃ objectScripts, List.Forall₂ (Item.WrittenAs "Shop" (empty.construct decl).2.resolve)
        (decl.objectsIn "Security" ++ decl.objectsIn "Tables") objectScripts ∧
        objectScripts <:+ scripts) ∧
      scripts.Pairwise fun first second => ¬ first.path.fields <+: second.path.fields ∧
        ¬ second.path.fields <+: first.path.fields := by
  intro decl
  have hok : (empty.construct decl).1 = .ok () := by rfl
  have hnames : ∀ item ∈ decl.items, Path.IsSegment item.name := by decide
  obtain ⟨db, hdb, scripts, hs⟩ : ∃ db, (empty.construct decl).2.database "Shop" = .ok db ∧
      ∃ scripts, db.scripts = .ok scripts := ⟨_, rfl, _, rfl⟩
  obtain ⟨-, ⟨schemaScripts, objectScripts, he, -, hobjects⟩, hpaths⟩ := one_script_for_each hok hdb hs
  exact ⟨db, scripts, hok, hdb, hs, hnames, ⟨objectScripts, hobjects, he ▸ List.suffix_append _ _⟩,
    (hpaths hnames).2.2⟩

end Registry

end DatabaseProject
