import DatabaseProject.Proofs.Coherence

/-!
# Which declarations are accepted, and what they make

A declaration is accepted for what it says alone: names are distinct, schemas are declared, and
tables refer to tables declared before them. A filling follows the items one by one, and after each
of them the database holds exactly the items so far, so that what the resolver finds and what was
declared earlier are the same.
-/

namespace DatabaseProject

open Outcome

namespace TableDecl

/-- The table declares a column under these names. -/
def Offers (decl : TableDecl) (schema table column : String) : Prop :=
  decl.schema = schema ∧ decl.name = table ∧ column ∈ decl.columns.map (·.name)

end TableDecl

/-- A plain column's type is one that the server has; any other column refers to a column of a table
declared earlier. -/
def ColumnDecl.Acceptable (earlier : List TableDecl) : ColumnDecl → Prop
  | .plain decl => (decl.type.sqlType? decl.length decl.precision decl.scale).isSome
  | .foreignKey decl => ∃ target ∈ earlier, target.Offers decl.schema decl.table decl.column
  | .grouped decl => ∃ target ∈ earlier, target.Offers decl.schema decl.table decl.column

/-- What a table declaration must satisfy behind the tables declared earlier. -/
structure TableDecl.Acceptable (earlier : List TableDecl) (decl : TableDecl) : Prop where
  names : (decl.columns.map (·.name)).Nodup
  columns : ∀ column ∈ decl.columns, column.Acceptable earlier
  groups : ∀ first second, .grouped first ∈ decl.columns → .grouped second ∈ decl.columns →
    first.group = second.group → first.schema = second.schema ∧ first.table = second.table
  primaryKey : ∀ key ∈ decl.primaryKey, ∀ name ∈ key.columns, name ∈ decl.columns.map (·.name)
  indexColumns : ∀ index ∈ decl.indexes, ∀ column ∈ index.columns,
    column.name ∈ decl.columns.map (·.name)
  indexIncludes : ∀ index ∈ decl.indexes, ∀ name ∈ index.includes,
    name ∈ decl.columns.map (·.name)

namespace Item

def name : Item → String
  | .schema decl => decl.name
  | .table decl => decl.name
  | .view decl | .function decl | .procedure decl => decl.name

/-- The schema that an object is declared in. -/
def schema? : Item → Option String
  | .schema _ => none
  | .table decl => some decl.schema
  | .view decl | .function decl | .procedure decl => some decl.schema

def schemaDecl? : Item → Option SchemaDecl
  | .schema decl => some decl
  | _ => none

def tableDecl? : Item → Option TableDecl
  | .table decl => some decl
  | _ => none

/-- The items that are objects of a schema. -/
def inSchema (schema : String) (items : List Item) : List Item :=
  items.filter fun item => item.schema? = some schema

end Item

namespace DatabaseDecl

/-- The objects declared for a schema: tables, views, functions, procedures. -/
def objectsIn (decl : DatabaseDecl) (schema : String) : List Item :=
  (decl.tables.filter (·.schema = schema)).map .table
    ++ (decl.views.filter (·.schema = schema)).map .view
    ++ (decl.functions.filter (·.schema = schema)).map .function
    ++ (decl.procedures.filter (·.schema = schema)).map .procedure

/-- What a declaration must satisfy to be constructed where its name is new. -/
structure Acceptable (decl : DatabaseDecl) : Prop where
  schemas : (decl.schemas.map (·.name)).Nodup
  tablePlaces : ∀ table ∈ decl.tables, table.schema ∈ decl.schemas.map (·.name)
  viewPlaces : ∀ view ∈ decl.views, view.schema ∈ decl.schemas.map (·.name)
  functionPlaces : ∀ function ∈ decl.functions, function.schema ∈ decl.schemas.map (·.name)
  procedurePlaces : ∀ procedure ∈ decl.procedures, procedure.schema ∈ decl.schemas.map (·.name)
  objects : ∀ schema, ((decl.objectsIn schema).map (·.name)).Nodup
  tables : ∀ earlier table later, decl.tables = earlier ++ table :: later →
    table.Acceptable earlier

end DatabaseDecl

/-- A schema holds exactly the declared items, in order, each built as declared. -/
structure Schema.Holds (database : String) (resolve : ColumnResolver) (decl : SchemaDecl)
    (items : List Item) (schema : Schema) : Prop where
  settings : schema = { Schema.ofDecl database decl with objects := schema.objects }
  names : schema.objects.keys = items.map (·.name)
  objects : schema.objects.values.map (fun object => .ok (.object object)) =
    items.map (·.addition database resolve)

/-- A database has the declared settings and exactly the declared schemas, in order, each with
exactly its declared objects. -/
structure Database.Realises (resolve : ColumnResolver) (decl : DatabaseDecl) (db : Database) :
    Prop where
  settings : db = { Database.ofDecl decl with schemas := db.schemas }
  names : db.schemas.keys = decl.schemas.map (·.name)
  schemas : ∀ schema ∈ decl.schemas, ∃ built, db.schemas.get? schema.name = some built ∧
    built.Holds decl.name resolve schema (decl.objectsIn schema.name)
  tables : ∀ table ∈ decl.tables, ∃ built, db.table? table.schema table.name = some built ∧
    Table.build decl.name resolve table = .ok built ∧
    built.columns.keys = table.columns.map (·.name)

namespace Table

variable {database : String} {resolve : ColumnResolver} {decl : TableDecl} {earlier : List TableDecl}

theorem column_isOk (ref : TableRef) {column : ColumnDecl}
    (h : ∀ key : ColumnRef, key.table.database = ref.database →
      ((∃ found, resolve key = .ok found) ↔
        ∃ target ∈ earlier, target.Offers key.table.schema key.table.table key.column)) :
    (∃ built, column.column ref resolve = .ok built) ↔ column.Acceptable earlier := by
  have hrefers : ∀ target : ColumnRef, column.target? ref.database = some target →
      ((∃ built, column.column ref resolve = .ok built) ↔ ∃ table ∈ earlier,
        table.Offers target.table.schema target.table.table target.column) := by
    intro target ht
    rw [ColumnDecl.column_of_target ht, ← h target (ColumnDecl.database_of_target? ht)]
    simp [map_eq_ok]
  cases column with
  | plain decl =>
    simp only [ColumnDecl.column, ColumnDecl.ofDecl_eq_ok, ColumnDecl.Acceptable,
      Option.isSome_iff_exists]
    constructor
    · rintro ⟨built, dataType, hd, -⟩
      exact ⟨dataType, hd⟩
    · rintro ⟨dataType, hd⟩
      exact ⟨_, dataType, hd, rfl⟩
  | foreignKey decl => exact hrefers _ rfl
  | grouped decl => exact hrefers _ rfl

theorem groupsAgree_iff {columns : List ColumnDecl} : TableDraft.GroupsAgree database columns ↔
    ∀ first second, .grouped first ∈ columns → .grouped second ∈ columns →
      first.group = second.group → first.schema = second.schema ∧ first.table = second.table := by
  constructor
  · intro h first second hf hs hg
    have ht := h _ hf _ hs second.group _ _ (if_pos hg) (if_pos rfl)
    rw [TableRef.mk.injEq] at ht
    exact ht.2
  · intro h first hf second hs group target target' hb hb'
    cases first with
    | plain | foreignKey => cases hb
    | grouped first =>
      cases second with
      | plain | foreignKey => cases hb'
      | grouped second =>
        obtain ⟨hg, ⟨⟩⟩ := Option.ite_none_right_eq_some.1 hb
        obtain ⟨hg', ⟨⟩⟩ := Option.ite_none_right_eq_some.1 hb'
        obtain ⟨hschema, htable⟩ := h first second hf hs (hg.trans hg'.symm)
        rw [hschema, htable]

/-- Where the resolver finds exactly the columns of the earlier tables, a table is built exactly
when it is acceptable behind them. -/
theorem build_iff_acceptable
    (h : ∀ key : ColumnRef, key.table.database = database →
      ((∃ found, resolve key = .ok found) ↔
        ∃ target ∈ earlier, target.Offers key.table.schema key.table.table key.column)) :
    (∃ table, build database resolve decl = .ok table) ↔ decl.Acceptable earlier := by
  rw [build_isOk, groupsAgree_iff]
  simp only [column_isOk (decl.ref database) h]
  constructor
  · rintro ⟨hcolumns, hnodup, hgroups, hkeys, hindexes⟩
    refine ⟨hnodup, hcolumns, hgroups, hkeys, ?_, ?_⟩
    · intro index hi column hc
      exact hindexes index hi column.name (List.mem_append_left _ (List.mem_map_of_mem hc))
    · intro index hi name hn
      exact hindexes index hi name (List.mem_append_right _ hn)
  · intro ha
    refine ⟨ha.columns, ha.names, ha.groups, ha.primaryKey, ?_⟩
    intro index hi name hn
    rcases List.mem_append.1 hn with hn | hn
    · obtain ⟨column, hc, rfl⟩ := List.mem_map.1 hn
      exact ha.indexColumns index hi column hc
    · exact ha.indexIncludes index hi name hn

end Table

namespace Item

variable {database : String} {resolve other : ColumnResolver} {item : Item} {items : List Item}

/-- What an item must satisfy behind the items before it. -/
structure FitsAfter (before : List Item) (item : Item) : Prop where
  schema : ∀ decl, item.schemaDecl? = some decl →
    decl.name ∉ (before.filterMap schemaDecl?).map (·.name)
  place : ∀ schema, item.schema? = some schema →
    schema ∈ (before.filterMap schemaDecl?).map (·.name) ∧
      item.name ∉ (inSchema schema before).map (·.name)
  table : ∀ decl, item.tableDecl? = some decl → decl.Acceptable (before.filterMap tableDecl?)

/-- An item declares a schema, or an object of one. -/
theorem schema_or_object (item : Item) : (∃ decl, item = .schema decl) ∨
    ∃ schema, item.schema? = some schema ∧ item.schemaDecl? = none := by
  cases item with
  | schema decl => exact .inl ⟨decl, rfl⟩
  | table | view | function | procedure => exact .inr ⟨_, rfl, rfl⟩

theorem mem_schemaDecls {decl : SchemaDecl} :
    decl ∈ items.filterMap schemaDecl? ↔ .schema decl ∈ items := by
  rw [List.mem_filterMap]
  constructor
  · rintro ⟨item, hi, hd⟩
    cases item with
    | schema declared => cases hd; exact hi
    | table | view | function | procedure => cases hd
  · intro hi
    exact ⟨_, hi, rfl⟩

theorem mem_tableDecls {decl : TableDecl} :
    decl ∈ items.filterMap tableDecl? ↔ .table decl ∈ items := by
  rw [List.mem_filterMap]
  constructor
  · rintro ⟨item, hi, hd⟩
    cases item with
    | table declared => cases hd; exact hi
    | schema | view | function | procedure => cases hd
  · intro hi
    exact ⟨_, hi, rfl⟩

theorem mem_inSchema {schema : String} :
    item ∈ inSchema schema items ↔ item ∈ items ∧ item.schema? = some schema := by
  simp [inSchema]

/-- What is declared for a schema is added as an object of that schema, under its name. -/
theorem object_of_addition {schema : String} {addition : Addition} (hs : item.schema? = some schema)
    (h : item.addition database resolve = .ok addition) :
    ∃ object, addition = .object object ∧ object.schema = schema ∧ object.name = item.name := by
  cases item with
  | schema decl => cases hs
  | table decl =>
    obtain ⟨table, hb, rfl⟩ := map_eq_ok.1 h
    have href := Table.ref_of_build hb
    cases hs
    exact ⟨_, rfl, congrArg TableRef.schema href, congrArg TableRef.table href⟩
  | view | function | procedure =>
    cases hs
    cases h
    exact ⟨_, rfl, rfl, rfl⟩

theorem table_of_addition {table : Table}
    (h : item.addition database resolve = .ok (.object (.table table))) :
    ∃ decl, item = .table decl ∧ Table.build database resolve decl = .ok table := by
  cases item with
  | schema | view | function | procedure => cases h
  | table decl =>
    obtain ⟨built, hb, he⟩ := map_eq_ok.1 h
    cases he
    exact ⟨decl, rfl, hb⟩

theorem addition_isOk : (∃ addition, item.addition database resolve = .ok addition) ↔
    ∀ decl, item.tableDecl? = some decl → ∃ table, Table.build database resolve decl = .ok table := by
  cases item with
  | schema | view | function | procedure => exact iff_of_true ⟨_, rfl⟩ (by rintro decl ⟨⟩)
  | table decl => simp [addition, tableDecl?, map_eq_ok]

end Item

namespace Schema.Holds

variable {database : String} {resolve other : ColumnResolver} {decl : SchemaDecl}
  {items : List Item} {item : Item} {schema extended : Schema} {object : DatabaseObject}

theorem ofDecl : (Schema.ofDecl database decl).Holds database resolve decl [] := ⟨rfl, rfl, rfl⟩

theorem add (h : schema.Holds database resolve decl items) (hn : object.name = item.name)
    (ha : item.addition database resolve = .ok (.object object))
    (hadd : schema.add object = .ok extended) :
    extended.Holds database resolve decl (items ++ [item]) := by
  obtain ⟨hnew, rfl⟩ := Schema.add_eq_ok.1 hadd
  constructor
  · rw [h.settings]
  · rw [OrderedMap.keys_put_of_not_mem hnew, h.names, hn, List.map_append, List.map_singleton]
  · rw [OrderedMap.values_put_of_not_mem hnew, List.map_append, h.objects, List.map_append,
      List.map_singleton, List.map_singleton, ha]

/-- An object that is held is one of the items, and every item is held. -/
theorem mem_values (h : schema.Holds database resolve decl items) :
    object ∈ schema.objects.values ↔
      ∃ item ∈ items, item.addition database resolve = .ok (.object object) := by
  rw [← List.mem_map, ← h.objects]
  simp

theorem object_of_mem (h : schema.Holds database resolve decl items) (hi : item ∈ items) :
    ∃ object ∈ schema.objects.values, item.addition database resolve = .ok (.object object) := by
  have hm : item.addition database resolve ∈ items.map (·.addition database resolve) :=
    List.mem_map_of_mem hi
  rw [← h.objects] at hm
  obtain ⟨object, ho, he⟩ := List.mem_map.1 hm
  exact ⟨object, ho, he.symm⟩

/-- What was built with fewer columns to refer to is built alike with more of them. -/
theorem mono (h : schema.Holds database resolve decl items)
    (hm : ∀ ref found, resolve ref = .ok found → other ref = .ok found) :
    schema.Holds database other decl items := by
  refine ⟨h.settings, h.names, ?_⟩
  rw [h.objects]
  apply List.map_congr_left
  intro item hi
  obtain ⟨object, -, ho⟩ := h.object_of_mem hi
  rw [ho, Item.addition_mono hm ho]

theorem congr (h : schema.Holds database resolve decl items)
    (hd : ∀ ref : ColumnRef, ref.table.database = database → resolve ref = other ref) :
    schema.Holds database other decl items := by
  refine ⟨h.settings, h.names, ?_⟩
  rw [h.objects]
  apply List.map_congr_left
  intro item _
  exact Item.addition_congr hd

end Schema.Holds

/-- A database holds exactly the items added so far. -/
structure Database.Filled (name : String) (items : List Item) (db : Database) : Prop where
  sound : db.Sound name
  names : db.schemas.keys = (items.filterMap Item.schemaDecl?).map (·.name)
  schemas : ∀ decl, .schema decl ∈ items → ∃ schema, db.schemas.get? decl.name = some schema ∧
    schema.Holds name (Entry.resolve (some db)) decl (Item.inSchema decl.name items)
  placed : ∀ item ∈ items, ∀ schema, item.schema? = some schema → schema ∈ db.schemas.keys

namespace Database

variable {name : String} {items : List Item} {item : Item} {db extended : Database}
  {schema : String}

theorem filled_ofDecl (decl : DatabaseDecl) : Filled decl.name [] (.ofDecl decl) :=
  ⟨sound_ofDecl decl, rfl, by simp, by simp⟩

theorem Filled.schema_of_mem (h : db.Filled name items) (hk : schema ∈ db.schemas.keys) :
    ∃ decl stored, db.schemas.get? schema = some stored ∧
      stored.Holds name (Entry.resolve (some db)) decl (Item.inSchema schema items) := by
  rw [h.names] at hk
  obtain ⟨decl, hd, rfl⟩ := List.mem_map.1 hk
  obtain ⟨stored, hget, hholds⟩ := h.schemas decl (Item.mem_schemaDecls.1 hd)
  exact ⟨decl, stored, hget, hholds⟩

/-- The tables of the database are the declared ones. -/
theorem Filled.table?_eq_some (h : db.Filled name items) {table : String} {built : Table} :
    db.table? schema table = some built ↔ ∃ decl, .table decl ∈ items ∧ decl.schema = schema ∧
      decl.name = table ∧ Table.build name (Entry.resolve (some db)) decl = .ok built := by
  constructor
  · intro ht
    obtain ⟨stored, hs, ho⟩ := stored_of_table? ht
    obtain ⟨-, -, hname⟩ := h.sound.coherent.names hs ho
    obtain ⟨_, found, hget, hholds⟩ :=
      h.schema_of_mem (OrderedMap.mem_keys_iff_get?.2 ⟨stored, hs⟩)
    rw [hs] at hget
    cases hget
    obtain ⟨item, hi, ha⟩ :=
      hholds.mem_values.1 (OrderedMap.mem_values.2 ⟨_, OrderedMap.get?_eq_some.1 ho⟩)
    obtain ⟨hmem, hschema⟩ := Item.mem_inSchema.1 hi
    obtain ⟨declared, rfl, hb⟩ := Item.table_of_addition ha
    have href := Table.ref_of_build hb
    refine ⟨declared, hmem, Option.some.inj hschema, ?_, hb⟩
    exact (congrArg TableRef.table href).symm.trans hname
  · rintro ⟨decl, hm, rfl, rfl, hb⟩
    obtain ⟨_, stored, hget, hholds⟩ := h.schema_of_mem (h.placed _ hm decl.schema rfl)
    have ha : Item.addition name (Entry.resolve (some db)) (.table decl) =
        .ok (.object (.table built)) := map_eq_ok.2 ⟨built, hb, rfl⟩
    obtain ⟨key, hstored⟩ := OrderedMap.mem_values.1
      (hholds.mem_values.2 ⟨_, Item.mem_inSchema.2 ⟨hm, rfl⟩, ha⟩)
    have hobject := OrderedMap.get?_eq_some.2 hstored
    obtain ⟨-, -, hname⟩ := h.sound.coherent.names hget hobject
    have hkey : decl.name = key := (congrArg TableRef.table (Table.ref_of_build hb)).symm.trans hname
    rw [hkey]
    refine Option.bind_eq_some_iff.2 ⟨stored, hget, ?_⟩
    exact Option.bind_eq_some_iff.2 ⟨_, hobject, rfl⟩

theorem Filled.table_of_mem (h : db.Filled name items) {decl : TableDecl} (hm : .table decl ∈ items) :
    ∃ built, Table.build name (Entry.resolve (some db)) decl = .ok built := by
  obtain ⟨_, stored, -, hholds⟩ := h.schema_of_mem (h.placed _ hm decl.schema rfl)
  obtain ⟨object, -, ha⟩ := hholds.object_of_mem (Item.mem_inSchema.2 ⟨hm, rfl⟩)
  obtain ⟨built, hb, -⟩ := map_eq_ok.1 ha
  exact ⟨built, hb⟩

/-- The resolver finds exactly the columns that the tables so far declare. -/
theorem Filled.resolve_isOk (h : db.Filled name items) {key : ColumnRef} :
    (∃ found, Entry.resolve (some db) key = .ok found) ↔
      ∃ target ∈ items.filterMap Item.tableDecl?,
        target.Offers key.table.schema key.table.table key.column := by
  constructor
  · rintro ⟨found, hr⟩
    obtain ⟨_, ⟨⟩, hc⟩ := Entry.resolve_eq_ok.1 hr
    obtain ⟨built, ht, hcolumn⟩ := Option.bind_eq_some_iff.1 hc
    obtain ⟨decl, hd, hschema, hname, hb⟩ := h.table?_eq_some.1 ht
    refine ⟨decl, Item.mem_tableDecls.2 hd, hschema, hname, ?_⟩
    rw [← Table.keys_of_build hb]
    exact OrderedMap.mem_keys_iff_get?.2 ⟨found, hcolumn⟩
  · rintro ⟨decl, hd, hschema, hname, hcolumn⟩
    have hi := Item.mem_tableDecls.1 hd
    obtain ⟨built, hb⟩ := h.table_of_mem hi
    rw [← Table.keys_of_build hb] at hcolumn
    obtain ⟨found, hfound⟩ := OrderedMap.mem_keys_iff_get?.1 hcolumn
    have ht := h.table?_eq_some.2 ⟨decl, hi, hschema, hname, hb⟩
    exact ⟨found, Entry.resolve_eq_ok.2 ⟨db, rfl, Option.bind_eq_some_iff.2 ⟨built, ht, hfound⟩⟩⟩

theorem Filled.addition_isOk (h : db.Filled name items) :
    (∃ addition, item.addition name (Entry.resolve (some db)) = .ok addition) ↔
      ∀ decl, item.tableDecl? = some decl → decl.Acceptable (items.filterMap Item.tableDecl?) := by
  rw [Item.addition_isOk]
  refine forall_congr' fun decl => imp_congr_right fun _ => ?_
  exact Table.build_iff_acceptable fun key _ => h.resolve_isOk

theorem Filled.addSchema_isOk (h : db.Filled name items) {decl : SchemaDecl} :
    (∃ extended, Entry.addItem (some db) name (.schema decl) = .ok extended) ↔
      Item.FitsAfter items (.schema decl) := by
  simp only [Entry.addItem_some_eq_ok]
  constructor
  · rintro ⟨extended, _, ⟨⟩, hadd⟩
    have hnew := (addSchema_eq_ok.1 hadd).1
    rw [h.names] at hnew
    refine ⟨?_, by rintro schema ⟨⟩, by rintro table ⟨⟩⟩
    rintro _ ⟨⟩
    exact hnew
  · intro hf
    have hnew := hf.schema decl rfl
    rw [← h.names] at hnew
    exact ⟨_, _, rfl, addSchema_eq_ok.2 ⟨hnew, rfl⟩⟩

theorem Filled.addObject_isOk (h : db.Filled name items) (hs : item.schema? = some schema)
    (hdecl : item.schemaDecl? = none) :
    (∃ extended, Entry.addItem (some db) name item = .ok extended) ↔ item.FitsAfter items := by
  simp only [Entry.addItem_some_eq_ok]
  constructor
  · rintro ⟨extended, addition, ha, hadd⟩
    obtain ⟨object, rfl, rfl, hname⟩ := Item.object_of_addition hs ha
    obtain ⟨stored, grown, hget, hgrown, -⟩ := addObject_eq_ok.1 hadd
    have hnew := (Schema.add_eq_ok.1 hgrown).1
    have hk := OrderedMap.mem_keys_iff_get?.2 ⟨stored, hget⟩
    obtain ⟨_, found, hfound, hholds⟩ := h.schema_of_mem hk
    rw [hget] at hfound
    cases hfound
    rw [hholds.names, hname] at hnew
    rw [h.names] at hk
    refine ⟨?_, ?_, h.addition_isOk.1 ⟨_, ha⟩⟩
    · intro decl hd
      rw [hdecl] at hd
      cases hd
    · intro other ho
      rw [hs] at ho
      cases ho
      exact ⟨hk, hnew⟩
  · intro hf
    obtain ⟨hk, hnew⟩ := hf.place schema hs
    obtain ⟨addition, ha⟩ := h.addition_isOk.2 hf.table
    obtain ⟨object, rfl, rfl, hname⟩ := Item.object_of_addition hs ha
    rw [← h.names] at hk
    obtain ⟨_, stored, hget, hholds⟩ := h.schema_of_mem hk
    rw [← hholds.names, ← hname] at hnew
    exact ⟨_, _, ha, addObject_eq_ok.2 ⟨stored, _, hget, Schema.add_eq_ok.2 ⟨hnew, rfl⟩, rfl⟩⟩

/-- An item can be added exactly when it fits behind the items added before. -/
theorem Filled.addItem_isOk (h : db.Filled name items) (item : Item) :
    (∃ extended, Entry.addItem (some db) name item = .ok extended) ↔ item.FitsAfter items := by
  rcases item.schema_or_object with ⟨decl, rfl⟩ | ⟨schema, hs, hdecl⟩
  · exact h.addSchema_isOk
  · exact h.addObject_isOk hs hdecl

theorem Filled.addSchema (h : db.Filled name items) {decl : SchemaDecl}
    (hadd : Entry.addItem (some db) name (.schema decl) = .ok extended) :
    extended.Filled name (items ++ [.schema decl]) := by
  have hsound := sound_addItem h.sound hadd
  obtain ⟨addition, ha, hdb⟩ := Entry.addItem_some_eq_ok.1 hadd
  cases ha
  have hmono := resolve_mono (ExtendedBy.of_add hdb)
  obtain ⟨hnew, rfl⟩ := addSchema_eq_ok.1 hdb
  have hin : ∀ schema, Item.inSchema schema (items ++ [.schema decl]) = Item.inSchema schema items := by
    intro schema
    simp [Item.inSchema, Item.schema?]
  refine ⟨hsound, ?_, ?_, ?_⟩
  · rw [OrderedMap.keys_put_of_not_mem hnew, h.names]
    simp [Item.schemaDecl?]
  · intro declared hd
    rw [hin]
    simp only [OrderedMap.get?_put]
    rcases List.mem_append.1 hd with hd | hd
    · obtain ⟨stored, hget, hholds⟩ := h.schemas declared hd
      have hne : declared.name ≠ decl.name := by
        intro he
        exact hnew (OrderedMap.mem_keys_iff_get?.2 ⟨stored, he ▸ hget⟩)
      exact ⟨stored, by rw [if_neg hne, hget], hholds.mono hmono⟩
    · cases List.mem_singleton.1 hd
      -- Nothing was placed in a schema that was not there.
      have hempty : Item.inSchema decl.name items = [] := by
        rw [List.eq_nil_iff_forall_not_mem]
        intro item hi
        obtain ⟨hm, hs⟩ := Item.mem_inSchema.1 hi
        exact hnew (h.placed item hm decl.name hs)
      rw [hempty, if_pos rfl, h.sound.named]
      exact ⟨_, rfl, .ofDecl⟩
  · intro item hi schema hs
    rw [OrderedMap.mem_keys_put]
    rcases List.mem_append.1 hi with hi | hi
    · exact .inr (h.placed item hi schema hs)
    · cases List.mem_singleton.1 hi
      cases hs

theorem Filled.addObject (h : db.Filled name items) (hs : item.schema? = some schema)
    (hdecl : item.schemaDecl? = none) (hadd : Entry.addItem (some db) name item = .ok extended) :
    extended.Filled name (items ++ [item]) := by
  have hsound := sound_addItem h.sound hadd
  obtain ⟨addition, ha, hdb⟩ := Entry.addItem_some_eq_ok.1 hadd
  obtain ⟨object, rfl, rfl, hname⟩ := Item.object_of_addition hs ha
  -- Objects that stand already are built alike with the grown database to refer to.
  have hmono := resolve_mono (ExtendedBy.of_add hdb)
  obtain ⟨stored, grown, hget, hgrown, rfl⟩ := addObject_eq_ok.1 hdb
  have hk := OrderedMap.mem_keys_iff_get?.2 ⟨stored, hget⟩
  refine ⟨hsound, ?_, ?_, ?_⟩
  · rw [OrderedMap.keys_put_of_mem hk, h.names]
    simp [hdecl]
  · intro decl hd
    have hold : .schema decl ∈ items := by
      rcases List.mem_append.1 hd with hd | hd
      · exact hd
      · cases List.mem_singleton.1 hd
        cases hs
    obtain ⟨found, hfound, hholds⟩ := h.schemas decl hold
    simp only [OrderedMap.get?_put]
    by_cases he : decl.name = object.schema
    · rw [he] at hfound hholds ⊢
      rw [hget] at hfound
      cases hfound
      have hin : Item.inSchema object.schema (items ++ [item]) =
          Item.inSchema object.schema items ++ [item] := by
        simp [Item.inSchema, hs]
      rw [if_pos rfl, hin]
      exact ⟨grown, rfl, (hholds.mono hmono).add hname (Item.addition_mono hmono ha) hgrown⟩
    · have hin : Item.inSchema decl.name (items ++ [item]) = Item.inSchema decl.name items := by
        simp [Item.inSchema, hs, Ne.symm he]
      rw [if_neg he, hin]
      exact ⟨found, hfound, hholds.mono hmono⟩
  · intro other ho key hkey
    rw [OrderedMap.keys_put_of_mem hk]
    rcases List.mem_append.1 ho with ho | ho
    · exact h.placed other ho key hkey
    · cases List.mem_singleton.1 ho
      rw [hs] at hkey
      cases hkey
      exact hk

theorem Filled.addItem (h : db.Filled name items)
    (hadd : Entry.addItem (some db) name item = .ok extended) :
    extended.Filled name (items ++ [item]) := by
  rcases item.schema_or_object with ⟨decl, rfl⟩ | ⟨schema, hs, hdecl⟩
  · exact h.addSchema hadd
  · exact h.addObject hs hdecl hadd

/-- A filling succeeds exactly when each item fits behind those before it. -/
theorem Filled.addItems_isOk {before : List Item} (h : db.Filled name before) :
    (Entry.addItems (some db) name items).1 = .ok () ↔
      EachAfter (fun done item => item.FitsAfter (before ++ done)) items := by
  -- `before` grows along with the database, so that each condition speaks of all earlier items.
  induction items generalizing db before with
  | nil => exact iff_of_true rfl eachAfter_nil
  | cons item rest ih =>
    have hstep := h.addItem_isOk item
    rw [eachAfter_cons, List.append_nil, ← hstep]
    unfold Entry.addItems
    cases hadd : Entry.addItem (some db) name item with
    | error e => simp
    | ok extended =>
      simp only [ih (h.addItem hadd), List.append_assoc, List.singleton_append, Except.ok.injEq,
        exists_eq', true_and]

theorem Filled.addItems {before : List Item} (h : db.Filled name before)
    (hfill : Entry.addItems (some db) name items = (.ok (), some extended)) :
    extended.Filled name (before ++ items) := by
  induction items generalizing db before with
  | nil =>
    cases hfill
    rw [List.append_nil]
    exact h
  | cons item rest ih =>
    unfold Entry.addItems at hfill
    split at hfill
    · cases hfill
    · rename_i grown hadd
      have hrest := ih (h.addItem hadd) hfill
      rw [List.append_assoc, List.singleton_append] at hrest
      exact hrest

end Database

namespace DatabaseDecl

variable {decl : DatabaseDecl}

theorem schemaDecls_items : decl.items.filterMap Item.schemaDecl? = decl.schemas := by
  simp [items, List.filterMap_append, List.filterMap_map, Function.comp_def, Item.schemaDecl?]

theorem tableDecls_items : decl.items.filterMap Item.tableDecl? = decl.tables := by
  simp [items, List.filterMap_append, List.filterMap_map, Function.comp_def, Item.tableDecl?]

theorem inSchema_items (schema : String) : Item.inSchema schema decl.items = decl.objectsIn schema := by
  simp [Item.inSchema, items, objectsIn, List.filter_append, List.filter_map, Function.comp_def,
    Item.schema?]

/-- All schemas come first, so that an object's schema is declared before it if it is declared. -/
theorem placed_iff : EachAfter (fun done item => ∀ schema, item.schema? = some schema →
      schema ∈ (done.filterMap Item.schemaDecl?).map (·.name)) decl.items ↔
    ∀ item ∈ decl.items, ∀ schema, item.schema? = some schema →
      schema ∈ decl.schemas.map (·.name) := by
  constructor
  · intro h item hi schema hs
    obtain ⟨done, rest, he⟩ := List.append_of_mem hi
    have hdone := h done item rest he schema hs
    rw [← schemaDecls_items, he, List.filterMap_append, List.map_append]
    exact List.mem_append_left _ hdone
  · intro h done item rest he schema hs
    have hdeclared := h item (by rw [he]; simp) schema hs
    have hitems := he
    rw [items, List.append_assoc, List.append_assoc, List.append_assoc] at hitems
    rcases List.append_eq_append_iff.1 hitems with ⟨objects, hd, -⟩ | ⟨schemas, hd, hrest⟩
    · rw [hd, List.filterMap_append, List.map_append]
      apply List.mem_append_left
      simpa [List.filterMap_map, Function.comp_def, Item.schemaDecl?] using hdeclared
    · cases schemas with
      | nil =>
        rw [List.append_nil] at hd
        rw [← hd]
        simpa [List.filterMap_map, Function.comp_def, Item.schemaDecl?] using hdeclared
      | cons first schemas =>
        rw [List.cons_append, List.cons.injEq] at hrest
        have hm : first ∈ decl.schemas.map Item.schema := by rw [hd]; simp
        obtain ⟨declared, -, hf⟩ := List.mem_map.1 hm
        rw [hrest.1, ← hf] at hs
        cases hs

theorem schemas_nodup_iff : (decl.schemas.map (·.name)).Nodup ↔
    EachAfter (fun done item => ∀ schema, item.schemaDecl? = some schema →
      schema.name ∉ (done.filterMap Item.schemaDecl?).map (·.name)) decl.items := by
  rw [nodup_map_iff_eachAfter, ← schemaDecls_items, eachAfter_filterMap]

theorem objects_nodup_iff (schema : String) : ((decl.objectsIn schema).map (·.name)).Nodup ↔
    EachAfter (fun done item => item.schema? = some schema →
      item.name ∉ (Item.inSchema schema done).map (·.name)) decl.items := by
  rw [nodup_map_iff_eachAfter, ← inSchema_items]
  simp only [Item.inSchema, eachAfter_filter, decide_eq_true_eq]

theorem tables_acceptable_iff : EachAfter TableDecl.Acceptable decl.tables ↔
    EachAfter (fun done item => ∀ table, item.tableDecl? = some table →
      table.Acceptable (done.filterMap Item.tableDecl?)) decl.items := by
  rw [← tableDecls_items, eachAfter_filterMap]

theorem places_iff : (∀ item ∈ decl.items, ∀ schema, item.schema? = some schema →
      schema ∈ decl.schemas.map (·.name)) ↔
    (∀ table ∈ decl.tables, table.schema ∈ decl.schemas.map (·.name)) ∧
      (∀ view ∈ decl.views, view.schema ∈ decl.schemas.map (·.name)) ∧
      (∀ function ∈ decl.functions, function.schema ∈ decl.schemas.map (·.name)) ∧
      ∀ procedure ∈ decl.procedures, procedure.schema ∈ decl.schemas.map (·.name) := by
  simp only [items, List.forall_mem_append, List.forall_mem_map, Item.schema?, Option.some.injEq,
    forall_eq', reduceCtorEq, false_imp_iff, implies_true, true_and, and_assoc]

/-- A declaration is acceptable exactly when each of its items fits behind the items before it. -/
theorem acceptable_iff : decl.Acceptable ↔ EachAfter Item.FitsAfter decl.items := by
  constructor
  · intro h done item rest he
    have hplaces := placed_iff.2 (places_iff.2
      ⟨h.tablePlaces, h.viewPlaces, h.functionPlaces, h.procedurePlaces⟩) done item rest he
    refine ⟨schemas_nodup_iff.1 h.schemas done item rest he, ?_,
      tables_acceptable_iff.1 h.tables done item rest he⟩
    intro schema hs
    exact ⟨hplaces schema hs, (objects_nodup_iff schema).1 (h.objects schema) done item rest he hs⟩
  · intro h
    have hplaces : ∀ item ∈ decl.items, ∀ schema, item.schema? = some schema →
        schema ∈ decl.schemas.map (·.name) := by
      apply placed_iff.1
      intro done item rest he schema hs
      exact ((h done item rest he).place schema hs).1
    obtain ⟨htables, hviews, hfunctions, hprocedures⟩ := places_iff.1 hplaces
    refine ⟨?_, htables, hviews, hfunctions, hprocedures, ?_, ?_⟩
    · apply schemas_nodup_iff.2
      intro done item rest he
      exact (h done item rest he).schema
    · intro schema
      apply (objects_nodup_iff schema).2
      intro done item rest he hs
      exact ((h done item rest he).place schema hs).2
    · apply tables_acceptable_iff.2
      intro done item rest he
      exact (h done item rest he).table

end DatabaseDecl

theorem Database.Filled.realises {decl : DatabaseDecl} {db : Database} {resolve : ColumnResolver}
    (h : db.Filled decl.name decl.items) (hx : (Database.ofDecl decl).ExtendedBy db)
    (hr : ∀ ref : ColumnRef, ref.table.database = decl.name →
      Entry.resolve (some db) ref = resolve ref) : db.Realises resolve decl := by
  refine ⟨hx.settings, ?_, ?_, ?_⟩
  · rw [h.names, DatabaseDecl.schemaDecls_items]
  · intro schema hs
    have hi : Item.schema schema ∈ decl.items := by simp [DatabaseDecl.items, hs]
    obtain ⟨built, hget, hholds⟩ := h.schemas schema hi
    rw [DatabaseDecl.inSchema_items] at hholds
    exact ⟨built, hget, hholds.congr hr⟩
  · intro table ht
    have hi : Item.table table ∈ decl.items := by simp [DatabaseDecl.items, ht]
    obtain ⟨built, hb⟩ := h.table_of_mem hi
    have hfound := h.table?_eq_some.2 ⟨table, hi, rfl, rfl, hb⟩
    exact ⟨built, hfound, (Table.build_congr hr).symm.trans hb, Table.keys_of_build hb⟩

namespace Registry

variable {registry : Registry} {decl : DatabaseDecl}

theorem construct_fresh (h : decl.name ∉ registry.databases.keys) : registry.construct decl =
    ((Entry.addItems (some (.ofDecl decl)) decl.name decl.items).1,
      registry.withEntry decl.name (Entry.addItems (some (.ofDecl decl)) decl.name decl.items).2) := by
  have he : registry.entry decl.name = none := OrderedMap.get?_eq_none.2 h
  rw [construct_eq, he, Entry.construct_none]

/-- A database whose name is new is constructed exactly when its declaration is acceptable. It then
stands behind all others, with exactly what was declared. -/
theorem construct_accepts_exactly (registry : Registry) (decl : DatabaseDecl)
    (h : decl.name ∉ registry.databases.keys) :
    ((registry.construct decl).1 = .ok () ↔ decl.Acceptable) ∧
    ((registry.construct decl).1 = .ok () → ∃ db,
      (registry.construct decl).2.databases.entries =
        registry.databases.entries ++ [(decl.name, db)] ∧
      db.Realises (registry.construct decl).2.resolve decl) := by
  have hstart := Database.filled_ofDecl decl
  rw [construct_fresh h, DatabaseDecl.acceptable_iff]
  constructor
  · exact hstart.addItems_isOk
  · intro hok
    obtain ⟨db, hdb⟩ := Entry.addItems_some (.ofDecl decl) decl.name decl.items
    have hfilled := hstart.addItems (Prod.ext hok hdb)
    have hx := Entry.extended_addItems hdb
    refine ⟨db, ?_, hfilled.realises hx ?_⟩
    · rw [hdb]
      exact OrderedMap.entries_put_of_not_mem h
    · intro ref href
      rw [resolve_eq, href, hdb, entry_withEntry, if_pos rfl, Option.some_or]

/-- Orders that refer to customers declared before them. -/
theorem orders_after_customers_accepted :
    let id : ColumnDecl := .plain ⟨"Id", .int32, -1, -1, -1, false⟩
    let customer : ColumnDecl := .foreignKey ⟨"CustomerId", "dbo", "Customer", "Id", false⟩
    let decl := { DatabaseDecl.named "Shop" with
      schemas := [⟨"dbo", "dbo"⟩]
      tables := [⟨"Customer", "dbo", .none, [id], none, [], []⟩,
        ⟨"Order", "dbo", .none, [id, customer], none, [], []⟩] }
    decl.name ∉ empty.databases.keys ∧ decl.Acceptable ∧ ∃ db,
      (empty.construct decl).2.databases.entries = [("Shop", db)] ∧
        db.Realises (empty.construct decl).2.resolve decl := by
  intro id customer decl
  have hnew : decl.name ∉ empty.databases.keys := by decide
  have hok : (empty.construct decl).1 = .ok () := by rfl
  obtain ⟨haccept, hcontent⟩ := construct_accepts_exactly empty decl hnew
  exact ⟨hnew, haccept.1 hok, hcontent hok⟩

end Registry

end DatabaseProject
