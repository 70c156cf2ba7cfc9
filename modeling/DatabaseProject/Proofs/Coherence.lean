import DatabaseProject.Proofs.Growth
import Mathlib.Order.WellFounded

/-!
# What every registry of a run satisfies

Everything stands under its own name with the names of its owners; keys and indexes name columns
of their table; foreign keys are aligned with the references of their columns; and references are
closed and acyclic. The last two need more than the registry shows: when a table is added, all
columns that it refers to are there already, so that from each column the references lead to a
column with a type of its own.
-/

namespace DatabaseProject

open Outcome

structure ForeignKey.Coherent (table : Table) (key : ForeignKey) : Prop where
  nonempty : key.columns ≠ []
  length_eq : key.columns.length = key.referencedColumns.length
  owned : ∀ name ∈ key.columns, name ∈ table.columns.keys
  database : key.referencedTable.database = table.database
  aligned : ∀ (k : Nat) (name referenced : String), key.columns[k]? = some name →
    key.referencedColumns[k]? = some referenced → ∃ column, table.columns.get? name = some column ∧
      column.references = some (key.referencedTable.column referenced)

structure Table.Coherent (table : Table) : Prop where
  columns : ∀ entry ∈ table.columns.entries, entry.2.name = entry.1
  primaryKey : ∀ key ∈ table.primaryKey, ∀ name ∈ key.columns, name ∈ table.columns.keys
  indexColumns : ∀ index ∈ table.indexes, ∀ column ∈ index.columns, column.name ∈ table.columns.keys
  indexIncludes : ∀ index ∈ table.indexes, ∀ name ∈ index.includes, name ∈ table.columns.keys
  foreignKeys : ∀ key ∈ table.foreignKeys, key.Coherent table

structure Schema.Coherent (schema : Schema) : Prop where
  objects : ∀ entry ∈ schema.objects.entries, entry.2.name = entry.1 ∧
    entry.2.schema = schema.name ∧ entry.2.database = schema.database
  tables : ∀ entry ∈ schema.objects.entries, ∀ table, entry.2 = .table table → table.Coherent

structure Database.Coherent (db : Database) : Prop where
  schemas : ∀ entry ∈ db.schemas.entries, entry.2.name = entry.1 ∧ entry.2.database = db.name ∧
    entry.2.Coherent

def Database.tables (db : Database) : List Table := db.objects.filterMap DatabaseObject.table?

def Registry.tables (registry : Registry) : List Table := registry.databases.values.flatMap (·.tables)

/-- The type of a column, in all its parts. -/
def Column.SameType (first second : Column) : Prop :=
  first.dataType = second.dataType ∧ first.length = second.length ∧
    first.precision = second.precision ∧ first.scale = second.scale

/-- One step along the references of stored columns. -/
def Registry.Refers (registry : Registry) (key target : ColumnRef) : Prop :=
  ∃ column, registry.resolve key = .ok column ∧ column.references = some target

structure Registry.Coherent (registry : Registry) : Prop where
  databases : ∀ entry ∈ registry.databases.entries, entry.2.name = entry.1 ∧ entry.2.Coherent
  foreignKeys : ∀ table ∈ registry.tables, ∀ key ∈ table.foreignKeys,
    ∃ referenced ∈ registry.tables, referenced.ref = key.referencedTable
  references : ∀ table ∈ registry.tables, ∀ column ∈ table.columns.values, ∀ key,
    column.references = some key →
      ∃ referenced, registry.resolve key = .ok referenced ∧ column.SameType referenced
  acyclic : WellFounded fun target key => registry.Refers key target

/-- From a column the references lead to a column with a type of its own, within one database. -/
inductive Grounded (resolve : ColumnResolver) : ColumnRef → Prop where
  | plain {ref : ColumnRef} {column : Column} (found : resolve ref = .ok column)
      (own : column.references = none) : Grounded resolve ref
  | next {ref target : ColumnRef} {column referenced : Column} (found : resolve ref = .ok column)
      (refers : column.references = some target)
      (database : target.table.database = ref.table.database)
      (reached : resolve target = .ok referenced) (type : column.SameType referenced)
      (rest : Grounded resolve target) : Grounded resolve ref

namespace Grounded

variable {resolve other : ColumnResolver} {ref target : ColumnRef} {column : Column}

theorem mono (h : Grounded resolve ref)
    (hm : ∀ ref found, resolve ref = .ok found → other ref = .ok found) : Grounded other ref := by
  induction h with
  | plain found own => exact .plain (hm _ _ found) own
  | next found refers database reached type _ ih =>
    exact .next (hm _ _ found) refers database (hm _ _ reached) type ih

/-- Only what resolves within the database of the first column matters. -/
theorem congr (h : Grounded resolve ref)
    (hd : ∀ key : ColumnRef, key.table.database = ref.table.database → resolve key = other key) :
    Grounded other ref := by
  induction h with
  | plain found own => exact .plain ((hd _ rfl).symm.trans found) own
  | next found refers database reached type _ ih =>
    refine .next ((hd _ rfl).symm.trans found) refers database ((hd _ database).symm.trans reached)
      type (ih ?_)
    intro key hk
    exact hd key (hk.trans database)

theorem target_of_references (h : Grounded resolve ref) (hc : resolve ref = .ok column)
    (ht : column.references = some target) :
    ∃ referenced, resolve target = .ok referenced ∧ column.SameType referenced ∧
      Grounded resolve target := by
  cases h with
  | plain found own =>
    rw [hc] at found
    cases found
    rw [ht] at own
    cases own
  | next found refers database reached type rest =>
    rw [hc] at found
    cases found
    rw [ht] at refers
    cases refers
    exact ⟨_, reached, type, rest⟩

theorem acc {registry : Registry} (h : Grounded registry.resolve ref) :
    Acc (fun target key => registry.Refers key target) ref := by
  induction h with
  | plain found own =>
    constructor
    rintro target ⟨column, hc, ht⟩
    rw [found] at hc
    cases hc
    rw [own] at ht
    cases ht
  | next found refers _ _ _ _ ih =>
    constructor
    rintro target ⟨column, hc, ht⟩
    rw [found] at hc
    cases hc
    rw [refers] at ht
    cases ht
    exact ih

end Grounded

theorem ForeignKey.Aligned.coherent {table : Table} {key : ForeignKey}
    (h : key.Aligned table.database table.columns) : key.Coherent table := by
  refine ⟨h.nonempty, h.pairs.length_eq, ?_, h.database, ?_⟩
  · intro name hn
    obtain ⟨k, hk, rfl⟩ := List.getElem_of_mem hn
    obtain ⟨column, hc, -⟩ := h.pairs.get hk (h.pairs.length_eq ▸ hk)
    exact OrderedMap.mem_keys_iff_get?.2 ⟨column, hc⟩
  · intro k name referenced hn hr
    obtain ⟨hk, rfl⟩ := List.getElem?_eq_some_iff.1 hn
    obtain ⟨hk', rfl⟩ := List.getElem?_eq_some_iff.1 hr
    exact h.pairs.get hk hk'

/-- A coherent key has a first column, and what that one refers to. -/
theorem ForeignKey.Coherent.exists_pair {table : Table} {key : ForeignKey} (h : key.Coherent table) :
    ∃ name referenced column, table.columns.get? name = some column ∧
      column.references = some (key.referencedTable.column referenced) := by
  have hpos : 0 < key.columns.length := List.length_pos_iff.2 h.nonempty
  have hpos' : 0 < key.referencedColumns.length := h.length_eq ▸ hpos
  obtain ⟨column, hc, href⟩ := h.aligned 0 key.columns[0] key.referencedColumns[0]
    (List.getElem?_eq_getElem hpos) (List.getElem?_eq_getElem hpos')
  exact ⟨_, _, column, hc, href⟩

theorem Table.coherent_of_build {database : String} {resolve : ColumnResolver} {decl : TableDecl}
    {table : Table} (h : Table.build database resolve decl = .ok table) : table.Coherent := by
  obtain ⟨draft, hd, hkeys, hindexes, rfl⟩ := build_eq_ok.1 h
  have hs := TableDraft.sound_of_columns hd
  constructor
  · exact hs.names
  · intro key hkey
    obtain ⟨declared, hm, rfl⟩ := Option.mem_map.1 hkey
    exact hkeys declared hm
  · intro index hi column hc
    exact hindexes index hi column.name (List.mem_append_left _ (List.mem_map_of_mem hc))
  · intro index hi name hn
    exact hindexes index hi name (List.mem_append_right _ hn)
  · intro key hkey
    obtain ⟨drafted, hm, rfl⟩ := List.mem_map.1 hkey
    exact (hs.keys drafted hm).coherent

/-- What an object of a database must be when it is added. -/
structure DatabaseObject.Fits (database : String) (resolve : ColumnResolver)
    (object : DatabaseObject) : Prop where
  owner : object.database = database
  table : ∀ table, object = .table table → table.Coherent ∧ ∀ column ∈ table.columns.values,
    ∀ target, column.references = some target → target.table.database = database ∧
      ∃ referenced, resolve target = .ok referenced ∧ column.SameType referenced

theorem Item.fits_of_addition {database : String} {resolve : ColumnResolver} {item : Item}
    {object : DatabaseObject} (h : item.addition database resolve = .ok (.object object)) :
    object.Fits database resolve := by
  cases item with
  | schema decl => cases h
  | table decl =>
    obtain ⟨table, hb, he⟩ := map_eq_ok.1 h
    cases he
    obtain ⟨draft, -, -, -, rfl⟩ := Table.build_eq_ok.1 hb
    refine ⟨rfl, ?_⟩
    rintro table ⟨⟩
    refine ⟨Table.coherent_of_build hb, ?_⟩
    intro column hc target ht
    obtain ⟨hdb, referenced, hr, heq⟩ := Table.reference_of_build hb hc ht
    refine ⟨hdb, referenced, hr, ?_⟩
    rw [heq]
    exact ⟨rfl, rfl, rfl, rfl⟩
  | view decl => cases h; exact ⟨rfl, by rintro table ⟨⟩⟩
  | function decl => cases h; exact ⟨rfl, by rintro table ⟨⟩⟩
  | procedure decl => cases h; exact ⟨rfl, by rintro table ⟨⟩⟩

theorem Schema.coherent_add {schema extended : Schema} {object : DatabaseObject}
    (hs : schema.Coherent) (hdb : object.database = schema.database)
    (hschema : object.schema = schema.name)
    (htable : ∀ table, object = .table table → table.Coherent)
    (h : schema.add object = .ok extended) : extended.Coherent := by
  obtain ⟨hn, rfl⟩ := add_eq_ok.1 h
  have he : (schema.objects.put object.name object).entries =
      schema.objects.entries ++ [(object.name, object)] := OrderedMap.entries_put_of_not_mem hn
  constructor
  · intro entry hentry
    rw [he, List.mem_append, List.mem_singleton] at hentry
    rcases hentry with hentry | rfl
    · exact hs.objects entry hentry
    · exact ⟨rfl, hschema, hdb⟩
  · intro entry hentry table ht
    rw [he, List.mem_append, List.mem_singleton] at hentry
    rcases hentry with hentry | rfl
    · exact hs.tables entry hentry table ht
    · exact htable table ht

theorem Schema.table?_of_add {schema extended : Schema} {object : DatabaseObject} {name : String}
    {table : Table} (h : schema.add object = .ok extended) (ht : extended.table? name = some table) :
    schema.table? name = some table ∨ object = .table table ∧ name = object.name := by
  obtain ⟨-, rfl⟩ := add_eq_ok.1 h
  obtain ⟨found, hf, htable⟩ := Option.bind_eq_some_iff.1 ht
  rw [OrderedMap.get?_put] at hf
  split at hf
  · rename_i hname
    cases hf
    cases object with
    | table added =>
      cases htable
      exact .inr ⟨rfl, hname⟩
    | view | function | procedure => cases htable
  · exact .inl (Option.bind_eq_some_iff.2 ⟨found, hf, htable⟩)

namespace Database

variable {db extended : Database} {name : String} {ref : ColumnRef} {column : Column}

/-- A table is found behind an addition if it was before, or if it is what was added. -/
theorem table?_of_addObject {object : DatabaseObject} {schema : String} {table : Table}
    (h : db.addObject object = .ok extended) (ht : extended.table? schema name = some table) :
    db.table? schema name = some table ∨
      object = .table table ∧ schema = object.schema ∧ name = object.name := by
  obtain ⟨stored, grown, hs, hadd, rfl⟩ := addObject_eq_ok.1 h
  obtain ⟨found, hf, htable⟩ := Option.bind_eq_some_iff.1 ht
  rw [OrderedMap.get?_put] at hf
  split at hf
  · rename_i hschema
    cases hf
    rcases Schema.table?_of_add hadd htable with hold | ⟨hobject, hname⟩
    · rw [← hschema] at hs
      exact .inl (Option.bind_eq_some_iff.2 ⟨stored, hs, hold⟩)
    · exact .inr ⟨hobject, hschema, hname⟩
  · exact .inl (Option.bind_eq_some_iff.2 ⟨found, hf, htable⟩)

theorem column?_of_addObject {object : DatabaseObject} (h : db.addObject object = .ok extended)
    (hc : extended.column? ref = some column) : db.column? ref = some column ∨
      ∃ table, object = .table table ∧ table.columns.get? ref.column = some column := by
  obtain ⟨table, ht, hcolumn⟩ := Option.bind_eq_some_iff.1 hc
  rcases table?_of_addObject h ht with hold | ⟨hobject, -, -⟩
  · exact .inl (Option.bind_eq_some_iff.2 ⟨table, hold, hcolumn⟩)
  · exact .inr ⟨table, hobject, hcolumn⟩

theorem column?_of_addSchema {decl : SchemaDecl} (h : db.addSchema decl = .ok extended)
    (hc : extended.column? ref = some column) : db.column? ref = some column := by
  obtain ⟨hn, rfl⟩ := addSchema_eq_ok.1 h
  obtain ⟨table, ht, hcolumn⟩ := Option.bind_eq_some_iff.1 hc
  obtain ⟨found, hf, htable⟩ := Option.bind_eq_some_iff.1 ht
  rw [OrderedMap.get?_put] at hf
  split at hf
  · cases hf
    cases htable
  · have hdb : db.table? ref.table.schema ref.table.table = some table :=
      Option.bind_eq_some_iff.2 ⟨found, hf, htable⟩
    exact Option.bind_eq_some_iff.2 ⟨table, hdb, hcolumn⟩

theorem coherent_addSchema {decl : SchemaDecl} (hs : db.Coherent)
    (h : db.addSchema decl = .ok extended) : extended.Coherent := by
  obtain ⟨-, rfl⟩ := addSchema_eq_ok.1 h
  constructor
  intro entry hentry
  rcases OrderedMap.mem_entries_put.1 hentry with rfl | ⟨-, hentry⟩
  · exact ⟨rfl, rfl, ⟨by simp [Schema.ofDecl], by simp [Schema.ofDecl]⟩⟩
  · exact hs.schemas entry hentry

theorem coherent_addObject {object : DatabaseObject} (hs : db.Coherent)
    (hdb : object.database = db.name) (htable : ∀ table, object = .table table → table.Coherent)
    (h : db.addObject object = .ok extended) : extended.Coherent := by
  obtain ⟨schema, grown, hget, hadd, rfl⟩ := addObject_eq_ok.1 h
  obtain ⟨hname, hdatabase, hcoherent⟩ := hs.schemas _ (OrderedMap.get?_eq_some.1 hget)
  constructor
  intro entry hentry
  rcases OrderedMap.mem_entries_put.1 hentry with rfl | ⟨-, hentry⟩
  · have hgrown := Schema.ExtendedBy.of_add hadd
    refine ⟨?_, ?_, ?_⟩
    · rw [hgrown.settings]
      exact hname
    · rw [hgrown.settings]
      exact hdatabase
    · exact Schema.coherent_add hcoherent (hdb.trans hdatabase.symm) hname.symm htable hadd
  · exact hs.schemas entry hentry

/-- What holds of the database registered under a name, at every moment of a run. -/
structure Sound (name : String) (db : Database) : Prop where
  named : db.name = name
  coherent : db.Coherent
  grounded : ∀ (ref : ColumnRef) (column : Column), ref.table.database = name →
    db.column? ref = some column → Grounded (Entry.resolve (some db)) ref

theorem sound_ofDecl (decl : DatabaseDecl) : Sound decl.name (.ofDecl decl) := by
  refine ⟨rfl, ⟨by simp [ofDecl]⟩, ?_⟩
  intro ref column _ hc
  cases hc

theorem resolve_mono (h : db.ExtendedBy extended) (ref : ColumnRef) (found : Column)
    (hr : Entry.resolve (some db) ref = .ok found) : Entry.resolve (some extended) ref = .ok found := by
  obtain ⟨_, ⟨⟩, hc⟩ := Entry.resolve_eq_ok.1 hr
  exact Entry.resolve_eq_ok.2 ⟨extended, rfl, h.column? hc⟩

theorem sound_addItem {item : Item} (hs : db.Sound name)
    (h : Entry.addItem (some db) name item = .ok extended) : extended.Sound name := by
  obtain ⟨addition, ha, hadd⟩ := Entry.addItem_some_eq_ok.1 h
  have hx := ExtendedBy.of_add hadd
  have hname : extended.name = name := by rw [hx.settings]; exact hs.named
  cases addition with
  | schema decl =>
    refine ⟨hname, coherent_addSchema hs.coherent hadd, ?_⟩
    intro ref column hdb hc
    exact (hs.grounded ref column hdb (column?_of_addSchema hadd hc)).mono (resolve_mono hx)
  | object object =>
    have hf := Item.fits_of_addition ha
    have htables : ∀ table, object = .table table → table.Coherent := fun table ht => (hf.table table ht).1
    refine ⟨hname, coherent_addObject hs.coherent (hf.owner.trans hs.named.symm) htables hadd, ?_⟩
    intro ref column hdb hc
    -- A column of the added table refers to what stood before, and that is grounded already.
    rcases column?_of_addObject hadd hc with hold | ⟨table, ht, hcolumn⟩
    · exact (hs.grounded ref column hdb hold).mono (resolve_mono hx)
    · have hfound : Entry.resolve (some extended) ref = .ok column :=
        Entry.resolve_eq_ok.2 ⟨extended, rfl, hc⟩
      have hmem : column ∈ table.columns.values :=
        OrderedMap.mem_values.2 ⟨_, OrderedMap.get?_eq_some.1 hcolumn⟩
      cases href : column.references with
      | none => exact .plain hfound href
      | some target =>
        obtain ⟨htarget, referenced, hr, hsame⟩ := (hf.table table ht).2 column hmem target href
        obtain ⟨_, ⟨⟩, hold⟩ := Entry.resolve_eq_ok.1 hr
        have hg := (hs.grounded target referenced htarget hold).mono (resolve_mono hx)
        exact .next hfound href (htarget.trans hdb.symm) (resolve_mono hx _ _ hr) hsame hg

/-- A table of a database is an object of one of its schemas. -/
theorem mem_tables {table : Table} : table ∈ db.tables ↔ ∃ key schema name,
    db.schemas.get? key = some schema ∧ schema.objects.get? name = some (.table table) := by
  have htable : ∀ object : DatabaseObject, object.table? = some table ↔ object = .table table := by
    intro object
    cases object <;> simp [DatabaseObject.table?]
  simp only [tables, objects, List.mem_filterMap, List.mem_flatMap, htable, OrderedMap.mem_values,
    OrderedMap.get?_eq_some]
  constructor
  · rintro ⟨_, ⟨schema, ⟨key, hs⟩, name, ho⟩, rfl⟩
    exact ⟨key, schema, name, hs, ho⟩
  · rintro ⟨key, schema, name, hs, ho⟩
    exact ⟨_, ⟨schema, ⟨key, hs⟩, name, ho⟩, rfl⟩

/-- What stands in a coherent database carries the names that it stands under. -/
theorem Coherent.names (h : db.Coherent) {key : String} {schema : Schema} {table : Table}
    (hs : db.schemas.get? key = some schema)
    (ho : schema.objects.get? name = some (.table table)) :
    table.database = db.name ∧ table.schema = key ∧ table.name = name := by
  obtain ⟨hkey, hdatabase, hcoherent⟩ := h.schemas _ (OrderedMap.get?_eq_some.1 hs)
  obtain ⟨hname, hschema, howner⟩ := hcoherent.objects _ (OrderedMap.get?_eq_some.1 ho)
  exact ⟨Eq.trans howner hdatabase, Eq.trans hschema hkey, hname⟩

/-- A stored table is found under the names that it carries. -/
theorem table?_of_mem {table : Table} (h : db.Coherent) (ht : table ∈ db.tables) :
    table.database = db.name ∧ db.table? table.schema table.name = some table := by
  obtain ⟨key, schema, name, hs, ho⟩ := mem_tables.1 ht
  obtain ⟨hdatabase, hkey, hname⟩ := h.names hs ho
  refine ⟨hdatabase, Option.bind_eq_some_iff.2 ⟨schema, ?_, ?_⟩⟩
  · rw [hkey, hs]
  · rw [hname]
    exact Option.bind_eq_some_iff.2 ⟨_, ho, rfl⟩

theorem stored_of_table? {schema : String} {table : Table} (ht : db.table? schema name = some table) :
    ∃ stored, db.schemas.get? schema = some stored ∧
      stored.objects.get? name = some (.table table) := by
  obtain ⟨stored, hs, htable⟩ := Option.bind_eq_some_iff.1 ht
  obtain ⟨object, ho, hobject⟩ := Option.bind_eq_some_iff.1 htable
  cases object with
  | table found =>
    cases hobject
    exact ⟨stored, hs, ho⟩
  | view | function | procedure => cases hobject

theorem coherent_of_mem {table : Table} (h : db.Coherent) (ht : table ∈ db.tables) :
    table.Coherent := by
  obtain ⟨key, schema, name, hs, ho⟩ := mem_tables.1 ht
  obtain ⟨-, -, hcoherent⟩ := h.schemas _ (OrderedMap.get?_eq_some.1 hs)
  exact hcoherent.tables _ (OrderedMap.get?_eq_some.1 ho) table rfl

end Database

namespace Entry

variable {name : String} {db filled : Database} {items : List Item}

theorem sound_addItems (hs : db.Sound name) (h : (addItems (some db) name items).2 = some filled) :
    filled.Sound name := by
  induction items generalizing db with
  | nil =>
    cases h
    exact hs
  | cons item rest ih =>
    unfold addItems at h
    split at h
    · cases h
      exact hs
    · rename_i extended hx
      exact ih (Database.sound_addItem hs hx) h

/-- Nothing can be added where nothing is registered. -/
theorem populate_none (decl : DatabaseDecl) : (populate none decl).2 = none := by
  have hadd : (addItems none decl.name decl.items).2 = none := by
    cases decl.items with
    | nil => rfl
    | cons item rest =>
      unfold addItems addItem
      cases item.addition decl.name (resolve none) <;> rfl
  unfold populate
  split
  · rename_i h
    rw [h] at hadd
    exact hadd
  · rfl
  · rename_i h
    rw [h] at hadd
    cases hadd

theorem sound_call {entry : Entry} {call : Call} (hs : ∀ db ∈ entry, db.Sound call.name) :
    ∀ db ∈ (entry.call call).2, db.Sound call.name := by
  intro filled hf
  cases entry with
  | none =>
    cases call with
    | register decl =>
      cases hf
      exact Database.sound_ofDecl decl
    | populate decl =>
      have hnone : (Entry.call none (.populate decl)).2 = none := populate_none decl
      rw [hnone] at hf
      cases hf
    | construct decl =>
      simp only [Entry.call, construct_none] at hf
      exact sound_addItems (Database.sound_ofDecl decl) hf
  | some db =>
    have hdb := hs db rfl
    cases call with
    | register decl =>
      cases hf
      exact hdb
    | populate decl =>
      simp only [Entry.call, populate_some] at hf
      exact sound_addItems hdb hf
    | construct decl =>
      cases hf
      exact hdb

end Entry

namespace Registry

variable {registry : Registry}

theorem sound_call {call : Call} (hs : ∀ name, ∀ db ∈ registry.entry name, db.Sound name) :
    ∀ name, ∀ db ∈ (registry.call call).2.entry name, db.Sound name := by
  intro name
  rw [entry_call]
  split
  · rename_i h
    subst h
    exact Entry.sound_call (hs call.name)
  · exact hs name

theorem sound_run {calls : List Call} (hs : ∀ name, ∀ db ∈ registry.entry name, db.Sound name) :
    ∀ name, ∀ db ∈ (registry.run calls).entry name, db.Sound name := by
  unfold run
  induction calls generalizing registry with
  | nil => exact hs
  | cons call rest ih => exact ih (sound_call hs)

theorem grounded_of_resolve (hs : ∀ name, ∀ db ∈ registry.entry name, db.Sound name)
    {ref : ColumnRef} {column : Column} (hr : registry.resolve ref = .ok column) :
    Grounded registry.resolve ref := by
  rw [resolve_eq] at hr
  obtain ⟨db, hdb, hc⟩ := Entry.resolve_eq_ok.1 hr
  refine ((hs _ db hdb).grounded ref column rfl hc).congr ?_
  intro key hk
  rw [resolve_eq, hk, hdb]

theorem sound_of_mem (hs : ∀ name, ∀ db ∈ registry.entry name, db.Sound name) {db : Database}
    (hm : db ∈ registry.databases.values) : registry.entry db.name = some db ∧ db.Sound db.name := by
  obtain ⟨name, hname⟩ := OrderedMap.mem_values.1 hm
  have hentry : registry.entry name = some db := OrderedMap.get?_eq_some.2 hname
  have hsound := hs name db hentry
  rw [hsound.named]
  exact ⟨hentry, hsound⟩

/-- Every stored column is found under the names that its table carries. -/
theorem resolve_of_mem (hs : ∀ name, ∀ db ∈ registry.entry name, db.Sound name) {table : Table}
    (ht : table ∈ registry.tables) {name : String} {column : Column}
    (hc : table.columns.get? name = some column) :
    registry.resolve (table.ref.column name) = .ok column := by
  obtain ⟨db, hdb, htable⟩ := List.mem_flatMap.1 ht
  obtain ⟨hentry, hsound⟩ := sound_of_mem hs hdb
  obtain ⟨hdatabase, hfound⟩ := Database.table?_of_mem hsound.coherent htable
  rw [resolve_eq]
  refine Entry.resolve_eq_ok.2 ⟨db, ?_, Option.bind_eq_some_iff.2 ⟨table, hfound, hc⟩⟩
  change registry.entry table.database = some db
  rw [hdatabase, hentry]

/-- What is found is a column of a stored table. -/
theorem table_of_resolve (hs : ∀ name, ∀ db ∈ registry.entry name, db.Sound name) {ref : ColumnRef}
    {column : Column} (hr : registry.resolve ref = .ok column) :
    ∃ table ∈ registry.tables, table.ref = ref.table ∧
      table.columns.get? ref.column = some column := by
  rw [resolve_eq] at hr
  obtain ⟨db, hdb, hc⟩ := Entry.resolve_eq_ok.1 hr
  have hsound := hs _ db hdb
  obtain ⟨table, ht, hcolumn⟩ := Option.bind_eq_some_iff.1 hc
  obtain ⟨stored, hs, ho⟩ := Database.stored_of_table? ht
  obtain ⟨hdatabase, hschema, hname⟩ := hsound.coherent.names hs ho
  refine ⟨table, List.mem_flatMap.2 ⟨db, ?_, ?_⟩, ?_, hcolumn⟩
  · exact OrderedMap.mem_values.2 ⟨_, OrderedMap.get?_eq_some.1 hdb⟩
  · exact Database.mem_tables.2 ⟨_, stored, _, hs, ho⟩
  · unfold Table.ref
    rw [hdatabase, hsound.named, hschema, hname]

theorem coherent_of_sound (hs : ∀ name, ∀ db ∈ registry.entry name, db.Sound name) :
    registry.Coherent := by
  constructor
  · intro entry hentry
    have hdb := hs entry.1 entry.2 (OrderedMap.get?_eq_some.2 hentry)
    exact ⟨hdb.named, hdb.coherent⟩
  · intro table ht key hkey
    obtain ⟨db, hdb, htable⟩ := List.mem_flatMap.1 ht
    have hcoherent := Database.coherent_of_mem (sound_of_mem hs hdb).2.coherent htable
    obtain ⟨name, referenced, column, hc, href⟩ := (hcoherent.foreignKeys key hkey).exists_pair
    obtain ⟨target, hr, -, -⟩ :=
      (grounded_of_resolve hs (resolve_of_mem hs ht hc)).target_of_references
        (resolve_of_mem hs ht hc) href
    obtain ⟨found, hm, hfound, -⟩ := table_of_resolve hs hr
    exact ⟨found, hm, hfound⟩
  · intro table ht column hc key hkey
    obtain ⟨name, hcolumn⟩ := OrderedMap.mem_values.1 hc
    have hresolve := resolve_of_mem hs ht (OrderedMap.get?_eq_some.2 hcolumn)
    obtain ⟨referenced, hr, hsame, -⟩ :=
      (grounded_of_resolve hs hresolve).target_of_references hresolve hkey
    exact ⟨referenced, hr, hsame⟩
  · constructor
    intro key
    cases hr : registry.resolve key with
    | ok column => exact (grounded_of_resolve hs hr).acc
    | error e =>
      constructor
      rintro target ⟨column, hc, -⟩
      rw [hr] at hc
      cases hc

/-- Whatever is called, in whatever order and however often calls fail, the registry is coherent. -/
theorem coherent_run (calls : List Call) : (empty.run calls).Coherent := by
  apply coherent_of_sound
  apply sound_run
  rintro name db ⟨⟩

end Registry

end DatabaseProject
