import DatabaseProject.Registry
import DatabaseProject.Proofs.Table

/-!
# Calls on the registry, one entry at a time

Every call carries a declaration, and only touches the database that the declaration names. An
`Entry` is what is registered under one name; a call on the registry is the same call on that
entry, with all other entries left alone.
-/

namespace DatabaseProject

open Outcome

/-- A declaration of a name and nothing else. -/
def DatabaseDecl.named (name : String) : DatabaseDecl :=
  ⟨name, true, default, default, false, [], [], none, [], [], [], [], []⟩

/-- What an item adds to its database, once it is built. -/
inductive Addition where
  | schema (decl : SchemaDecl)
  | object (object : DatabaseObject)

/-- Builds what an item adds. Only tables can fail here. -/
def Item.addition (database : String) (resolve : ColumnResolver) :
    Item → Except GenerationError Addition
  | .schema decl => .ok (.schema decl)
  | .table decl => (Table.build database resolve decl).map fun table => .object (.table table)
  | .view decl => .ok (.object (.view (.ofDecl database decl)))
  | .function decl => .ok (.object (.function (.ofDecl database decl)))
  | .procedure decl => .ok (.object (.procedure (.ofDecl database decl)))

theorem Item.addition_congr {database : String} {resolve other : ColumnResolver} {item : Item}
    (h : ∀ ref : ColumnRef, ref.table.database = database → resolve ref = other ref) :
    item.addition database resolve = item.addition database other := by
  cases item with
  | table decl => simp only [addition, Table.build_congr h]
  | schema | view | function | procedure => rfl

theorem Item.addition_mono {database : String} {resolve other : ColumnResolver} {item : Item}
    {addition : Addition} (h : ∀ ref found, resolve ref = .ok found → other ref = .ok found)
    (ha : item.addition database resolve = .ok addition) :
    item.addition database other = .ok addition := by
  cases item with
  | table decl =>
    obtain ⟨table, ht, rfl⟩ := map_eq_ok.1 ha
    exact map_eq_ok.2 ⟨table, Table.build_mono h ht, rfl⟩
  | schema | view | function | procedure => exact ha

namespace Database

def add (db : Database) : Addition → Except GenerationError Database
  | .schema decl => db.addSchema decl
  | .object object => db.addObject object

/-- The column that a reference names in this database. -/
def column? (db : Database) (ref : ColumnRef) : Option Column := do
  let table ← db.table? ref.table.schema ref.table.table
  table.columns.get? ref.column

end Database

/-- What is registered under one name. -/
abbrev Entry := Option Database

/-- A call on the registry of a run. -/
inductive Call where
  | register (decl : DatabaseDecl)
  | populate (decl : DatabaseDecl)
  | construct (decl : DatabaseDecl)

def Call.decl : Call → DatabaseDecl
  | .register decl => decl
  | .populate decl => decl
  | .construct decl => decl

/-- The database that a call is about. -/
def Call.name (call : Call) : String := call.decl.name

namespace Entry

/-- The columns of the entry's own tables, whatever database a reference names. -/
def resolve (entry : Entry) : ColumnResolver := fun ref =>
  match entry.bind (·.column? ref) with
  | some column => .ok column
  | none => .error (.unknownColumn ref)

def addItem (entry : Entry) (name : String) (item : Item) : Except GenerationError Database := do
  let addition ← item.addition name entry.resolve
  match entry with
  | none => .error (.unknownDatabase name)
  | some db => db.add addition

/-- Adds items until one fails; the entry holds what was added before. -/
def addItems (entry : Entry) (name : String) : List Item → Except GenerationError Unit × Entry
  | [] => (.ok (), entry)
  | item :: rest =>
    match entry.addItem name item with
    | .error e => (.error e, entry)
    | .ok db => addItems (some db) name rest

def register (entry : Entry) (decl : DatabaseDecl) : Except GenerationError Unit × Entry :=
  match entry with
  | some _ => (.error (.duplicateDatabase decl.name), entry)
  | none => (.ok (), some (.ofDecl decl))

def populate (entry : Entry) (decl : DatabaseDecl) : Except GenerationError Unit × Entry :=
  match entry.addItems decl.name decl.items with
  | (.error e, filled) => (.error e, filled)
  | (.ok (), none) => (.error (.unknownDatabase decl.name), none)
  | (.ok (), some db) => (.ok (), some db)

def construct (entry : Entry) (decl : DatabaseDecl) : Except GenerationError Unit × Entry :=
  match entry.register decl with
  | (.error e, registered) => (.error e, registered)
  | (.ok (), registered) => registered.populate decl

def call (entry : Entry) : Call → Except GenerationError Unit × Entry
  | .register decl => entry.register decl
  | .populate decl => entry.populate decl
  | .construct decl => entry.construct decl

variable {name : String} {db : Database} {items : List Item}

theorem resolve_eq_ok {entry : Entry} {ref : ColumnRef} {column : Column} :
    entry.resolve ref = .ok column ↔ ∃ db, entry = some db ∧ db.column? ref = some column := by
  unfold resolve
  rw [← Option.bind_eq_some_iff]
  split
  · rename_i found hf
    simp [hf]
  · rename_i hf
    simp [hf]

/-- What is registered stays registered while items are added. -/
theorem addItems_some (db : Database) (name : String) (items : List Item) :
    ∃ filled, (addItems (some db) name items).2 = some filled := by
  induction items generalizing db with
  | nil => exact ⟨db, rfl⟩
  | cons item rest ih =>
    unfold addItems
    split
    · exact ⟨db, rfl⟩
    · exact ih _

theorem populate_some {decl : DatabaseDecl} :
    populate (some db) decl = addItems (some db) decl.name decl.items := by
  obtain ⟨filled, hf⟩ := addItems_some db decl.name decl.items
  unfold populate
  split
  · rename_i h
    rw [h]
  · rename_i h
    rw [h] at hf
    cases hf
  · rename_i h
    rw [h]

theorem construct_none {decl : DatabaseDecl} : construct none decl =
    addItems (some (.ofDecl decl)) decl.name decl.items := populate_some

theorem call_some (db : Database) (call : Call) :
    ∃ filled, (Entry.call (some db) call).2 = some filled := by
  cases call with
  | register decl => exact ⟨db, rfl⟩
  | populate decl =>
    simp only [call, populate_some]
    exact addItems_some db decl.name decl.items
  | construct decl => exact ⟨db, rfl⟩

end Entry

namespace Registry

variable {registry : Registry} {name other : String}

/-- Answers a call: the outcome, and the registry as it is afterwards, failed or not. -/
def call (registry : Registry) : Call → Except GenerationError Unit × Registry
  | .register decl => registry.register decl
  | .populate decl => registry.populate decl
  | .construct decl => registry.construct decl

/-- The registry behind a sequence of calls; a failed call does not end it. -/
def run (registry : Registry) (calls : List Call) : Registry :=
  calls.foldl (fun registry call => (registry.call call).2) registry

def entry (registry : Registry) (name : String) : Entry := registry.databases.get? name

/-- Puts a database under a name; nothing to put leaves the registry as it is. -/
def withEntry (registry : Registry) (name : String) : Entry → Registry
  | none => registry
  | some db => ⟨registry.databases.put name db⟩

theorem withEntry_self (registry : Registry) (name : String) :
    registry.withEntry name (registry.entry name) = registry := by
  unfold withEntry
  split
  · rfl
  · rename_i db h
    rw [OrderedMap.put_self h]

theorem withEntry_withEntry {first second : Database} :
    (registry.withEntry name (some first)).withEntry name (some second) =
      registry.withEntry name (some second) := by
  simp only [withEntry, OrderedMap.put_put]

theorem entry_withEntry {entry : Entry} : (registry.withEntry name entry).entry other =
    if other = name then entry.or (registry.entry name) else registry.entry other := by
  unfold withEntry Registry.entry
  split
  · simp
    intro h
    rw [h]
  · rw [OrderedMap.get?_put]
    simp

theorem database_eq : registry.database name =
    match registry.entry name with
    | some db => .ok db
    | none => .error (.unknownDatabase name) := rfl

theorem resolve_eq {ref : ColumnRef} :
    registry.resolve ref = (registry.entry ref.table.database).resolve ref := by
  unfold resolve Entry.resolve Database.column? Registry.entry
  rfl

theorem change_eq {change : Database → Except GenerationError Database} :
    registry.change name change =
      match registry.entry name with
      | none => .error (.unknownDatabase name)
      | some db => (change db).map fun changed => registry.withEntry name (some changed) := by
  unfold Registry.change
  rw [database_eq]
  cases he : registry.entry name with
  | none => rfl
  | some db =>
    simp only []
    have hmem : name ∈ registry.databases.keys := OrderedMap.mem_keys_iff_get?.2 ⟨db, he⟩
    cases hc : change db with
    | error e => simp [bind, Except.bind, hc, Except.map]
    | ok changed =>
      simp [bind, Except.bind, hc, Except.map, withEntry, OrderedMap.put_of_mem hmem, pure,
        Except.pure]

theorem addItem_eq {item : Item} : registry.addItem name item =
    ((registry.entry name).addItem name item).map fun db => registry.withEntry name (some db) := by
  have hres : item.addition name registry.resolve = item.addition name (registry.entry name).resolve := by
    apply Item.addition_congr
    intro ref href
    rw [resolve_eq, href]
  have hadd : registry.addItem name item = (do
      let addition ← item.addition name registry.resolve
      registry.change name (·.add addition)) := by
    cases item with
    | table decl =>
      simp only [addItem, Item.addition]
      cases Table.build name registry.resolve decl <;> rfl
    | schema | view | function | procedure => rfl
  rw [hadd, hres]
  unfold Entry.addItem
  cases item.addition name (registry.entry name).resolve with
  | error e => rfl
  | ok addition =>
    simp only [bind, Except.bind, change_eq]
    cases registry.entry name <;> rfl

theorem addItems_eq {items : List Item} : registry.addItems name items =
    (((registry.entry name).addItems name items).1,
      registry.withEntry name ((registry.entry name).addItems name items).2) := by
  induction items generalizing registry with
  | nil => simp only [addItems, Entry.addItems, withEntry_self]
  | cons item rest ih =>
    simp only [addItems, Entry.addItems, addItem_eq]
    cases (registry.entry name).addItem name item with
    | error e => simp only [Except.map, withEntry_self]
    | ok db =>
      obtain ⟨filled, hf⟩ := Entry.addItems_some db name rest
      have he : (registry.withEntry name (some db)).entry name = some db := by
        simp [entry_withEntry]
      simp only [Except.map, ih, he, hf, withEntry_withEntry]

theorem register_eq {decl : DatabaseDecl} : registry.register decl =
    (((registry.entry decl.name).register decl).1,
      registry.withEntry decl.name ((registry.entry decl.name).register decl).2) := by
  unfold register
  split
  · rename_i h
    obtain ⟨db, hdb⟩ := OrderedMap.mem_keys_iff_get?.1 (OrderedMap.add?_eq_none.1 h)
    have he : registry.entry decl.name = some db := hdb
    simp only [he, Entry.register]
    rw [← he, withEntry_self]
  · rename_i databases h
    have he : registry.entry decl.name = none :=
      OrderedMap.get?_eq_none.2 (OrderedMap.add?_eq_some.1 h).1
    simp only [he, Entry.register, withEntry, OrderedMap.put_of_add? h]

theorem populate_eq {decl : DatabaseDecl} : registry.populate decl =
    (((registry.entry decl.name).populate decl).1,
      registry.withEntry decl.name ((registry.entry decl.name).populate decl).2) := by
  unfold populate Entry.populate
  rw [addItems_eq]
  cases hfill : (registry.entry decl.name).addItems decl.name decl.items with
  | mk outcome filled =>
    cases outcome with
    | error e => rfl
    | ok =>
      cases filled with
      | some db => simp [database_eq, entry_withEntry, Except.map]
      | none =>
        have he : registry.entry decl.name = none := by
          cases he : registry.entry decl.name with
          | none => rfl
          | some db =>
            obtain ⟨filled, hf⟩ := Entry.addItems_some db decl.name decl.items
            rw [he] at hfill
            rw [hfill] at hf
            cases hf
        simp [database_eq, entry_withEntry, he, Except.map]

theorem construct_eq {decl : DatabaseDecl} : registry.construct decl =
    (((registry.entry decl.name).construct decl).1,
      registry.withEntry decl.name ((registry.entry decl.name).construct decl).2) := by
  unfold construct Entry.construct
  rw [register_eq]
  cases he : registry.entry decl.name with
  | some db => rfl
  | none =>
    obtain ⟨filled, hf⟩ := Entry.addItems_some (.ofDecl decl) decl.name decl.items
    have hnew : (registry.withEntry decl.name (some (.ofDecl decl))).entry decl.name =
        some (.ofDecl decl) := by simp [entry_withEntry]
    simp only [Entry.register, populate_eq, hnew, Entry.populate_some, hf, withEntry_withEntry]

/-- A call is answered by the entry of its own name. -/
theorem call_eq {call : Call} : registry.call call =
    (((registry.entry call.name).call call).1,
      registry.withEntry call.name ((registry.entry call.name).call call).2) := by
  cases call with
  | register decl => exact register_eq
  | populate decl => exact populate_eq
  | construct decl => exact construct_eq

theorem entry_call (registry : Registry) (call : Call) (other : String) :
    (registry.call call).2.entry other =
      if other = call.name then ((registry.entry call.name).call call).2
      else registry.entry other := by
  rw [call_eq, entry_withEntry]
  split
  · cases he : registry.entry call.name with
    | none => simp
    | some db =>
      obtain ⟨filled, hf⟩ := Entry.call_some db call
      simp [hf]
  · rfl

/-- Calls about one name decide what is registered under it. -/
theorem entry_run {calls : List Call} : (registry.run calls).entry name =
    (calls.filter fun call => call.name = name).foldl (fun entry call => (entry.call call).2)
      (registry.entry name) := by
  unfold run
  induction calls generalizing registry with
  | nil => rfl
  | cons call rest ih =>
    rw [List.foldl_cons, ih, entry_call, List.filter_cons]
    by_cases h : call.name = name
    · simp [h]
    · simp [h, Ne.symm h]

end Registry

end DatabaseProject
