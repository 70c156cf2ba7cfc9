import DatabaseProject.Database

/-!
# The registry of a run

All databases of a run, in order of registration. A database is registered empty and then filled
item by item: schemas, tables, views, functions, procedures. The first item that fails ends the
filling, and what was added before it stays.
-/

namespace DatabaseProject

/-- One thing that a database declaration adds to its database. -/
inductive Item where
  | schema (decl : SchemaDecl)
  | table (decl : TableDecl)
  | view (decl : ScriptedDecl)
  | function (decl : ScriptedDecl)
  | procedure (decl : ScriptedDecl)
  deriving DecidableEq

/-- What a declaration adds, in the order in which it is added. -/
def DatabaseDecl.items (decl : DatabaseDecl) : List Item :=
  decl.schemas.map .schema ++ decl.tables.map .table ++ decl.views.map .view
    ++ decl.functions.map .function ++ decl.procedures.map .procedure

/-- The object of a scripted declaration. -/
def ScriptedObject.ofDecl (database : String) (decl : ScriptedDecl) : ScriptedObject :=
  ⟨database, decl.schema, decl.name, decl.statement⟩

/-- Databases by name, in order of registration. -/
structure Registry where
  databases : NameMap Database
  deriving DecidableEq

namespace Registry

def empty : Registry := ⟨∅⟩

/-- The database of a name. -/
def database (registry : Registry) (name : String) : Except GenerationError Database :=
  match registry.databases.get? name with
  | some db => .ok db
  | none => .error (.unknownDatabase name)

/-- The column that a reference names, in whatever has been built so far. -/
def resolve (registry : Registry) : ColumnResolver := fun ref =>
  let found := do
    let db ← registry.databases.get? ref.table.database
    let table ← db.table? ref.table.schema ref.table.table
    table.columns.get? ref.column
  match found with
  | some column => .ok column
  | none => .error (.unknownColumn ref)

/-- Replaces the database of a name by what a change makes of it. -/
def change (registry : Registry) (name : String)
    (change : Database → Except GenerationError Database) : Except GenerationError Registry := do
  let changed ← registry.database name >>= change
  return ⟨registry.databases.update name fun _ => changed⟩

/-- Adds one item to the database of a name. -/
def addItem (registry : Registry) (name : String) : Item → Except GenerationError Registry
  | .schema decl => registry.change name (·.addSchema decl)
  | .table decl => do
    let table ← Table.build name registry.resolve decl
    registry.change name (·.addObject (.table table))
  | .view decl => registry.change name (·.addObject (.view (.ofDecl name decl)))
  | .function decl => registry.change name (·.addObject (.function (.ofDecl name decl)))
  | .procedure decl => registry.change name (·.addObject (.procedure (.ofDecl name decl)))

/-- Adds items until one fails; the registry holds what was added before. -/
def addItems (registry : Registry) (name : String) :
    List Item → Except GenerationError Unit × Registry
  | [] => (.ok (), registry)
  | item :: rest =>
    match registry.addItem name item with
    | .error e => (.error e, registry)
    | .ok extended => extended.addItems name rest

/-- Registers the database of a declaration, still empty; its name must be new. -/
def register (registry : Registry) (decl : DatabaseDecl) :
    Except GenerationError Unit × Registry :=
  match registry.databases.add? decl.name (.ofDecl decl) with
  | none => (.error (.duplicateDatabase decl.name), registry)
  | some databases => (.ok (), ⟨databases⟩)

/-- Fills the registered database of a declaration with the declared items. -/
def populate (registry : Registry) (decl : DatabaseDecl) :
    Except GenerationError Unit × Registry :=
  match registry.addItems decl.name decl.items with
  | (.error e, extended) => (.error e, extended)
  | (.ok (), extended) => ((extended.database decl.name).map fun _ => (), extended)

/-- Registers and fills the database of a declaration. -/
def construct (registry : Registry) (decl : DatabaseDecl) :
    Except GenerationError Unit × Registry :=
  match registry.register decl with
  | (.error e, registered) => (.error e, registered)
  | (.ok (), registered) => registered.populate decl

/-- Constructs databases in order, up to the first that fails. -/
def constructAll (registry : Registry) :
    List DatabaseDecl → Except GenerationError Unit × Registry
  | [] => (.ok (), registry)
  | decl :: rest =>
    match registry.construct decl with
    | (.error e, failed) => (.error e, failed)
    | (.ok (), constructed) => constructed.constructAll rest

end Registry

end DatabaseProject
