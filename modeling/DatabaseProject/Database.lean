import DatabaseProject.Table

/-!
# Databases

A built database holds schemas, a schema holds objects, both under distinct names in order of
entry. Tables, views, functions and procedures of one schema share one space of names.
-/

namespace DatabaseProject

/-- The category of an object; it decides the folder of its script. -/
inductive ObjectKind where
  | table | view | function | procedure
  deriving DecidableEq, Repr

namespace ObjectKind

/-- The order in which a project lists the folders of a schema. -/
def all : List ObjectKind := [function, procedure, table, view]

def folder : ObjectKind → String
  | function => "Functions"
  | procedure => "Stored Procedures"
  | table => "Tables"
  | view => "Views"

end ObjectKind

/-- A view, function or procedure with its statement as declared. -/
structure ScriptedObject where
  database : String
  schema : String
  name : String
  statement : String
  deriving DecidableEq, Repr

/-- Anything that lives in a schema. -/
inductive DatabaseObject where
  | table (table : Table)
  | view (object : ScriptedObject)
  | function (object : ScriptedObject)
  | procedure (object : ScriptedObject)
  deriving DecidableEq

namespace DatabaseObject

def kind : DatabaseObject → ObjectKind
  | .table _ => .table
  | .view _ => .view
  | .function _ => .function
  | .procedure _ => .procedure

def database : DatabaseObject → String
  | .table t => t.database
  | .view o | .function o | .procedure o => o.database

def schema : DatabaseObject → String
  | .table t => t.schema
  | .view o | .function o | .procedure o => o.schema

def name : DatabaseObject → String
  | .table t => t.name
  | .view o | .function o | .procedure o => o.name

/-- The table, when the object is one. -/
def table? : DatabaseObject → Option Table
  | .table t => some t
  | _ => none

end DatabaseObject

structure Schema where
  database : String
  name : String
  owner : String
  objects : NameMap DatabaseObject
  deriving DecidableEq

namespace Schema

/-- A schema without objects. -/
def ofDecl (database : String) (decl : SchemaDecl) : Schema := ⟨database, decl.name, decl.owner, ∅⟩

/-- Adds an object; its name must be new in the schema. -/
def add (schema : Schema) (object : DatabaseObject) : Except GenerationError Schema :=
  match schema.objects.add? object.name object with
  | none => .error (.duplicateObject schema.database schema.name object.name)
  | some objects => .ok { schema with objects }

def table? (schema : Schema) (name : String) : Option Table :=
  (schema.objects.get? name).bind DatabaseObject.table?

/-- The categories that the schema has objects of, in folder order. -/
def kinds (schema : Schema) : List ObjectKind :=
  ObjectKind.all.filter fun kind => schema.objects.values.any (·.kind == kind)

end Schema

structure Database where
  name : String
  createProject : Bool
  platform : Platform
  version : ServerVersion
  warningsAsErrors : Bool
  dependencies : List Dependency
  includes : List String
  comparison : Option ComparisonOptions
  schemas : NameMap Schema
  deriving DecidableEq

namespace Database

/-- The database of a declaration, before any schema or object is added. -/
def ofDecl (decl : DatabaseDecl) : Database :=
  ⟨decl.name, decl.createProject, decl.platform, decl.version, decl.warningsAsErrors,
    decl.dependencies, decl.includes, decl.comparison, ∅⟩

/-- Adds a schema; its name must be new. -/
def addSchema (db : Database) (decl : SchemaDecl) : Except GenerationError Database :=
  match db.schemas.add? decl.name (Schema.ofDecl db.name decl) with
  | none => .error (.duplicateSchema db.name decl.name)
  | some schemas => .ok { db with schemas }

/-- Adds an object to its schema, which must be there. -/
def addObject (db : Database) (object : DatabaseObject) : Except GenerationError Database := do
  match db.schemas.get? object.schema with
  | none => throw (.unknownSchema db.name object.schema object.name)
  | some schema =>
    let extended ← schema.add object
    return { db with schemas := db.schemas.update object.schema fun _ => extended }

/-- The table of a schema. -/
def table? (db : Database) (schema table : String) : Option Table :=
  (db.schemas.get? schema).bind (·.table? table)

/-- All objects, schema by schema. -/
def objects (db : Database) : List DatabaseObject :=
  db.schemas.values.flatMap (·.objects.values)

end Database

end DatabaseProject
