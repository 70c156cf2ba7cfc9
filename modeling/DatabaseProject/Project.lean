import DatabaseProject.Database
import DatabaseProject.FileTree
import DatabaseProject.Include

/-!
# Projects

The build project of a database: its references to other projects and packages, and the folders
that it lists. `Project.assemble` resolves the dependencies of a database in order and then looks
for the folders of its includes; the first fault ends the assembling.
-/

namespace DatabaseProject

/-- What all databases of a run share. -/
structure Settings where
  /-- Solutions are written below this folder. -/
  outputFolder : Path
  /-- Includes and package files are looked for below this folder. -/
  projectFolder : Path
  /-- The edition of the development tools, which the paths of system packages name. -/
  edition : Option String
  packages : PackageFolders

/-- What a project refers to. -/
inductive ProjectReference where
  /-- A package file next to the solution. -/
  | dacpac (fileName : String)
  /-- Another project of the solution. -/
  | project (name guid : String)
  /-- The package of a system database, where the tools keep it. -/
  | system (name hintPath : String)
  deriving DecidableEq, Repr

structure Project where
  name : String
  guid : String
  schemaProvider : String
  warningsAsErrors : Bool
  references : List ProjectReference
  hasComparison : Bool
  folders : List String
  deriving DecidableEq, Repr

namespace Project

/-- The name of the project file. -/
def fileName (project : Project) : String := project.name ++ ".sqlproj"

/-- The pattern that all scripts of the project match. -/
def buildPattern (project : Project) : String := project.name ++ "\\**\\*.sql"

/-- The name of the file of the project's schema comparison. -/
def comparisonFileName (project : Project) : String := project.name ++ ".scmp"

/-- The system databases that a project can refer to. -/
def systemDatabases : List String := ["master", "msdb"]

/-- Where the tools for the server platform are installed. -/
def toolsRoot : String := "C:\\Program Files (x86)\\Microsoft Visual Studio\\2019"

/-- The root of system packages and the folder of their version. -/
def systemPackageRoot (settings : Settings) (db : Database) :
    Except GenerationError (String × String) :=
  match db.platform, settings.edition with
  | .azure, _ => .ok ("$(DacPacRootPath)", "AzureV12")
  | .sqlServer, some edition =>
    .ok (toolsRoot ++ "\\" ++ edition ++ "\\Common7\\IDE", toString db.version.major ++ "0")
  | .sqlServer, none => .error (.missingEdition db.name)

/-- The reference to a system database. -/
def systemReference (settings : Settings) (db : Database) (name : String) :
    Except GenerationError ProjectReference :=
  if systemDatabases.contains name then do
    let (root, version) ← systemPackageRoot settings db
    return .system name (root ++ "\\Extensions\\Microsoft\\SQLDB\\Extensions\\SqlServer\\" ++ version
      ++ "\\SqlSchemas\\" ++ name ++ ".dacpac")
  else .error (.unknownSystemDatabase name db.name)

/-- The reference to the first earlier project of a name. -/
def projectReference (previous : List Project) (db : Database) (name : String) :
    Except GenerationError ProjectReference :=
  match previous.find? (·.name == name) with
  | some project => .ok (.project project.name project.guid)
  | none => .error (.unknownProject name db.name)

/-- The reference that a dependency makes. -/
def reference (settings : Settings) (previous : List Project) (db : Database)
    (dependency : Dependency) : Except GenerationError ProjectReference :=
  match dependency.kind with
  | .dacpac => .ok (.dacpac (Include.lastSegment dependency.name))
  | .database => projectReference previous db dependency.name
  | .system => systemReference settings db dependency.name

/-- A folder as a project lists it. -/
def folderEntry (names : List String) : String := String.join (names.map (· ++ "\\"))

/-- The folders of a schema and of the categories of its objects. -/
def schemaFolders (db : String) (schema : Schema) : List String :=
  folderEntry [db, schema.name]
    :: schema.kinds.map fun kind => folderEntry [db, schema.name, kind.folder]

/-- The folders that scripts are written to. -/
def scriptFolders (db : Database) : List String :=
  folderEntry [db.name, "Security"] :: db.schemas.values.flatMap (schemaFolders db.name)

/-- The folder that an include path names, as a path and as a location. -/
def includeFolder (settings : Settings) (tree : FileTree) (path : String) :
    Except GenerationError (Path × Location) := do
  let folder ← Include.resolve settings.projectFolder settings.packages path
  match tree.locate? folder with
  | some location =>
    if tree.get? location = some .folder then return (folder, location)
    else throw (.missingIncludeFolder folder)
  | none => throw (.missingIncludeFolder folder)

/-- How many levels of folders a project lists of an include. -/
def listedDepth : Nat := 2

/-- What is in a folder below an include can be listed, as far as it has to be. -/
def isListable (folder : Path) (names : List String) : Bool :=
  names.length == listedDepth || FileTree.fits (folder.joinAll names)

/-- Appends what is not in the list yet. -/
def addNew (listed : List String) (folder : String) : List String :=
  if listed.contains folder then listed else listed ++ [folder]

/-- Lists the upper folders of an include below the database. -/
def addInclude (settings : Settings) (tree : FileTree) (db : String) (listed : List String)
    (path : String) : Except GenerationError (List String) := do
  let (folder, location) ← includeFolder settings tree path
  let found := tree.foldersBelow location listedDepth
  if found.all (isListable folder) then
    return (found.map fun names => folderEntry (db :: names)).foldl addNew listed
  else throw (.unreadable folder)

/-- All folders that a project lists. -/
def listFolders (settings : Settings) (tree : FileTree) (db : Database) :
    Except GenerationError (List String) :=
  db.includes.foldlM (addInclude settings tree db.name) (scriptFolders db)

/-- The project of a database, behind the projects assembled before it. -/
def assemble (settings : Settings) (tree : FileTree) (previous : List Project) (guid : String)
    (db : Database) : Except GenerationError Project := do
  let references ← db.dependencies.mapM (reference settings previous db)
  let folders ← listFolders settings tree db
  return {
    name := db.name
    guid
    schemaProvider := db.platform.schemaProvider db.version
    warningsAsErrors := db.warningsAsErrors
    references
    hasComparison := db.comparison.isSome
    folders }

end Project

end DatabaseProject
