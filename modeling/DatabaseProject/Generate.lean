import DatabaseProject.Definition.Reader
import DatabaseProject.Project.Comparison
import DatabaseProject.Project.Descriptor
import DatabaseProject.Registry
import DatabaseProject.Script
import DatabaseProject.Solution

/-!
# Generating solutions

A run reads a definition from a file tree and writes one solution after the other into the tree.
Of a solution all databases are built first; then come project by project its files, and the
solution file last. An error ends the run, and what was written before it stays. Ids come from a
source that is asked once for each.
-/

namespace DatabaseProject

/-- What a run changes: the file tree, and how many ids it has taken. -/
structure RunState where
  tree : FileTree
  issued : Nat

/-- A step of a run; its changes up to an error stay. -/
abbrev Run := ExceptT GenerationError (StateM RunState)

namespace Run

/-- A change of the file tree, which an error leaves as it was. -/
def onTree (change : FileTree → Except GenerationError FileTree) : Run Unit := do
  let state ← get
  let tree ← (change state.tree : Except GenerationError FileTree)
  set { state with tree }

end Run

namespace FileTree

/-- Makes a folder with all folders above it. -/
def makeFolder (tree : FileTree) (path : Path) : Except GenerationError (FileTree × Location) :=
  match tree.makeFolder? path with
  | some made => .ok made
  | none => .error (.unwritable path)

/-- Puts a file into the folder that its path leads to. -/
def storeAt (tree : FileTree) (folder : Location) (path : Path) (content : File) :
    Except GenerationError FileTree :=
  match tree.storeAt? folder path content with
  | some stored => .ok stored
  | none => .error (.unwritable path)

/-- Writes a file, into a folder that is made when it is missing. -/
def write (tree : FileTree) (path : Path) (content : ByteArray) :
    Except GenerationError FileTree := do
  let (made, folder) ← tree.makeFolder (path.parent?.getD ⟨""⟩)
  made.storeAt folder path content

/-- Copies a file, into a folder that is made when it is missing; the copy is read-only when the file
is. A file copied to itself is left empty. -/
def copy (tree : FileTree) (source target : Path) : Except GenerationError FileTree := do
  let (made, folder) ← tree.makeFolder (target.parent?.getD ⟨""⟩)
  if made.isFile source then
    let emptied ← made.storeAt folder target .empty
    emptied.storeAt folder target ((emptied.read? source).getD .empty)
  else throw (.unwritable target)

end FileTree

/-- What a run has made of a solution. -/
structure SolutionOutput where
  name : String
  folder : Path
  projects : List Project
  /-- There is no solution file without projects. -/
  solutionPath : Option Path
  scriptCount : Nat
  deriving DecidableEq, Repr

namespace Generate

variable (settings : Settings) (ids : Nat → String)

/-- Copies what is at a place below one folder to the same place below another; of a folder
nothing is copied, but it must be possible to list it. -/
def copyEntry (source target : Path) (entry : List String × FileEntry) : Run Unit :=
  match entry.2 with
  | .file _ =>
    Run.onTree (·.copy (source.joinAll entry.1) (target.join ⟨"/".intercalate entry.1⟩))
  | .folder =>
    if FileTree.fits (source.joinAll entry.1) then pure () else throw (.unreadable source)

/-- Copies the files of an include below a folder. -/
def copyInclude (target : Path) (path : String) : Run Unit := do
  let tree := (← get).tree
  let (source, location) ← (Project.includeFolder settings tree path :
    Except GenerationError (Path × Location))
  (tree.below location).forM (copyEntry source target)

/-- Copies the files of all includes of a database. -/
def copyIncludes (folder : Path) (db : Database) : Run Unit :=
  db.includes.forM (copyInclude settings (folder.join ⟨db.name⟩))

/-- Where a package file is looked for. -/
def dacpacSource (name : String) : Path := settings.projectFolder.joinAll (Include.segments name)

/-- Copies a package file next to the solution, unless something is there under its name. A path
that ends in a separator leaves no name to copy to. -/
def copyDacpac (folder : Path) (db : Database) (name : String) (tree : FileTree) :
    Except GenerationError FileTree := do
  let source := dacpacSource settings name
  match tree.read? source with
  | none => throw (.missingDacpac source db.name)
  | some content =>
    let target := folder.join ⟨Include.lastSegment name⟩
    if tree.exists? target then return tree
    else if Include.lastSegment name = "" then throw (.unwritable target)
    else do
      let (made, location) ← tree.makeFolder folder
      made.storeAt location target content

/-- The package files that a database depends on. -/
def dacpacs (db : Database) : List String :=
  db.dependencies.filterMap fun d => if d.kind = .dacpac then some d.name else none

/-- Copies all package files that a database depends on. -/
def copyDacpacs (folder : Path) (db : Database) : Run Unit :=
  (dacpacs db).forM fun name => Run.onTree (copyDacpac settings folder db name)

/-- Writes scripts below a folder. -/
def writeScripts (folder : Path) (scripts : List ScriptFile) : Run Unit :=
  scripts.forM fun script => Run.onTree (·.write (folder.join script.path) script.content.toUTF8)

/-- Takes the project of a database, with a new id. -/
def takeProject (previous : List Project) (db : Database) : Run Project := do
  let state ← get
  let project ← (Project.assemble settings state.tree previous (ids state.issued) db :
    Except GenerationError Project)
  set { state with issued := state.issued + 1 }
  return project

/-- Writes the schema comparison of a project, where there is one. -/
def writeComparison (folder : Path) (project : Project) (db : Database) : Run Unit :=
  db.comparison.forM fun options =>
    Run.onTree (·.write (folder.join ⟨project.comparisonFileName⟩)
      (project.comparison options).toUTF8)

/-- Writes everything of one project and counts its scripts. -/
def generateProject (folder : Path) (previous : List Project) (db : Database) :
    Run (Project × Nat) := do
  let project ← takeProject settings ids previous db
  Run.onTree (·.write (folder.join ⟨project.fileName⟩) project.descriptor.toUTF8)
  writeComparison folder project db
  copyIncludes settings folder db
  copyDacpacs settings folder db
  let scripts ← (db.scripts : Except GenerationError (List ScriptFile))
  writeScripts (folder.join ⟨db.name⟩) scripts
  return (project, scripts.length)

/-- Writes the projects of databases behind those already written, and counts all scripts. -/
def generateProjects (folder : Path) (done : List Project × Nat) (dbs : List Database) :
    Run (List Project × Nat) :=
  dbs.foldlM (fun done db => do
    let (project, scripts) ← generateProject settings ids folder done.1 db
    return (done.1 ++ [project], done.2 + scripts)) done

/-- Writes the solution file of projects. -/
def writeSolution (folder : Path) (name : String) (projects : List Project) : Run Path := do
  let guid ← modifyGet fun state => (ids state.issued, { state with issued := state.issued + 1 })
  let solution := Solution.ofProjects name guid projects
  let path := folder.join ⟨solution.fileName⟩
  Run.onTree (·.write path solution.text.toUTF8)
  return path

/-- Generates one solution, in a registry of its own. -/
def generateSolution (decl : SolutionDecl) : Run SolutionOutput := do
  let (result, registry) := Registry.empty.constructAll decl.databases
  (result : Except GenerationError Unit)
  let folder := settings.outputFolder.join ⟨decl.name⟩
  let dbs := registry.databases.values.filter (·.createProject)
  let (projects, scriptCount) ← generateProjects settings ids folder ([], 0) dbs
  let solutionPath ←
    if projects.isEmpty then pure none
    else some <$> writeSolution ids folder decl.name projects
  return ⟨decl.name, folder, projects, solutionPath, scriptCount⟩

/-- The definition in a file, if the file is a definition document. -/
def readDefinition (path : Path) (tree : FileTree) : Except GenerationError (Option Definition) :=
  match (tree.read? path).bind (String.fromUTF8? ·.bytes) with
  | none => .error (.unreadableDefinition path)
  | some text =>
    match Xml.Document.root? text with
    | none => .error (.malformedDefinition path)
    | some root => (Definition.ofElement root).mapError .invalidDefinition

/-- Generates all solutions of the definition in a file. -/
def generate (path : Path) : Run (List SolutionOutput) := do
  let definition ← (readDefinition path (← get).tree : Except GenerationError (Option Definition))
  match definition with
  | none => return []
  | some definition => definition.solutions.mapM (generateSolution settings ids)

end Generate

end DatabaseProject
