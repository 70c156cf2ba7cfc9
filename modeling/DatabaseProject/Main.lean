import DatabaseProject.CommandLine
import DatabaseProject.ProjectId

/-!
# The program

Loads the parts of the disk that a command can read into a file tree, runs the command, and writes
back what the run has made or changed.
-/

namespace DatabaseProject.Program

/-- The place of a location on the disk. -/
def diskPath (location : Location) : String := "/" ++ "/".intercalate location

/-- Adds a folder and the folders above it. -/
def addFolder (tree : FileTree) (location : Location) : FileTree :=
  ((tree.makeFrom? [] location).map (·.1)).getD tree

/-- What an action gives, unless it fails. -/
def attempt {α : Type} (action : IO α) : IO (Option α) :=
  try some <$> action catch _ => pure none

/-- The names in a folder. -/
def folderNames (location : Location) : IO (List String) := do
  let entries ← (← IO.FS.realPath (diskPath location)).readDir
  return entries.toList.map (·.fileName)

/-- Loads a file or folder with all that is below it. -/
partial def load (tree : FileTree) (location : Location) : IO FileTree := do
  match ← attempt (folderNames location) with
  | some names =>
    names.foldlM (fun tree name => load tree (location ++ [name])) (addFolder tree location)
  | none =>
    match ← attempt (IO.FS.readBinFile (diskPath location)) with
    | some bytes =>
      let writable ← attempt (IO.FS.withFile (diskPath location) .readWrite fun _ => pure ())
      let content : File := { bytes, readOnly := writable.isNone }
      return (addFolder tree location.dropLast).put location (.file content)
    | none => return tree

/-- Loads what a path leads to, and the folders that the path passes through. -/
def loadPath (tree : FileTree) (path : Path) : IO FileTree := do
  let mut tree := tree
  let mut location := tree.start path
  for field in path.fields do
    let some next := FileTree.step? location field | return tree
    if (← attempt (folderNames next)).isSome then tree := addFolder tree next
    location := next
  load tree location

/-- The paths that a definition makes a run read, or write below. -/
def roots (settings : Settings) (definition : Definition) : List Path :=
  definition.solutions.flatMap fun solution =>
    settings.outputFolder.join ⟨solution.name⟩ :: solution.databases.flatMap fun db =>
      db.includes.filterMap (Include.resolve settings.projectFolder settings.packages · |>.toOption)
        ++ (Generate.dacpacs (.ofDecl db)).map (Generate.dacpacSource settings)

/-- Loads what a command can read. -/
def loadFor (tree : FileTree) : CommandLine.Command → IO FileTree
  | .generate path settings => do
    let tree ← loadPath tree path
    match Generate.readDefinition path tree with
    | .ok (some definition) => (roots settings definition).foldlM loadPath tree
    | _ => return tree
  | .version | .misuse => return tree

/-- Writes an entry that is new or changed. -/
def save (before : FileTree) (location : Location) (entry : FileEntry) : IO Unit :=
  if before.get? location = some entry then pure ()
  else
    match entry with
    | .folder => IO.FS.createDirAll (diskPath location)
    | .file content => do
      IO.FS.writeBinFile (diskPath location) content.bytes
      if content.readOnly then
        let read : IO.AccessRight := { read := true }
        IO.setAccessRights (diskPath location) { user := read, group := read, other := read }

end DatabaseProject.Program

open DatabaseProject in
/-- Runs the program. -/
def main (args : List String) : IO UInt32 := do
  let command := CommandLine.parse args
  let here : Path := ⟨(← IO.currentDir).toString⟩
  let workingFolder := here.fields.filter (!Path.isFiller ·)
  let tree ← Program.loadFor (Program.addFolder ⟨∅, workingFolder⟩ workingFolder) command
  let seed ← IO.rand 0 (UInt64.size - 1)
  let (outcome, state) := CommandLine.run (ProjectId.nth seed.toUInt64) command ⟨tree, 0⟩
  for entry in state.tree.entries.entries do
    Program.save tree entry.1 entry.2
  outcome.output.forM IO.println
  outcome.errorOutput.forM IO.eprintln
  return outcome.exitCode.toUInt32
