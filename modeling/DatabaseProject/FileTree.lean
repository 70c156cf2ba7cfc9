import DatabaseProject.OrderedMap
import DatabaseProject.Path

/-!
# File trees

A file tree as a value: files and folders by their location, which is the list of names from the
root. A textual path is followed from the root or from the working folder; whatever it passes
through must be a folder, and neither the path nor a name in it may be too long. Folders and files
are never removed, a file can be overwritten unless it is read-only. All files can be read, and files
can be added to all folders.
-/

namespace DatabaseProject

/-- The names that lead from the root to a place. -/
abbrev Location := List String

/-- A file, with what its permission bits say about writing. -/
@[ext]
structure File where
  bytes : ByteArray
  /-- The file must not be written over. -/
  readOnly : Bool := false

namespace File

instance : DecidableEq File := fun file other =>
  have : Decidable (file.bytes = other.bytes) := ByteArray.instDecidableEq _ _
  decidable_of_iff _ File.ext_iff.symm

instance : Coe ByteArray File := ⟨fun bytes => { bytes }⟩

def empty : File := ByteArray.empty

end File

inductive FileEntry where
  | file (content : File)
  | folder
  deriving DecidableEq

structure FileTree where
  entries : OrderedMap Location FileEntry
  /-- Where paths start that are not absolute. -/
  workingFolder : Location

namespace FileTree

/-- The tree that holds only its root. -/
def empty : FileTree := ⟨∅, []⟩

/-- What is at a location; the root is a folder. -/
def get? (tree : FileTree) (location : Location) : Option FileEntry :=
  if location = [] then some .folder else tree.entries.get? location

/-- Sets what is at a location. -/
def put (tree : FileTree) (location : Location) (entry : FileEntry) : FileTree :=
  { tree with entries := tree.entries.put location entry }

/-- The longest name of a file or folder, in bytes. -/
def maxNameBytes : Nat := 255

/-- The longest text of a path, in bytes. -/
def maxPathBytes : Nat := 4095

/-- The path is not too long to lead anywhere. -/
def fits (path : Path) : Bool := decide (path.text.utf8ByteSize ≤ maxPathBytes)

/-- A name that a file or folder can have. -/
def isName (name : String) : Bool :=
  !Path.isFiller name && name != ".." && decide (name.utf8ByteSize ≤ maxNameBytes)
    && name.toList.all fun c => c != '/' && c != '\u0000'

/-- Where a field of a path leads from a folder. -/
def step? (location : Location) (field : String) : Option Location :=
  if Path.isFiller field then some location
  else if field = ".." then some location.dropLast
  else if isName field then some (location ++ [field])
  else none

/-- Follows fields from a location; what is left behind by a field must be a folder. -/
def follow? (tree : FileTree) (location : Location) : List String → Option Location
  | [] => some location
  | field :: rest =>
    if tree.get? location = some .folder then
      (step? location field).bind fun next => tree.follow? next rest
    else none

/-- Where the fields of a path start. -/
def start (tree : FileTree) (path : Path) : Location :=
  if path.isAbsolute then [] else tree.workingFolder

/-- The location that a path leads to, whether or not anything is there. -/
def locate? (tree : FileTree) (path : Path) : Option Location :=
  if path.text ≠ "" ∧ fits path then tree.follow? (tree.start path) path.fields else none

/-- What a path leads to. -/
def entry? (tree : FileTree) (path : Path) : Option FileEntry :=
  (tree.locate? path).bind tree.get?

def isFolder (tree : FileTree) (path : Path) : Bool := tree.entry? path == some .folder

def isFile (tree : FileTree) (path : Path) : Bool :=
  match tree.entry? path with
  | some (.file _) => true
  | _ => false

def exists? (tree : FileTree) (path : Path) : Bool := (tree.entry? path).isSome

/-- The file that a path leads to. -/
def read? (tree : FileTree) (path : Path) : Option File :=
  match tree.entry? path with
  | some (.file content) => some content
  | _ => none

/-- Follows fields and makes the folders that are missing; gives the last one. -/
def makeFrom? (tree : FileTree) (location : Location) : List String → Option (FileTree × Location)
  | [] => some (tree, location)
  | field :: rest =>
    (step? location field).bind fun next =>
      match tree.get? next with
      | some .folder => tree.makeFrom? next rest
      | some (.file _) => none
      | none => (tree.put next .folder).makeFrom? next rest

/-- A file is there that must not be written over. -/
def isReadOnly (tree : FileTree) (location : Location) : Bool :=
  match tree.get? location with
  | some (.file content) => content.readOnly
  | _ => false

/-- Makes a folder with all folders above it, and gives its location. -/
def makeFolder? (tree : FileTree) (path : Path) : Option (FileTree × Location) :=
  if fits path then tree.makeFrom? (tree.start path) path.fields else none

/-- Puts a file into the folder that its path leads to, over a file of the name unless that must not
be written over, but not over a folder. -/
def storeAt? (tree : FileTree) (folder : Location) (path : Path) (content : File) :
    Option FileTree := do
  let name ← path.fileName?
  guard (fits path && isName name)
  guard (tree.get? folder = some .folder ∧ tree.get? (folder ++ [name]) ≠ some .folder)
  guard !tree.isReadOnly (folder ++ [name])
  return tree.put (folder ++ [name]) (.file content)

/-- Compares locations name by name; a folder comes before what is in it. -/
def inOrder : Location → Location → Bool
  | [], _ => true
  | _ :: _, [] => false
  | name :: rest, other :: others =>
    if name = other then inOrder rest others else decide (name < other)

/-- The locations below a folder, relative to it, with what is there, in the order of their
names. -/
def below (tree : FileTree) (folder : Location) : List (List String × FileEntry) :=
  let found := tree.entries.entries.filterMap fun entry =>
    match folder.isPrefixOf? entry.1 with
    | some (name :: rest) => some (name :: rest, entry.2)
    | _ => none
  found.mergeSort fun a b => inOrder a.1 b.1

/-- The files below a folder, in the order of their names. -/
def filesBelow (tree : FileTree) (folder : Location) : List (List String × ByteArray) :=
  (tree.below folder).filterMap fun entry =>
    match entry.2 with
    | .file content => some (entry.1, content.bytes)
    | .folder => none

/-- The folders below a folder, down to a depth, in the order of their names. -/
def foldersBelow (tree : FileTree) (folder : Location) (depth : Nat) : List (List String) :=
  (tree.below folder).filterMap fun entry =>
    if entry.2 = .folder ∧ entry.1.length ≤ depth then some entry.1 else none

end FileTree

end DatabaseProject
