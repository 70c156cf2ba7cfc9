import DatabaseProject.Error
import DatabaseProject.OrderedMap

/-!
# Paths in definitions

A definition separates the segments of a path by `/` or `\`. An include path names a folder of the
project, or of a package when its first segment is `Nuget`; the next segment is the package then.
Only the segments count, so no include path leaves its base by being absolute.
-/

namespace DatabaseProject

/-- Folders with the content of packages, by the name of the package. -/
abbrev PackageFolders := NameMap Path

namespace Include

def isSeparator (c : Char) : Bool := c == '/' || c == '\\'

/-- The texts between separators that are not empty. -/
def segments (path : String) : List String :=
  ((path.toList.splitOnP isSeparator).filter (!·.isEmpty)).map String.ofList

/-- The text behind the last separator. -/
def lastSegment (path : String) : String :=
  String.ofList ((path.toList.splitOnP isSeparator).getLastD [])

/-- The first segment of a path into a package. -/
def packageMark : String := "Nuget"

/-- The folder that an include path names. -/
def resolve (projectFolder : Path) (packages : PackageFolders) (path : String) :
    Except GenerationError Path :=
  match segments path with
  | [] => .ok projectFolder
  | first :: rest =>
    if first = packageMark then
      match rest with
      | [] => .error (.unknownPackage "" path)
      | package :: inside =>
        match packages.get? package with
        | none => .error (.unknownPackage package path)
        | some base => .ok (base.joinAll inside)
    else .ok (projectFolder.joinAll (first :: rest))

end Include

end DatabaseProject
