/-!
# Textual paths

A path is the text that names a place in a file tree. Only `/` separates, nothing is normalised:
joining keeps both texts, except that an absolute path replaces what it is joined to. A path is
taken apart into its parts, which are the texts between separators other than the empty one
and `.`.
-/

namespace DatabaseProject

/-- A place in a file tree, as written. -/
structure Path where
  text : String
  deriving DecidableEq, Repr, Inhabited

namespace Path

/-- The texts between separators, empty ones included. -/
def fields (path : Path) : List String :=
  (path.text.toList.splitOnP (· == '/')).map String.ofList

def isAbsolute (path : Path) : Bool := path.text.toList.head? == some '/'

/-- The second path below the first; an absolute path stays alone. -/
def join (base : Path) (path : Path) : Path :=
  if path.isAbsolute then path
  else if base.text.toList.getLast?.all (· == '/') then ⟨base.text ++ path.text⟩
  else ⟨base.text ++ "/" ++ path.text⟩

/-- Joins pieces one after the other. -/
def joinAll (base : Path) (pieces : List String) : Path :=
  pieces.foldl (fun path piece => path.join ⟨piece⟩) base

/-- Fields that name no part of a path. -/
def isFiller (field : String) : Bool := field == "" || field == "."

/-- A leading separator or a leading `.`, which is no part either, and the fields behind it. -/
def split (path : Path) : String × List String :=
  match path.fields with
  | "" :: field :: rest => ("/", field :: rest)
  | "." :: rest => (".", if rest.isEmpty then [] else "" :: rest)
  | fields => ("", fields)

/-- The path without its last part and the fillers around it; the root and the empty path have
none. -/
def parent? (path : Path) : Option Path :=
  let (lead, fields) := path.split
  match fields.reverse.dropWhile isFiller with
  | [] => if lead == "." then some ⟨""⟩ else none
  | _ :: above => some ⟨lead ++ "/".intercalate (above.dropWhile isFiller).reverse⟩

/-- The last part, unless it leads upwards. -/
def fileName? (path : Path) : Option String :=
  match path.split.2.reverse.dropWhile isFiller with
  | [] => none
  | name :: _ => if name == ".." then none else some name

/-- The file name up to its last dot; a dot that starts the name does not count. -/
def stem? (path : Path) : Option String :=
  path.fileName?.map fun name =>
    match name.toList.reverse.dropWhile (· != '.') with
    | [] => name
    | _ :: front => if front.isEmpty then name else String.ofList front.reverse

end Path

end DatabaseProject
