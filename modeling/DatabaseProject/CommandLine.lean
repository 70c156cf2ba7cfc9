import DatabaseProject.Generate

/-!
# The command line

Reads the arguments of the program and runs what they ask for. The only command is `generate`; its
options may come in any order, each once, except that `--package` may be repeated. What the program
prints and its exit code are an `Outcome`.
-/

namespace DatabaseProject.CommandLine

/-- The options of `generate` that take a value. -/
inductive OptionName where
  | input | output | projectFolder | edition | package
  deriving DecidableEq, Repr

/-- What the arguments of `generate` have given so far. -/
structure Arguments where
  input : Option Path
  output : Option Path
  projectFolder : Option Path
  edition : Option String
  packages : PackageFolders
  /-- Asks for a fuller log, and changes nothing that the program prints or writes. -/
  verbose : Bool

namespace Arguments

def empty : Arguments := ⟨none, none, none, none, ∅, false⟩

/-- A value that is given once. -/
def once? {α : Type} (given : Option α) (value : α) : Option (Option α) :=
  if given.isSome then none else some (some value)

/-- A path option: given once, and not empty. -/
def path? (given : Option Path) (value : String) : Option (Option Path) :=
  if value = "" then none else once? given ⟨value⟩

/-- The name and folder of a package, around the first `=`; neither is empty. -/
def package? (value : String) : Option (String × Path) :=
  let name := String.ofList (value.toList.takeWhile (· != '='))
  match value.toList.dropWhile (· != '=') with
  | [] => none
  | _ :: folder =>
    if name = "" ∨ folder = [] then none else some (name, ⟨String.ofList folder⟩)

/-- Takes the value of an option. -/
def set? (arguments : Arguments) (name : OptionName) (value : String) : Option Arguments :=
  match name with
  | .input => (path? arguments.input value).map ({ arguments with input := · })
  | .output => (path? arguments.output value).map ({ arguments with output := · })
  | .projectFolder =>
    (path? arguments.projectFolder value).map ({ arguments with projectFolder := · })
  | .edition => (once? arguments.edition value).map ({ arguments with edition := · })
  | .package => (package? value).map fun package =>
    { arguments with packages := arguments.packages.put package.1 package.2 }

/-- Takes the verbose flag, which is given at most once. -/
def setVerbose? (arguments : Arguments) : Option Arguments :=
  if arguments.verbose then none else some { arguments with verbose := true }

end Arguments

/-- An argument taken apart: how often it gives the verbose flag, and the option it names, with
the value that it holds itself. -/
structure Word where
  flags : Nat
  option : Option (OptionName × Option String)

namespace Word

def flag : Word := ⟨1, none⟩

def ofOption (name : OptionName) (value : Option String) : Word := ⟨0, some (name, value)⟩

/-- The word of an argument behind `--`, given its name and the value behind `=`. -/
def ofLong? (name : String) (value : Option String) : Option Word :=
  match name with
  | "input" => some (ofOption .input value)
  | "output" => some (ofOption .output value)
  | "project-dir" => some (ofOption .projectFolder value)
  | "edition" => some (ofOption .edition value)
  | "package" => some (ofOption .package value)
  | "verbose" => if value.isNone then some flag else none
  | _ => none

/-- The value that follows the letter of an option in its own argument, with or without `=`. -/
def attached : List Char → Option String
  | [] => none
  | '=' :: value => some (String.ofList value)
  | value => some (String.ofList value)

/-- The word of letters behind `-`. -/
def ofShort? : List Char → Option Word
  | [] => some ⟨0, none⟩
  | 'v' :: rest => (ofShort? rest).map fun word => { word with flags := word.flags + 1 }
  | 'i' :: rest => some (ofOption .input (attached rest))
  | 'o' :: rest => some (ofOption .output (attached rest))
  | 'e' :: rest => some (ofOption .edition (attached rest))
  | _ => none

/-- The word of an argument; one that names no option has none. -/
def ofArgument? (argument : String) : Option Word :=
  match argument.toList with
  | '-' :: '-' :: name =>
    ofLong? (String.ofList (name.takeWhile (· != '=')))
      (match name.dropWhile (· != '=') with
        | [] => none
        | _ :: value => some (String.ofList value))
  | '-' :: letter :: rest => ofShort? (letter :: rest)
  | _ => none

end Word

/-- An argument that begins as options do is no value; a lone `-` is one. -/
def isValue (argument : String) : Bool :=
  match argument.toList with
  | '-' :: _ :: _ => false
  | _ => true

/-- Takes the verbose flags of a word. -/
def takeFlags? (arguments : Arguments) : Nat → Option Arguments
  | 0 => some arguments
  | n + 1 => arguments.setVerbose?.bind fun arguments => takeFlags? arguments n

/-- Takes one argument: the value of the option that awaits one, or a word. Gives the option that
awaits its value next. -/
def takeOne? (arguments : Arguments) (awaiting : Option OptionName) (argument : String) :
    Option (Arguments × Option OptionName) :=
  match awaiting with
  | some name => if isValue argument then (arguments.set? name argument).map (·, none) else none
  | none => do
    let word ← Word.ofArgument? argument
    let arguments ← takeFlags? arguments word.flags
    match word.option with
    | none => some (arguments, none)
    | some (name, some value) => (arguments.set? name value).map (·, none)
    | some (name, none) => some (arguments, some name)

/-- Takes all arguments of `generate`. An argument `--` ends them. -/
def takeAll? (arguments : Arguments) (awaiting : Option OptionName) : List String → Option Arguments
  | [] => if awaiting.isNone then some arguments else none
  | argument :: rest =>
    if awaiting.isNone && argument == "--" && rest.isEmpty then some arguments
    else (takeOne? arguments awaiting argument).bind fun taken => takeAll? taken.1 taken.2 rest

/-- What the program is asked to do. -/
inductive Command where
  | generate (definition : Path) (settings : Settings)
  | version
  | misuse

/-- The folder of the definition, where no project folder is given. -/
def defaultProjectFolder (definition : Path) : Path := definition.parent?.getD ⟨"."⟩

/-- The command of the arguments of `generate`. -/
def ofArguments (arguments : Arguments) : Command :=
  match arguments.input, arguments.output with
  | some definition, some outputFolder =>
    .generate definition {
      outputFolder
      projectFolder := arguments.projectFolder.getD (defaultProjectFolder definition)
      edition := arguments.edition
      packages := arguments.packages }
  | _, _ => .misuse

/-- The arguments ask for the version of the program. -/
def asksVersion (argument : String) : Bool :=
  argument == "--version" || ['-', 'V'].isPrefixOf argument.toList

/-- The command of the program's arguments. -/
def parse : List String → Command
  | [] => .misuse
  | first :: rest =>
    if first = "generate" then
      match takeAll? .empty none rest with
      | some arguments => ofArguments arguments
      | none => .misuse
    else if asksVersion first then .version
    else .misuse

/-- How the program ends, and what it prints. -/
structure Outcome where
  exitCode : Nat
  output : List String
  errorOutput : List String
  deriving DecidableEq, Repr

/-- What is printed of a solution. -/
def summary (solution : SolutionOutput) : String :=
  match solution.solutionPath with
  | some path =>
    solution.name ++ ": " ++ toString solution.projects.length ++ " projects, "
      ++ toString solution.scriptCount ++ " scripts -> " ++ path.text
  | none => solution.name ++ ": no projects requested"

/-- How a run ends. -/
def outcome : Except GenerationError (List SolutionOutput) → Outcome
  | .ok solutions => ⟨0, solutions.map summary, []⟩
  | .error e => ⟨1, [], ["Error: " ++ e.message]⟩

/-- Name and version of the program. -/
def versionText : String := "sqlproj-gen 0.1.0"

/-- How the program is called. -/
def usage : String :=
  "Usage: sqlproj-gen generate --input <INPUT> --output <OUTPUT> [--project-dir <DIR>] [--edition <EDITION>] [--package <NAME=PATH>]... [--verbose]"

/-- Runs a command. -/
def run (ids : Nat → String) (command : Command) (state : RunState) : Outcome × RunState :=
  match command with
  | .generate definition settings =>
    let (result, state) := (Generate.generate settings ids definition).run state
    (outcome result, state)
  | .version => (⟨0, [versionText], []⟩, state)
  | .misuse => (⟨2, [], [usage]⟩, state)

end DatabaseProject.CommandLine
