import DatabaseProject.Project

/-!
# Solutions

The solution file of a run: one entry a project, and the configurations of each.
-/

namespace DatabaseProject

structure SolutionEntry where
  name : String
  guid : String
  deriving DecidableEq, Repr

structure Solution where
  name : String
  guid : String
  entries : List SolutionEntry
  deriving DecidableEq, Repr

namespace Solution

/-- The solution of projects, in their order. -/
def ofProjects (name guid : String) (projects : List Project) : Solution :=
  ⟨name, guid, projects.map fun project => ⟨project.name, project.guid⟩⟩

/-- The name of the solution file. -/
def fileName (solution : Solution) : String := solution.name ++ ".sln"

/-- The id of the type that database projects have. -/
def projectType : String := "\x7b00D1A9C2-B5F0-4AF3-8072-F6C62B433612\x7d"

def configurations : List String := ["Debug", "Release"]

/-- What is done with a project in a configuration. -/
def configurationSteps : List String := ["ActiveCfg", "Build.0", "Deploy.0"]

/-- The lines of a section of the file. -/
def sectionLines (name time : String) (content : List String) : List String :=
  ["\tGlobalSection(" ++ name ++ ") = " ++ time] ++ content.map ("\t\t" ++ ·)
    ++ ["\tEndGlobalSection"]

/-- The lines that name a project. -/
def entryLines (entry : SolutionEntry) : List String :=
  ["Project(\"" ++ projectType ++ "\") = \"" ++ entry.name ++ "\", \"" ++ entry.name
      ++ ".sqlproj\", \"" ++ entry.guid ++ "\"",
    "EndProject"]

/-- The lines for the configurations of a project. -/
def configurationLines (entry : SolutionEntry) : List String :=
  configurations.flatMap fun configuration =>
    configurationSteps.map fun step =>
      entry.guid ++ "." ++ configuration ++ "|Any CPU." ++ step ++ " = " ++ configuration ++ "|Any CPU"

/-- The lines of the file. -/
def lines (solution : Solution) : List String :=
  ["Microsoft Visual Studio Solution File, Format Version 12.00",
    "# Visual Studio Version 16",
    "VisualStudioVersion = 16.0.31112.23",
    "MinimumVisualStudioVersion = 10.0.40219.1"]
  ++ solution.entries.flatMap entryLines
  ++ ["Global"]
  ++ sectionLines "SolutionConfigurationPlatforms" "preSolution"
      (configurations.map fun c => c ++ "|Any CPU = " ++ c ++ "|Any CPU")
  ++ sectionLines "ProjectConfigurationPlatforms" "postSolution"
      (solution.entries.flatMap configurationLines)
  ++ sectionLines "SolutionProperties" "preSolution" ["HideSolutionNode = FALSE"]
  ++ sectionLines "ExtensibilityGlobals" "postSolution" ["SolutionGuid = " ++ solution.guid]
  ++ ["EndGlobal"]

/-- The text of the file. -/
def text (solution : Solution) : String := String.join (solution.lines.map (· ++ "\n"))

end Solution

end DatabaseProject
