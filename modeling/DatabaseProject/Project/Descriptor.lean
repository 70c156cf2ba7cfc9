import DatabaseProject.Project
import DatabaseProject.Xml.Markup

/-!
# Project files

The markup of a project file: its properties, the scripts that it builds, its references, its
schema comparison and the folders that it lists.
-/

namespace DatabaseProject

open DatabaseProject.Xml

/-- A truth value as build files write it. -/
def buildBool (b : Bool) : String := if b then "True" else "False"

namespace ProjectReference

/-- The item of a package with the name that scripts use for its database. -/
def artifact (path literal : String) : Markup :=
  .group "ArtifactReference" [("Include", path)] [
    .field "HintPath" path,
    .field "SuppressMissingDependenciesErrors" "False",
    .field "DatabaseVariableLiteralValue" literal]

/-- The item of a reference. -/
def markup : ProjectReference → Markup
  | dacpac fileName => artifact fileName ((Path.mk fileName).stem?.getD fileName)
  | project name guid =>
    .group "ProjectReference" [("Include", name ++ ".sqlproj")] [
      .field "Name" name,
      .field "Project" guid,
      .field "Private" "True",
      .field "SuppressMissingDependenciesErrors" "False",
      .field "DatabaseVariableLiteralValue" name]
  | system name hintPath => artifact hintPath name

end ProjectReference

namespace Project

/-- The namespace of build files. -/
def buildSpace : String := "http://schemas.microsoft.com/developer/msbuild/2003"

/-- The file of common build properties. -/
def commonProps : String := "$(MSBuildExtensionsPath)\\$(MSBuildToolsVersion)\\Microsoft.Common.props"

/-- The build targets that come with an installation of the tools. -/
def installedTargets : String :=
  "$(MSBuildExtensionsPath)\\Microsoft\\VisualStudio\\v$(VisualStudioVersion)\\SSDT\\Microsoft.Data.Tools.Schema.SqlTasks.targets"

/-- The build targets below a folder that is set from outside. -/
def extensionTargets : String :=
  "$(SQLDBExtensionsRefPath)\\Microsoft.Data.Tools.Schema.SqlTasks.targets"

/-- Holds for one configuration only. -/
def configurationCondition (configuration : String) : String :=
  " '$(Configuration)|$(Platform)' == '" ++ configuration ++ "|AnyCPU' "

/-- The properties of the project itself. -/
def identityProperties (project : Project) : Markup :=
  .group "PropertyGroup" [] [
    .leaf "Configuration" [("Condition", " '$(Configuration)' == '' ")] "Debug",
    .leaf "Platform" [("Condition", " '$(Platform)' == '' ")] "AnyCPU",
    .field "Name" project.name,
    .field "SchemaVersion" "2.0",
    .field "ProjectVersion" "4.1",
    .field "ProjectGuid" project.guid,
    .field "DSP" project.schemaProvider,
    .field "OutputType" "Database",
    .bare "RootPath" [],
    .field "RootNamespace" project.name,
    .field "AssemblyName" project.name,
    .field "ModelCollation" "1033, CI",
    .field "DefaultFileStructure" "BySchemaAndSchemaType",
    .field "DeployToDatabase" "True",
    .field "TargetFrameworkVersion" "v4.8",
    .field "TargetLanguage" "CS",
    .field "AppDesignerFolder" "Properties",
    .field "SqlServerVerification" "False",
    .field "IncludeCompositeObjects" "True",
    .field "TargetDatabaseSet" "True"]

/-- The properties of the release configuration. -/
def releaseProperties (project : Project) : Markup :=
  .group "PropertyGroup" [("Condition", configurationCondition "Release")] [
    .field "OutputPath" "bin\\Release\\",
    .field "BuildScriptName" "$(MSBuildProjectName).sql",
    .field "TreatWarningsAsErrors" "False",
    .field "DebugType" "pdbonly",
    .field "Optimize" "true",
    .field "DefineDebug" "false",
    .field "DefineTrace" "true",
    .field "ErrorReport" "prompt",
    .field "WarningLevel" "4",
    .field "TreatTSqlWarningsAsErrors" (buildBool project.warningsAsErrors)]

/-- The properties of the debug configuration. -/
def debugProperties (project : Project) : Markup :=
  .group "PropertyGroup" [("Condition", configurationCondition "Debug")] [
    .field "OutputPath" "bin\\Debug\\",
    .field "BuildScriptName" "$(MSBuildProjectName).sql",
    .field "TreatWarningsAsErrors" "false",
    .field "DebugSymbols" "true",
    .field "DebugType" "full",
    .field "Optimize" "false",
    .field "DefineDebug" "true",
    .field "DefineTrace" "true",
    .field "ErrorReport" "prompt",
    .field "WarningLevel" "4",
    .field "TreatTSqlWarningsAsErrors" (buildBool project.warningsAsErrors)]

/-- The properties that find the tools. -/
def toolProperties : Markup :=
  .group "PropertyGroup" [] [
    .leaf "VisualStudioVersion" [("Condition", "'$(VisualStudioVersion)' == ''")] "11.0",
    .leaf "SSDTExists" [("Condition", "Exists('" ++ installedTargets ++ "')")] "True",
    .leaf "VisualStudioVersion" [("Condition", "'$(SSDTExists)' == ''")] "11.0"]

/-- A folder item. -/
def folderMarkup (folder : String) : Markup := .bare "Folder" [("Include", folder)]

/-- The markup of the project file. -/
def markup (project : Project) : Markup :=
  .group "Project" [("DefaultTargets", "Build"), ("xmlns", buildSpace), ("ToolsVersion", "4.0")] [
    .bare "Import" [("Project", commonProps), ("Condition", "Exists('" ++ commonProps ++ "')")],
    project.identityProperties,
    project.releaseProperties,
    project.debugProperties,
    toolProperties,
    .bare "Import" [("Condition", "'$(SQLDBExtensionsRefPath)' != ''"), ("Project", extensionTargets)],
    .bare "Import" [("Condition", "'$(SQLDBExtensionsRefPath)' == ''"), ("Project", installedTargets)],
    .group "ItemGroup" [] [
      .bare "Build" [("Include", project.buildPattern)],
      folderMarkup project.name],
    .group "ItemGroup" [] (project.references.map ProjectReference.markup),
    .group "ItemGroup" []
      (if project.hasComparison then [.bare "None" [("Include", project.comparisonFileName)]] else []),
    .group "ItemGroup" [] (project.folders.map folderMarkup)]

/-- The text of the project file. -/
def descriptor (project : Project) : String := project.markup.document

end Project

end DatabaseProject
