import DatabaseProject.Project
import DatabaseProject.Xml.Markup

/-!
# Schema comparisons

The file that compares a project with a database: where both are, and which types of objects are
left out.
-/

namespace DatabaseProject

open DatabaseProject.Xml

/-- The types of objects that a comparison leaves out, in a fixed order. -/
def ComparisonOptions.excludedTypes (options : ComparisonOptions) : List String :=
  [(options.excludeDatabaseRoles, "SqlRole"),
    (options.excludeUsers, "SqlUser"),
    (options.excludeTables, "SqlTable"),
    (options.excludeViews, "SqlView"),
    (options.excludeProcedures, "SqlProcedure"),
    (options.excludeTableValuedFunctions, "SqlTableValuedFunction"),
    (options.excludeScalarFunctions, "SqlScalarFunction")].filterMap
    fun entry => if entry.1 then some entry.2 else none

namespace Project

/-- What the names of object types start with. -/
def objectTypeSpace : String := "Microsoft.Data.Tools.Schema.Sql.SchemaModel."

/-- The markup that compares a project with the database of a connection. -/
def comparisonMarkup (project : Project) (options : ComparisonOptions) : Markup :=
  .group "SchemaComparison" [] [
    .field "Version" "10",
    .group "SourceModelProvider" [] [
      .group "ProjectBasedModelProvider" [] [
        .field "ProjectFilePath" project.fileName,
        .field "ProjectGuid" project.guid,
        .field "Dsp" project.schemaProvider,
        .field "FolderStructure" "3"]],
    .group "TargetModelProvider" [] [
      .group "ConnectionBasedModelProvider" [] [
        .field "ConnectionString" options.connectionString]],
    .group "ExcludedTypes" []
      (options.excludedTypes.map fun type => .field "ExcludedType" (objectTypeSpace ++ type))]

/-- The text of the comparison file. -/
def comparison (project : Project) (options : ComparisonOptions) : String :=
  (project.comparisonMarkup options).document

end Project

end DatabaseProject
