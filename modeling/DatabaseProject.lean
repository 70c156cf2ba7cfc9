import DatabaseProject.Main
import DatabaseProject.Proofs.OrderedMap
import DatabaseProject.Proofs.Outcome
import DatabaseProject.Proofs.TableDraft
import DatabaseProject.Proofs.Table
import DatabaseProject.Proofs.Registry
import DatabaseProject.Proofs.Isolation
import DatabaseProject.Proofs.Growth
import DatabaseProject.Proofs.Coherence
import DatabaseProject.Proofs.Acceptance
import DatabaseProject.Proofs.Precedence
import DatabaseProject.Proofs.Path
import DatabaseProject.Proofs.FileTree
import DatabaseProject.Proofs.Writing
import DatabaseProject.Proofs.Footprint
import DatabaseProject.Proofs.Scripts
import DatabaseProject.Proofs.SolutionFootprint
import DatabaseProject.Proofs.Artifacts
import DatabaseProject.Proofs.Renaming
import DatabaseProject.Proofs.RelatedTrees
import DatabaseProject.Proofs.Replay
import DatabaseProject.Proofs.Failure
import DatabaseProject.Proofs.Projectless
import DatabaseProject.Proofs.Regeneration
import DatabaseProject.Proofs.Beside
import DatabaseProject.Proofs.TakenOver
import DatabaseProject.Proofs.Brackets
import DatabaseProject.Proofs.ProjectReferences
import DatabaseProject.Proofs.Turns
import DatabaseProject.Proofs.Independence
import DatabaseProject.Proofs.Packages
import DatabaseProject.Proofs.Decimal
import DatabaseProject.Proofs.Attributes
import DatabaseProject.Proofs.Grammar
import DatabaseProject.Proofs.Layout
import DatabaseProject.Proofs.Edits
import DatabaseProject.Proofs.ScriptPaths
import DatabaseProject.Proofs.ListedFolders
import DatabaseProject.Proofs.ConstraintNames
import DatabaseProject.Proofs.ElementTexts
import DatabaseProject.Proofs.Escaping
import DatabaseProject.Proofs.WrittenTokens
import DatabaseProject.Proofs.WrittenTree
import DatabaseProject.Proofs.DescriptorXml
import DatabaseProject.Proofs.KeyColumns
import DatabaseProject.Proofs.TableFaults
import DatabaseProject.Proofs.CodeUnits
import DatabaseProject.Proofs.Batches
import DatabaseProject.Proofs.DottedPaths
import DatabaseProject.Proofs.Abreast
import DatabaseProject.Proofs.CommandLine
import DatabaseProject.Proofs.DefaultFolder
import DatabaseProject.Proofs.ScriptText
import DatabaseProject.Proofs.IdentifierLength
import DatabaseProject.Proofs.ColumnTypes
import DatabaseProject.Proofs.Delimited
import DatabaseProject.Proofs.ScriptReading
import DatabaseProject.Proofs.PlainTables
import DatabaseProject.Proofs.HashLanes
import DatabaseProject.Proofs.Shortening
import DatabaseProject.Proofs.ByteOrder
import DatabaseProject.Proofs.IncludedFolders
import DatabaseProject.Proofs.Assembly
import DatabaseProject.Proofs.RepeatedFolders
import DatabaseProject.Proofs.IncludePaths
import DatabaseProject.Proofs.SolutionText
import DatabaseProject.Proofs.MaxLengths
import DatabaseProject.Proofs.IntegerAttributes
