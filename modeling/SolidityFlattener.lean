import SolidityFlattener.Text.Basic
import SolidityFlattener.Text.Blank
import SolidityFlattener.Text.Word
import SolidityFlattener.Text.Printable
import SolidityFlattener.Text.Lower
import SolidityFlattener.Text.Hex
import SolidityFlattener.Text.Utf8
import SolidityFlattener.Decimal.Binary64
import SolidityFlattener.Path
import SolidityFlattener.Tree.Basic
import SolidityFlattener.Tree.Walk
import SolidityFlattener.Tree.Access
import SolidityFlattener.Failure
import SolidityFlattener.Trace
import SolidityFlattener.Source.Statement
import SolidityFlattener.Source.Scan
import SolidityFlattener.Source.BaseList
import SolidityFlattener.Source.Inheritance
import SolidityFlattener.Graph.Registry
import SolidityFlattener.Graph.Rounds
import SolidityFlattener.Graph.Levels
import SolidityFlattener.Document.Value
import SolidityFlattener.Document.Shown
import SolidityFlattener.Document.Json.Printer
import SolidityFlattener.Document.Json.Reader
import SolidityFlattener.Imports.Candidate
import SolidityFlattener.Imports.Discovery
import SolidityFlattener.Imports.PackageRoot
import SolidityFlattener.Imports.RootFiles
import SolidityFlattener.Artifact.Bundle
import SolidityFlattener.Artifact.Placement
import SolidityFlattener.EvmVersion
import SolidityFlattener.Run.Options
import SolidityFlattener.Run.CompilerSettings
import SolidityFlattener.Run.Flatten
import SolidityFlattener.Run.Batch
import SolidityFlattener.Document.Calendar
import SolidityFlattener.Document.Toml.Scalar
import SolidityFlattener.Document.Toml.Reader
import SolidityFlattener.Document.Yaml.Cursor
import SolidityFlattener.Document.Yaml.Scalars
import SolidityFlattener.Document.Yaml.Token
import SolidityFlattener.Document.Yaml.Node
import SolidityFlattener.Document.Yaml.Plain
import SolidityFlattener.Document.Yaml.Reader
import SolidityFlattener.Run.BatchFile
import SolidityFlattener.CommandLine.Arguments
import SolidityFlattener.CommandLine.Command
import SolidityFlattener.Main
import SolidityFlattener.Proofs.Graph.Edges
import SolidityFlattener.Proofs.Graph.Rounds
import SolidityFlattener.Proofs.Graph.StuckSets
import SolidityFlattener.Proofs.Graph.Heights
import SolidityFlattener.Proofs.Graph.Levels
import SolidityFlattener.Proofs.Tree.Canonical
import SolidityFlattener.Proofs.Imports.Files
import SolidityFlattener.Proofs.Imports.Loading
import SolidityFlattener.Proofs.Imports.Search
import SolidityFlattener.Proofs.Imports.Discovery
import SolidityFlattener.Proofs.Graph.AcyclicImports
import SolidityFlattener.Proofs.Graph.RoundSequence
import SolidityFlattener.Proofs.Graph.Overtaking
import SolidityFlattener.Proofs.Graph.Rearranging
import SolidityFlattener.Proofs.Graph.LevelAssignment
import SolidityFlattener.Proofs.Text.Lines
import SolidityFlattener.Proofs.Source.Scan
import SolidityFlattener.Proofs.Path
import SolidityFlattener.Proofs.Artifact.FlatText
import SolidityFlattener.Proofs.Run.BasesFirst
import SolidityFlattener.Proofs.Artifact.Labels
import SolidityFlattener.Proofs.Artifact.Targets
import SolidityFlattener.Proofs.Artifact.FlatLines
import SolidityFlattener.Proofs.Artifact.Reflattening
import SolidityFlattener.Proofs.Run.Artifacts
import SolidityFlattener.Proofs.Tree.Access
import SolidityFlattener.Proofs.Imports.BreadthFirst
import SolidityFlattener.Proofs.Imports.FirstFailure
import SolidityFlattener.Proofs.Imports.Refusals
import SolidityFlattener.Proofs.Run.Batches
import SolidityFlattener.Proofs.Tree.Advance
import SolidityFlattener.Proofs.Tree.Lookups
import SolidityFlattener.Proofs.Tree.Growth
import SolidityFlattener.Proofs.Tree.Making
import SolidityFlattener.Proofs.Tree.Beside
import SolidityFlattener.Proofs.Tree.Outlines
import SolidityFlattener.Proofs.Imports.TwoSites
import SolidityFlattener.Proofs.Source.Slots
import SolidityFlattener.Proofs.Run.Reads
import SolidityFlattener.Proofs.Run.Respelling
import SolidityFlattener.Proofs.Run.Effects
import SolidityFlattener.Proofs.Run.Footprint
import SolidityFlattener.Proofs.Run.TargetsApart
import SolidityFlattener.Proofs.Graph.History
import SolidityFlattener.Proofs.Artifact.SourceContent
import SolidityFlattener.Proofs.Tree.Straight
import SolidityFlattener.Proofs.Tree.Additions
import SolidityFlattener.Proofs.Imports.RootFiles
import SolidityFlattener.Proofs.Run.DerivedPlaces
import SolidityFlattener.Proofs.Run.Succession
import SolidityFlattener.Proofs.Run.DirectoryRun
import SolidityFlattener.Proofs.Run.Overwriting
import SolidityFlattener.Proofs.Run.RunAgain
import SolidityFlattener.Proofs.Graph.Relabelling
import SolidityFlattener.Proofs.Artifact.Relocation
import SolidityFlattener.Proofs.Text.Numerals
import SolidityFlattener.Proofs.Document.JsonScalars
import SolidityFlattener.Proofs.Document.JsonDocuments
import SolidityFlattener.Proofs.Run.BatchFile
import SolidityFlattener.Proofs.Run.MistypedTargets
import SolidityFlattener.Proofs.Run.ExitStatus
import SolidityFlattener.Proofs.Run.CompilerConfig
import SolidityFlattener.Proofs.Run.WrittenSettings
import SolidityFlattener.Proofs.Run.ReadBack
import SolidityFlattener.Proofs.Graph.FirstImports
import SolidityFlattener.Proofs.Imports.DiscoveryOrder
import SolidityFlattener.Proofs.Imports.FoundDepths
import SolidityFlattener.Proofs.Source.Cuts
import SolidityFlattener.Proofs.Source.BaseList
import SolidityFlattener.Proofs.Source.Insertions
import SolidityFlattener.Proofs.Source.Layouts
import SolidityFlattener.Proofs.Source.Declarations
import SolidityFlattener.Proofs.Run.Halves
import SolidityFlattener.Proofs.Run.LineBreaks
import SolidityFlattener.Proofs.Graph.Linking
import SolidityFlattener.Proofs.Tree.Depth
import SolidityFlattener.Proofs.Imports.Listing
import SolidityFlattener.Proofs.Imports.Candidates
