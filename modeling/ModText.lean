import ModText.Json.Printer
import ModText.Code.Cursor
import ModText.Code.Format
import ModText.Record.Format
import ModText.Record.Grouping
import ModText.Extraction
import ModText.Glob
import ModText.Disk.Workspace
import ModText.Disk.Change
import ModText.Failure
import ModText.Mod.Properties
import ModText.Mod.Folder
import ModText.Mod.Bundle
import ModText.Output.Dump
import ModText.Config
import ModText.Cli.Command
import ModText.Main
import ModText.Proofs.Json.Grammar
import ModText.Proofs.Json.Printing
import ModText.Proofs.Json.Structures
import ModText.Proofs.Json.Latitude
import ModText.Proofs.Json.Choice
import ModText.Proofs.Code.Ancestors
import ModText.Proofs.Code.Chains
import ModText.Proofs.Code.DepthFirst
import ModText.Proofs.Code.RoundTrip
import ModText.Proofs.Code.Restatement
import ModText.Proofs.Extraction.Selection
import ModText.Proofs.Extraction.Bodies
import ModText.Proofs.Idiom.Code
import ModText.Proofs.Idiom.Quiet
import ModText.Proofs.Idiom.Units
import ModText.Proofs.Idiom.Recovery
import ModText.Proofs.Idiom.Origin
import ModText.Proofs.Idiom.Positions
import ModText.Proofs.Idiom.Registrations
import ModText.Proofs.Idiom.Messages
import ModText.Proofs.Idiom.Lookup
import ModText.Proofs.Idiom.LastTexts
import ModText.Proofs.Idiom.Lines
import ModText.Proofs.Idiom.Words
import ModText.Proofs.Extraction.Alike
import ModText.Proofs.Extraction.Padding
import ModText.Proofs.Extraction.Spelling
import ModText.Proofs.Disk.Paths
import ModText.Proofs.Disk.Walks
import ModText.Proofs.Disk.Resolution
import ModText.Proofs.Disk.Growth
import ModText.Proofs.Disk.Views
import ModText.Proofs.Disk.Again
import ModText.Proofs.Disk.Beside
import ModText.Proofs.Disk.Straight
import ModText.Proofs.Disk.Creation
import ModText.Proofs.Record.Groups
import ModText.Proofs.Record.RoundTrip
import ModText.Proofs.Text.Lines
import ModText.Proofs.Mod.Assignments
import ModText.Proofs.Output.Steps
import ModText.Proofs.Output.Plan
import ModText.Proofs.Extraction.TypeOrder
import ModText.Proofs.Output.Checks
import ModText.Proofs.Output.Confinement
import ModText.Proofs.Output.Tree
import ModText.Proofs.Output.Stopping
import ModText.Proofs.Output.Copies
import ModText.Proofs.Output.Guard
import ModText.Proofs.Output.Groups
import ModText.Proofs.Mod.Listing
import ModText.Proofs.Mod.Payload
import ModText.Proofs.Mod.NormalForm
import ModText.Proofs.Output.Sources
import ModText.Proofs.Output.Repetition
import ModText.Proofs.Output.Reopening
import ModText.Proofs.Output.Beside
import ModText.Proofs.Config.Validation
import ModText.Proofs.Config.RoundTrip
import ModText.Proofs.Config.Partial
import ModText.Proofs.Config.Search
import ModText.Proofs.Cli.Loading
import ModText.Proofs.Cli.Summary
import ModText.Proofs.Cli.Initialization
