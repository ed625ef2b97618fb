import Checkup.Arguments
import Checkup.Arguments.Level
import Checkup.Arguments.Read
import Checkup.Calendar
import Checkup.Command
import Checkup.Command.Catalog
import Checkup.Config
import Checkup.Config.Defaults
import Checkup.Config.Load
import Checkup.Config.Merge
import Checkup.Config.Read
import Checkup.Config.Render
import Checkup.Config.Settings
import Checkup.Config.Tables
import Checkup.Config.Validation
import Checkup.Context
import Checkup.Context.Ancestry
import Checkup.Context.Registry
import Checkup.Decimal
import Checkup.Discovery
import Checkup.Distinct
import Checkup.Error
import Checkup.Evaluation
import Checkup.Evaluation.Stored
import Checkup.FileTree
import Checkup.FileTree.Access
import Checkup.FileTree.Locate
import Checkup.History
import Checkup.Install
import Checkup.Json.Reader
import Checkup.Json.Value
import Checkup.Json.Writer
import Checkup.Launch
import Checkup.Launch.Execution
import Checkup.Launch.Shell
import Checkup.Launch.Shell.Format
import Checkup.Launch.Shell.Syntax
import Checkup.Launch.Start
import Checkup.Launch.Utility
import Checkup.Logging
import Checkup.Logging.Directive
import Checkup.Main
import Checkup.OrderedMap
import Checkup.Path
import Checkup.Plan
import Checkup.Plan.Planner
import Checkup.Program
import Checkup.Program.CommandLine
import Checkup.Report.Commands
import Checkup.Report.Contexts
import Checkup.Report.Evaluations
import Checkup.Report.Installs
import Checkup.Report.Plans
import Checkup.Report.Setups
import Checkup.Report.Style
import Checkup.Report.Table
import Checkup.Run
import Checkup.Run.Window
import Checkup.Setup
import Checkup.Source
import Checkup.Text.Blank
import Checkup.Text.Digits
import Checkup.Text.Hex
import Checkup.Text.Lower
import Checkup.Text.Utf8
import Checkup.Text.Width
import Checkup.Toml.Char
import Checkup.Toml.DateTime
import Checkup.Toml.Number
import Checkup.Toml.Quoted
import Checkup.Toml.Reader
import Checkup.Toml.Table
import Checkup.Toml.Value
import Checkup.Toml.Writer
import Checkup.Proofs.Registry
import Checkup.Proofs.Ancestry
import Checkup.Proofs.Traversal
import Checkup.Proofs.Ownership
import Checkup.Proofs.Parents
import Checkup.Proofs.Planning
import Checkup.Proofs.Places
import Checkup.Proofs.Paths
import Checkup.Proofs.Entries
import Checkup.Proofs.Stamps
import Checkup.Proofs.Saving
import Checkup.Proofs.Maps
import Checkup.Proofs.Running
import Checkup.Proofs.Documents
import Checkup.Proofs.BuiltIn
import Checkup.Proofs.Rendering
import Checkup.Proofs.Registration
import Checkup.Proofs.Cycles
import Checkup.Proofs.Catalogs
import Checkup.Proofs.Merging
import Checkup.Proofs.Json
import Checkup.Proofs.Evaluations
import Checkup.Proofs.Writing
import Checkup.Proofs.Storing
import Checkup.Proofs.Dots
import Checkup.Proofs.Selection
import Checkup.Proofs.Pruning
import Checkup.Proofs.Saves
import Checkup.Proofs.WholeRuns
import Checkup.Proofs.Expansion
import Checkup.Proofs.Requests
import Checkup.Proofs.Precedence
import Checkup.Proofs.Repair
import Checkup.Proofs.Patches
import Checkup.Proofs.Widening
import Checkup.Proofs.Layering
import Checkup.Proofs.Resolution
import Checkup.Proofs.Identifiers
import Checkup.Proofs.OptingIn
import Checkup.Proofs.SourcePlans
import Checkup.Proofs.Verdicts
import Checkup.Proofs.Discovered
import Checkup.Proofs.Setups
import Checkup.Proofs.DistinctKeys
import Checkup.Proofs.Readings
import Checkup.Proofs.Ascents
import Checkup.Proofs.Containment
import Checkup.Proofs.Installing
import Checkup.Proofs.StampedNames
import Checkup.Proofs.Listings
import Checkup.Proofs.Numbering
