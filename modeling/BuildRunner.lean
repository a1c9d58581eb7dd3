import BuildRunner.Main
import BuildRunner.Registry.Job
import BuildRunner.Proofs.Registry.Dispatch
import BuildRunner.Proofs.Scan.Listing
import BuildRunner.Proofs.Scan.Decoding
import BuildRunner.Proofs.Path.Components
import BuildRunner.Proofs.Tree.WellFormed
import BuildRunner.Proofs.Tree.Walk
import BuildRunner.Proofs.Scan.Candidates
import BuildRunner.Proofs.World.WellFormed
import BuildRunner.Action.Procedure
import BuildRunner.Proofs.Registry.Registration
import BuildRunner.Proofs.Registry.Nesting
import BuildRunner.Proofs.Action.Silent
import BuildRunner.Proofs.Registry.Limit
import BuildRunner.Proofs.Tree.Follow
import BuildRunner.Proofs.World.Frame
import BuildRunner.Proofs.Session.Final
import BuildRunner.Proofs.Action.Frame
import BuildRunner.Proofs.Registry.Frame
import BuildRunner.Proofs.Action.Closed
import BuildRunner.Proofs.Path.Join
import BuildRunner.Proofs.Path.Prefix
import BuildRunner.Proofs.Tree.Steps
import BuildRunner.Proofs.World.Paths
import BuildRunner.Proofs.Session.Alike
import BuildRunner.Proofs.Session.Guarantee
import BuildRunner.Proofs.World.Directories
import BuildRunner.Proofs.World.Executable
import BuildRunner.Proofs.Action.Docs
import BuildRunner.Proofs.Registry.All
import BuildRunner.Proofs.Registry.Guard
import BuildRunner.Proofs.Action.Tools
import BuildRunner.Proofs.CommandLine.Startup
import BuildRunner.Proofs.CommandLine.Outcome
import BuildRunner.Proofs.Action.Sources
import BuildRunner.Proofs.Registry.Invariant
import BuildRunner.Proofs.Registry.Pages
import BuildRunner.Proofs.Settings.Merge
import BuildRunner.Proofs.Settings.Variable
import BuildRunner.Proofs.Settings.Decode
import BuildRunner.Proofs.Settings.Precedence
import BuildRunner.Proofs.Scan.Marker
import BuildRunner.Proofs.CommandLine.Scanners
import BuildRunner.Proofs.CommandLine.Help
import BuildRunner.Proofs.Scan.Extraction
import BuildRunner.Proofs.Scan.Limit
import BuildRunner.Proofs.Action.ManualPages
import BuildRunner.Proofs.World.Files
import BuildRunner.Proofs.Action.Targets
import BuildRunner.Proofs.Path.Parent
import BuildRunner.Proofs.Action.Site
import BuildRunner.Proofs.Action.Rendering
import BuildRunner.Proofs.Action.Clean
import BuildRunner.Proofs.Registry.Help
import BuildRunner.Proofs.Settings.Change
import BuildRunner.Proofs.Settings.Reordering
import BuildRunner.Proofs.Settings.Ignored
import BuildRunner.Proofs.Scan.Selection
import BuildRunner.Proofs.Settings.Location
import BuildRunner.Proofs.CommandLine.ScanArguments
import BuildRunner.Proofs.Context
