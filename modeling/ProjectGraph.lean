import ProjectGraph.Main
import ProjectGraph.Session.Operations
import ProjectGraph.Proofs.Build.Runs
import ProjectGraph.Proofs.Container.Effects
import ProjectGraph.Proofs.Selection
import ProjectGraph.Proofs.Dependency.Identity
import ProjectGraph.Proofs.Dependency.Content
import ProjectGraph.Proofs.Worklist
import ProjectGraph.Proofs.Build.Edges
import ProjectGraph.Proofs.Closure.History
import ProjectGraph.Proofs.Closure.BreadthFirst
import ProjectGraph.Proofs.Closure.Equation
import ProjectGraph.Proofs.Closure.Chains
import ProjectGraph.Proofs.TaskSet.Walk
import ProjectGraph.Proofs.TaskSet.Nodes
import ProjectGraph.Proofs.TaskSet.Reachability
import ProjectGraph.Proofs.TaskSet.Union
import ProjectGraph.Proofs.TaskSet.Flags
import ProjectGraph.Proofs.Closure.Excluded
import ProjectGraph.Proofs.Closure.Failures
import ProjectGraph.Proofs.Closure.Files
import ProjectGraph.Proofs.Closure.Gathered
import ProjectGraph.Proofs.Expansion
import ProjectGraph.Proofs.Closure.Notices
import ProjectGraph.Proofs.Closure.Attained
import ProjectGraph.Proofs.Closure.Held
import ProjectGraph.Proofs.Container.Hierarchy
import ProjectGraph.Proofs.Container.Unfolding
import ProjectGraph.Proofs.Container.Rebuilding
import ProjectGraph.Proofs.Build.Reordered
import ProjectGraph.Proofs.Closure.OrderFree
import ProjectGraph.Proofs.TaskSet.Derivation
import ProjectGraph.Proofs.TaskSet.ResolvedFiles
import ProjectGraph.Proofs.Path.Written
import ProjectGraph.Proofs.BuildFile.Decoded
import ProjectGraph.Proofs.BuildFile.Loaded
import ProjectGraph.Proofs.CommandLine.Tasks
import ProjectGraph.Proofs.CommandLine.Check
import ProjectGraph.Proofs.Build.Growth
import ProjectGraph.Proofs.Store.Runs
import ProjectGraph.Proofs.TaskSet.Notices
import ProjectGraph.Proofs.BuildFile.Exact
import ProjectGraph.Proofs.Build.Reporters
import ProjectGraph.Proofs.CommandLine.Modes
import ProjectGraph.Proofs.Json.Recovered
import ProjectGraph.Proofs.Json.RoundTrip
import ProjectGraph.Proofs.Path.Spelling
import ProjectGraph.Proofs.Dependency.Notation
import ProjectGraph.Proofs.Path.Steps
import ProjectGraph.Proofs.Store.Naming
import ProjectGraph.Proofs.Closure.Shallow
import ProjectGraph.Proofs.Worklist.Taken
import ProjectGraph.Proofs.Closure.Taken
import ProjectGraph.Proofs.Container.Climbs
import ProjectGraph.Proofs.TaskSet.Expansions
import ProjectGraph.Proofs.Store.Walks
import ProjectGraph.Proofs.Store.Outlived
import ProjectGraph.Proofs.CommandLine.Overrides
import ProjectGraph.Proofs.OrderedLists
import ProjectGraph.Proofs.Path.Preorder
import ProjectGraph.Proofs.Build.Listing
