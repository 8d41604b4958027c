import ModuleLoader.Text.Position
import ModuleLoader.Text.Quoted
import ModuleLoader.Decimal.Shortest
import ModuleLoader.Value
import ModuleLoader.Stock
import ModuleLoader.Cell
import ModuleLoader.Script.Token
import ModuleLoader.Script.Parse
import ModuleLoader.Script.Body
import ModuleLoader.Script.Declarations
import ModuleLoader.Text.Utf8
import ModuleLoader.Url.Percent
import ModuleLoader.Url.Address
import ModuleLoader.Url.Punycode
import ModuleLoader.Url.Basic
import ModuleLoader.Url.Parse
import ModuleLoader.Url.FilePath
import ModuleLoader.Base64
import ModuleLoader.Library
import ModuleLoader.Files
import ModuleLoader.LoadError
import ModuleLoader.Location
import ModuleLoader.Source
import ModuleLoader.Toml.Document
import ModuleLoader.Config
import ModuleLoader.Graph.Unit
import ModuleLoader.Graph.Evaluate
import ModuleLoader.Graph.Instantiate
import ModuleLoader.Resolve.Limiter
import ModuleLoader.Resolve.Resolver
import ModuleLoader.Loader.Job
import ModuleLoader.Loader.ModuleMap
import ModuleLoader.Loader.State
import ModuleLoader.Loader.Step
import ModuleLoader.Loader.Schedule
import ModuleLoader.Loader.World
import ModuleLoader.Proofs.Grammar
import ModuleLoader.Proofs.Parsing
import ModuleLoader.Proofs.Encoding
import ModuleLoader.Proofs.Requests
import ModuleLoader.Proofs.Rules
import ModuleLoader.Proofs.Keeping
import ModuleLoader.Proofs.JobSteps
import ModuleLoader.Proofs.MapSteps
import ModuleLoader.Proofs.Awaiting
import ModuleLoader.Proofs.ModuleMap
import ModuleLoader.Proofs.Format
import ModuleLoader.Proofs.Components
import ModuleLoader.Proofs.Instantiation
import ModuleLoader.Proofs.Evaluation
import ModuleLoader.Proofs.UnitSteps
import ModuleLoader.Proofs.Wiring
import ModuleLoader.Proofs.Members
import ModuleLoader.Proofs.DepthFirst
import ModuleLoader.Proofs.Phases
import ModuleLoader.Proofs.Searches
import ModuleLoader.Proofs.Turns
import ModuleLoader.Proofs.EvaluationOrder
import ModuleLoader.Proofs.Names
import ModuleLoader.Proofs.Binding
import ModuleLoader.Proofs.Consistency
import ModuleLoader.Proofs.Assembly
import ModuleLoader.Proofs.InstantiationOrder
import ModuleLoader.Proofs.Causes
import ModuleLoader.Proofs.Deeds
import ModuleLoader.Proofs.Links
import ModuleLoader.Proofs.Acyclic
import ModuleLoader.Proofs.Alike
import ModuleLoader.Proofs.Bodies
import ModuleLoader.Proofs.Outcomes
import ModuleLoader.Proofs.Projects
import ModuleLoader.Proofs.Lives
import ModuleLoader.Proofs.LifeCycle
import ModuleLoader.Proofs.Ownership
import ModuleLoader.Proofs.Permits
import ModuleLoader.Proofs.Standing
import ModuleLoader.Proofs.Progress
import ModuleLoader.Proofs.Following
import ModuleLoader.Proofs.Calm
import ModuleLoader.Proofs.Histories
import ModuleLoader.Proofs.Primed
import ModuleLoader.Proofs.Importing
import ModuleLoader.Proofs.Schedules
import ModuleLoader.Proofs.Probing
import ModuleLoader.Proofs.FileUrls
import ModuleLoader.Proofs.Paths
import ModuleLoader.Proofs.Extensions
import ModuleLoader.Proofs.FoundFiles
import ModuleLoader.Proofs.Sizes
import ModuleLoader.Proofs.DataUrls
import ModuleLoader.Proofs.Discovery
import ModuleLoader.Proofs.Exploring
import ModuleLoader.Proofs.Remaining
import ModuleLoader.Proofs.Termination
import ModuleLoader.Proofs.Membership
import ModuleLoader.Proofs.WalkOrder
import ModuleLoader.Proofs.Facades
import ModuleLoader.Proofs.LiveExports
import ModuleLoader.Proofs.LibraryNames
import ModuleLoader.Proofs.Executors
import ModuleLoader.Proofs.Lexemes
import ModuleLoader.Proofs.Scanning
import ModuleLoader.Proofs.DataBodies
import ModuleLoader.Proofs.EvalModule
import ModuleLoader.Proofs.EndPosition
import ModuleLoader.Proofs.Declaring
import ModuleLoader.Proofs.BoundNames
import ModuleLoader.Proofs.ParseRows
import ModuleLoader.Proofs.Lookahead
import ModuleLoader.Proofs.Completions
import ModuleLoader.Proofs.SyntaxErrors
