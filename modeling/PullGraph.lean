import PullGraph.Backoff
import PullGraph.Behavior
import PullGraph.Decimal.Shortest
import PullGraph.Describe
import PullGraph.Duration
import PullGraph.Fault
import PullGraph.Graph.Basic
import PullGraph.Graph.Build
import PullGraph.Graph.Describe
import PullGraph.Graph.Lifecycle
import PullGraph.Graph.Port
import PullGraph.Graph.Validate
import PullGraph.Journal
import PullGraph.Json.Config
import PullGraph.Json.Numeral
import PullGraph.Json.Problem
import PullGraph.Json.Reader
import PullGraph.Json.Writer
import PullGraph.Kind
import PullGraph.Message
import PullGraph.Proofs.Abreast
import PullGraph.Proofs.Acceptance
import PullGraph.Proofs.Attribution
import PullGraph.Proofs.Batches
import PullGraph.Proofs.Building
import PullGraph.Proofs.Bystanders
import PullGraph.Proofs.Cancellation
import PullGraph.Proofs.Chain
import PullGraph.Proofs.Closing
import PullGraph.Proofs.Connecting
import PullGraph.Proofs.Counters
import PullGraph.Proofs.Delivery
import PullGraph.Proofs.Diagnosis
import PullGraph.Proofs.EndOfStream
import PullGraph.Proofs.Entries
import PullGraph.Proofs.Events
import PullGraph.Proofs.Exchange
import PullGraph.Proofs.Finalization
import PullGraph.Proofs.Flow
import PullGraph.Proofs.Freezing
import PullGraph.Proofs.Grammar
import PullGraph.Proofs.Heedless
import PullGraph.Proofs.Independence
import PullGraph.Proofs.Latches
import PullGraph.Proofs.Ledger
import PullGraph.Proofs.Lexemes
import PullGraph.Proofs.Lifetime
import PullGraph.Proofs.Line
import PullGraph.Proofs.Lockstep
import PullGraph.Proofs.Meaning
import PullGraph.Proofs.Mirror
import PullGraph.Proofs.Naming
import PullGraph.Proofs.Peers
import PullGraph.Proofs.Prelude
import PullGraph.Proofs.Pulling
import PullGraph.Proofs.Reach
import PullGraph.Proofs.Reading
import PullGraph.Proofs.Registration
import PullGraph.Proofs.Reporting
import PullGraph.Proofs.RoundTrip
import PullGraph.Proofs.Rounds
import PullGraph.Proofs.Safety
import PullGraph.Proofs.Schedule
import PullGraph.Proofs.Schema
import PullGraph.Proofs.Stages
import PullGraph.Proofs.Stalling
import PullGraph.Proofs.Stepping
import PullGraph.Proofs.Steps
import PullGraph.Proofs.Streams
import PullGraph.Proofs.Supply
import PullGraph.Proofs.Tandem
import PullGraph.Proofs.Termination
import PullGraph.Proofs.Topology
import PullGraph.Proofs.Twins
import PullGraph.Proofs.Validation
import PullGraph.Proofs.Wiring
import PullGraph.Query
import PullGraph.Registry
import PullGraph.Run.Loop
import PullGraph.Run.Pull
import PullGraph.Run.Round
import PullGraph.RunConfig
import PullGraph.Schema
import PullGraph.Scripted.Bench
import PullGraph.Scripted.Component
import PullGraph.Scripted.Stock
import PullGraph.Settings
import PullGraph.Standard
import PullGraph.Text.Printable
import PullGraph.Text.Quoted
import PullGraph.Version
import PullGraph.Word
import PullGraph.Proofs.Counting
import PullGraph.Proofs.Profile
import PullGraph.Proofs.Waits
import PullGraph.Proofs.Loading
import PullGraph.Proofs.Declaration
import PullGraph.Proofs.Idling
