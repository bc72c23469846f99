import Routing.Main
import Routing.Record
import Routing.Decimal.Shortest
import Routing.Decimal.Text
import Routing.Files.Disk
import Routing.Proofs.Lifecycle.Discipline
import Routing.Proofs.Meaning.Rules
import Routing.Proofs.Compile.Housed
import Routing.Proofs.Lifecycle.Sources
import Routing.Proofs.Lifecycle.Destinations
import Routing.Proofs.Compile.Heads
import Routing.Proofs.Lifecycle.Capabilities
import Routing.Proofs.Lifecycle.States
import Routing.Proofs.Compile.Holding
import Routing.Proofs.Compile.Outcomes
import Routing.Proofs.Compile.Returns
import Routing.Proofs.Lifecycle.FlowControl
import Routing.Proofs.Document.Made
import Routing.Proofs.Document.Built
import Routing.Proofs.Document.Contents
import Routing.Proofs.Document.Drivers
import Routing.Proofs.Lifecycle.Builtins
import Routing.Proofs.Compile.Spared
import Routing.Proofs.Document.Provided
import Routing.Proofs.Document.Faults
import Routing.Proofs.Document.Located
import Routing.Proofs.Compile.Inferred
import Routing.Proofs.Lifecycle.Entries
import Routing.Proofs.Lifecycle.Registration
import Routing.Proofs.Lifecycle.CatchAll
import Routing.Proofs.Compile.Mixed
import Routing.Proofs.Compile.Plain
import Routing.Proofs.Compile.Alike
import Routing.Proofs.Compile.Whereabouts
import Routing.Proofs.Compile.Copies
import Routing.Proofs.Compile.Unplaced
import Routing.Proofs.Compile.Visits
import Routing.Proofs.Compile.Bound
import Routing.Proofs.Document.Faithful
import Routing.Proofs.Lifecycle.Bindings
import Routing.Proofs.Document.Lines
import Routing.Proofs.Stage.Expansion
import Routing.Proofs.Stage.Pairs
import Routing.Proofs.Stage.Ledger
import Routing.Proofs.Graph.Views
import Routing.Proofs.Compile.Segments
