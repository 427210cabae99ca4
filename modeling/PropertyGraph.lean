import PropertyGraph.Diagnostics
import PropertyGraph.Graph.Iterator
import PropertyGraph.Graph.Observing
import PropertyGraph.Lock.Workers
import PropertyGraph.Proofs.Adjacency
import PropertyGraph.Proofs.Arena.Blocks
import PropertyGraph.Proofs.Arena.Reclamation
import PropertyGraph.Proofs.Atomicity
import PropertyGraph.Proofs.Binding
import PropertyGraph.Proofs.Clearing
import PropertyGraph.Proofs.Connections
import PropertyGraph.Proofs.Counters
import PropertyGraph.Proofs.Freeze.Iterators
import PropertyGraph.Proofs.Groups.Dissolving
import PropertyGraph.Proofs.Groups.Regrouping
import PropertyGraph.Proofs.Groups.StandIns
import PropertyGraph.Proofs.LabelIds
import PropertyGraph.Proofs.LabelsInUse
import PropertyGraph.Proofs.Lock.Holds
import PropertyGraph.Proofs.Lock.Waiting
import PropertyGraph.Proofs.Observing.Protocol
import PropertyGraph.Proofs.Observing.Replay
import PropertyGraph.Proofs.Reinsertion
import PropertyGraph.Proofs.Retention
import PropertyGraph.Proofs.SameVersionChange
import PropertyGraph.Proofs.ViewClosure
import PropertyGraph.Proofs.Views.Algebra
import PropertyGraph.Proofs.Views.Lifecycle
import PropertyGraph.Proofs.Views.Showing
import PropertyGraph.Proofs.Walks.IncidentEdges
import PropertyGraph.Proofs.Walks.Interleaved
import PropertyGraph.Proofs.Walks.RemovingFolded
import PropertyGraph.Value.Document
import PropertyGraph.Value.Text
