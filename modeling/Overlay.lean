import Overlay.Main
import Overlay.Keyspace.Hashed
import Overlay.Service.Session
import Overlay.Proofs.Config
import Overlay.Proofs.Keyspace.Order
import Overlay.Proofs.Keyspace.Prefix
import Overlay.Proofs.Keyspace.Ring
import Overlay.Proofs.Metric
import Overlay.Proofs.Metric.Samples
import Overlay.Proofs.Number.Rounding
import Overlay.Proofs.Peers.Ranked
import Overlay.Proofs.Peers.Roster
import Overlay.Proofs.Peers.History
import Overlay.Proofs.Peers.PrefixTable
import Overlay.Proofs.Peers.LeafSet
import Overlay.Proofs.Peers.Halves
import Overlay.Proofs.Peers.Territory
import Overlay.Proofs.Peers.Neighborhood
import Overlay.Proofs.Peers.Coherence
import Overlay.Proofs.Peers.Churn
import Overlay.Proofs.Service.Request
import Overlay.Proofs.Service.Worker
import Overlay.Proofs.Service.Running
import Overlay.Proofs.Service.Ledger
import Overlay.Proofs.Service.Balance
import Overlay.Proofs.Service.Stalling
import Overlay.Proofs.Service.Shutdown
import Overlay.Proofs.Peers.Ownership
import Overlay.Proofs.Peers.Gaps
import Overlay.Proofs.Service.Conservation
import Overlay.Proofs.Peers.Introductions
import Overlay.Proofs.Cluster.Members
import Overlay.Proofs.Cluster.Shape
import Overlay.Proofs.Keyspace.Digits
import Overlay.Proofs.Peers.NextHop
import Overlay.Proofs.Keyspace.Text
import Overlay.Proofs.Peers.Remeasured
import Overlay.Proofs.Service.Callers
import Overlay.Proofs.Service.Tickets
import Overlay.Proofs.Keyspace.CommonPrefix
import Overlay.Proofs.Keyspace.Distance
import Overlay.Proofs.Keyspace.Position
import Overlay.Proofs.Peers.Reach
import Overlay.Proofs.Peers.Rows
import Overlay.Proofs.Peers.Placement
import Overlay.Proofs.Peers.Regions
import Overlay.Proofs.Peers.Displacement
import Overlay.Proofs.Keyspace.Hashed
import Overlay.Proofs.Keyspace.Lexicographic
import Overlay.Proofs.Cluster.Growth
import Overlay.Proofs.Keyspace.Checked
import Overlay.Proofs.Environment
