import Overlay.Config
import Overlay.Peers.LeafSet
import Overlay.Peers.Neighborhood
import Overlay.Peers.PrefixTable

/-!
What a node knows of its peers: its prefix table, its leaf set and its neighborhood, changed
together. The table decides what is known at all; the two sets are offered every node that the table
stores and lose every node that is evicted.
-/

namespace Overlay

open Keyspace (Id)

/-- The three structures of one node. -/
structure Peers where
  table : PrefixTable
  leaves : LeafSet
  neighborhood : Neighborhood

structure Stats where
  entries : Nat
  /-- Columns in use in each row of the table. -/
  occupied : List Nat
  leaves : Nat
  neighbors : Nat
  deriving DecidableEq

def Stats.text (s : Stats) : String :=
  let rows := s.occupied.countP (0 < ·)
  s!"RoutingTable: {s.entries} entries over {rows} rows, " ++
    s!"{s.leaves} leaves, {s.neighbors} neighbors"

namespace Peers

def empty (origin : Node) (metric : Metric) (config : Config) : Peers :=
  { table := .empty origin metric
    leaves := .empty origin.id config.leafCapacity
    neighborhood := .empty origin metric config.neighborhoodCapacity }

structure Insertion where
  placement : Placement
  inLeaves : Bool
  inNeighborhood : Bool
  deriving DecidableEq

/-- Stores a node. One that the table ignores is not offered to the sets either. -/
def insert (p : Peers) (n : Node) : Peers × Insertion :=
  let (table, placement) := p.table.insert n
  if placement = .ignored then (p, ⟨.ignored, false, false⟩)
  else
    let (leaves, inLeaves) := p.leaves.offer n
    let (neighborhood, inNeighborhood) := p.neighborhood.offer n
    ({ table, leaves, neighborhood }, ⟨placement, inLeaves, inNeighborhood⟩)

/-- Which structures an eviction removed a node from. -/
structure Eviction where
  fromTable : Bool
  fromLeaves : Bool
  fromNeighborhood : Bool
  deriving DecidableEq

def Eviction.isEmpty (e : Eviction) : Bool :=
  !(e.fromTable || e.fromLeaves || e.fromNeighborhood)

def evict (p : Peers) (id : Id) : Peers × Eviction :=
  ({ table := p.table.erase id, leaves := p.leaves.erase id,
     neighborhood := p.neighborhood.erase id },
   { fromTable := (p.table.find? id).isSome, fromLeaves := p.leaves.contains id,
     fromNeighborhood := p.neighborhood.contains id })

def stats (p : Peers) : Stats :=
  { entries := p.table.size, occupied := p.table.occupied, leaves := p.leaves.size,
    neighbors := p.neighborhood.members.length }

end Peers

end Overlay
