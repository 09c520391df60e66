import Overlay.Cluster.Member
import Overlay.Peers

/-!
A cluster in which every member has been told of every other, and what is measured in it: the sizes
of what the members know, and for random keys how many members hold themselves to be the final
destination.
-/

namespace Overlay

open Randomness (Stream)
open Keyspace (Id)

-- Sums start at the zero of the core library, whatever else is imported.
attribute [local instance (high)] Zero.ofOfNat0

structure Cluster where
  plan : Cluster.Plan
  metric : Metric
  members : List Cluster.Member
  /-- The stream that the members were drawn from. -/
  stream : Stream
  /-- The place in the stream behind the members. -/
  place : Nat

namespace Cluster

/-- Generates the cluster of a plan, given the streams of all seeds. A stream that does not lead to
enough members within its period never will. -/
def generateFrom (streams : UInt64 → Stream) (plan : Plan) : Except Error Cluster := do
  let metric ← plan.check
  let stream := streams plan.seed
  match drawMembers? stream plan.routing.space plan.regions plan.nodes with
  | some (members, place) => return { plan, metric, members, stream, place }
  | none => throw (.config (.barrenSeed plan.seed.toNat))

def generate (plan : Plan) : Except Error Cluster := generateFrom Randomness.ChaCha.stream plan

/-- What a member knows once it has been told of all others in turn. -/
def settled (c : Cluster) (m : Member) : Peers :=
  (c.members.filter fun other => other.node.id ≠ m.node.id).foldl
    (fun peers other => (peers.insert (m.sees other)).1)
    (.empty m.node c.metric c.plan.routing)

/-- The keys that are probed: they continue the stream of the members. -/
def keys (c : Cluster) : List Id :=
  (List.range c.plan.probes).map fun i =>
    Id.ofWord (Randomness.quadruple c.stream (c.place + 4 * i)) c.plan.routing.space

inductive Event where
  | joining (nodes seed : Nat)
  | settled (id : Id) (stats : Stats)
  | unowned (key : Id)
  deriving DecidableEq

def Event.line : Event → String
  | .joining nodes seed => s!"INFO joining cluster nodes={nodes} seed={seed}"
  | .settled id stats => s!"DEBUG table settled node={id.text} stats={stats.text}"
  | .unowned key => s!"WARN no node claims key key={key.text}"

/-- What a run measured. Of entries, columns and neighbors the totals over all nodes are kept. -/
structure Report where
  nodes : Nat
  entries : Nat
  firstRow : Nat
  neighbors : Nat
  fewestLeaves : Nat
  mostLeaves : Nat
  probes : Nat
  unowned : Nat
  mostOwners : Nat
  deriving DecidableEq

namespace Report

def mean (r : Report) (total : Nat) : Number.Binary64 := .ofQuotient total r.nodes

/-- The lines of a report; means have one place. -/
def text (r : Report) : String :=
  let tenths (total : Nat) := (r.mean total).roundedText 1
  s!"nodes:              {r.nodes}\n" ++
  s!"table entries:      {tenths r.entries} avg\n" ++
  s!"row 0 columns:      {tenths r.firstRow} avg\n" ++
  s!"leaf set size:      {r.fewestLeaves}..={r.mostLeaves}\n" ++
  s!"neighborhood size:  {tenths r.neighbors} avg\n" ++
  s!"responsibility:     {r.probes - r.unowned}/{r.probes} keys owned, " ++
  s!"at most {r.mostOwners} owners per key"

end Report

def run (c : Cluster) : Report × List Event :=
  let known := c.members.map fun m => (m.node.id, c.settled m)
  let stats := known.map fun (id, peers) => (id, peers.stats)
  let territories := known.map fun (_, peers) => peers.leaves.territory
  let owners := c.keys.map fun key => (key, territories.countP (·.contains key))
  let unowned := (owners.filter fun (_, count) => count = 0).map (·.1)
  let leaves := stats.map (·.2.leaves)
  ({ nodes := c.members.length
     entries := (stats.map (·.2.entries)).sum
     firstRow := (stats.map (·.2.occupied.headD 0)).sum
     neighbors := (stats.map (·.2.neighbors)).sum
     fewestLeaves := leaves.min?.getD 0
     mostLeaves := leaves.max?.getD 0
     probes := c.plan.probes
     unowned := unowned.length
     mostOwners := (owners.map (·.2)).max?.getD 0 },
    .joining c.members.length c.plan.seed.toNat ::
      (stats.map fun (id, s) => .settled id s) ++ unowned.map .unowned)

end Cluster

end Overlay
