import Overlay.Peers.Ranked
import Overlay.Metric

/-!
The neighborhood of a node: the nodes that its metric ranks nearest, up to a bound. A new copy of a
member takes the place of the old one before it is ranked, so that a changed sample moves it.
-/

namespace Overlay

open Keyspace (Id)

structure Neighborhood where
  origin : Node
  metric : Metric
  /-- Bound on the number of members. -/
  capacity : Nat
  members : List Node
  deriving DecidableEq

namespace Neighborhood

def empty (origin : Node) (metric : Metric) (capacity : Nat) : Neighborhood :=
  { origin, metric, capacity, members := [] }

def find? (s : Neighborhood) (id : Id) : Option Node := s.members.find? (·.id = id)

def contains (s : Neighborhood) (id : Id) : Bool := s.members.any (·.id = id)

def erase (s : Neighborhood) (id : Id) : Neighborhood :=
  { s with members := s.members.eraseP (·.id = id) }

/-- Offers a node for membership and tells whether the set changed. -/
def offer (s : Neighborhood) (n : Node) : Neighborhood × Bool :=
  if n.id = s.origin.id then (s, false)
  else
    let others := s.erase n.id
    let (members, taken) := Ranked.offer (s.metric.nearer s.origin) s.capacity n others.members
    ({ s with members }, taken || s.contains n.id)

end Neighborhood

end Overlay
