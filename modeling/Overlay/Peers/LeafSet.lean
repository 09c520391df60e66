import Overlay.Node
import Overlay.Peers.Ranked

/-!
The leaf set of an identifier: the nodes nearest to it on the ring, up to a bound in each of two
halves. A node belongs to the half below or above the origin by the order of identifiers, and is
ranked within its half by circular distance, so a node just across the wrap point is near although
its half is the far one. The set decides for which keys its owner is the final destination.
-/

namespace Overlay

open Keyspace (Id)

/-- Nodes near an origin, nearest first in each half. -/
structure LeafSet where
  origin : Id
  /-- Bound on the length of each half. -/
  capacity : Nat
  /-- Members whose identifiers precede the origin. -/
  below : List Node
  /-- Members whose identifiers follow the origin. -/
  above : List Node
  deriving DecidableEq

namespace LeafSet

def empty (origin : Id) (capacity : Nat) : LeafSet := { origin, capacity, below := [], above := [] }

/-- `a` ranks before `b`: it is nearer to the origin, or as near and precedes `b`. -/
def closer (origin a b : Id) : Bool :=
  ((compare (origin.distance a) (origin.distance b)).then (a.order b)).isLT

/-- Offers a node to one half. The copy of a member is exchanged where it stands, since a rank
depends on the identifier alone. -/
def offerHalf (origin : Id) (capacity : Nat) (n : Node) (half : List Node) : List Node × Bool :=
  if half.any (·.id = n.id) then (half.map fun m => if m.id = n.id then n else m, true)
  else Ranked.offer (fun a b => closer origin a.id b.id) capacity n half

/-- Offers a node for membership and tells whether it is a member afterwards. -/
def offer (s : LeafSet) (n : Node) : LeafSet × Bool :=
  if n.id = s.origin then (s, false)
  else if n.id.precedes s.origin then
    let (below, taken) := offerHalf s.origin s.capacity n s.below
    ({ s with below }, taken)
  else
    let (above, taken) := offerHalf s.origin s.capacity n s.above
    ({ s with above }, taken)

def members (s : LeafSet) : List Node := s.below ++ s.above

def find? (s : LeafSet) (id : Id) : Option Node := s.members.find? (·.id = id)

def contains (s : LeafSet) (id : Id) : Bool := s.members.any (·.id = id)

def erase (s : LeafSet) (id : Id) : LeafSet :=
  if s.below.any (·.id = id) then { s with below := s.below.eraseP (·.id = id) }
  else { s with above := s.above.eraseP (·.id = id) }

def size (s : LeafSet) : Nat := s.below.length + s.above.length

def isEmpty (s : LeafSet) : Bool := s.below.isEmpty && s.above.isEmpty

/-- A clockwise stretch of the ring, both ends included. -/
structure Arc where
  start : Id
  stop : Id
  deriving DecidableEq

namespace Arc

/-- Extends an arc through the origin to a member: at its clockwise end if the member is no farther
clockwise than counter-clockwise, and at the other end if it is. -/
def extend (origin : Id) (arc : Arc) (m : Id) : Arc :=
  let clockwise := origin.clockwise m
  let counter := m.clockwise origin
  if clockwise ≤ counter then
    if origin.clockwise arc.stop < clockwise then { arc with stop := m } else arc
  else if arc.start.clockwise origin < counter then { arc with start := m }
  else arc

def contains (arc : Arc) (id : Id) : Bool :=
  decide (arc.start.clockwise id ≤ arc.start.clockwise arc.stop)

end Arc

def arc (s : LeafSet) : Arc :=
  (s.members.map (·.id)).foldl (Arc.extend s.origin) { start := s.origin, stop := s.origin }

/-- The keys whose final destination a node is. -/
inductive Territory where
  | everything
  | within (arc : Arc)
  deriving DecidableEq

def Territory.contains : Territory → Id → Bool
  | .everything, _ => true
  | .within arc, key => arc.contains key

/-- The territory of the origin: all keys if it is alone, and else those on the arc of its
members. -/
def territory (s : LeafSet) : Territory := if s.isEmpty then .everything else .within s.arc

def covers (s : LeafSet) (key : Id) : Bool := s.territory.contains key

end LeafSet

end Overlay
