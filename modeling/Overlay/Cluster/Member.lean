import Overlay.Cluster.Plan
import Overlay.Randomness.Draw

/-!
The members of a generated cluster. Each has a place on a square plane, and the latency between two
of them is their distance. Members are drawn one after the other from one stream, so a smaller
cluster of the same seed is the beginning of a larger one.
-/

namespace Overlay.Cluster

open Number (Binary64)
open Randomness (Stream)
open Keyspace (Id Space)

-- Powers are those of the core library, whatever else is imported.
attribute [local instance (high)] instPowNat

/-- Side of the plane in milliseconds. -/
def side : Nat := 150

/-- A place on the plane; each coordinate counts steps of `side / 2 ^ 52` milliseconds. -/
structure Point where
  x : Nat
  y : Nat
  deriving DecidableEq

def milliseconds (steps : Nat) : Binary64 := .ofQuotient (side * steps) (2 ^ (52 : Nat))

/-- Distance of two points in whole milliseconds. Places, their differences and the hypotenuse are
binary64 numbers, each rounded before it is used. -/
def Point.distance (p q : Point) : Nat :=
  let dx := (milliseconds p.x).difference (milliseconds q.x)
  let dy := (milliseconds p.y).difference (milliseconds q.y)
  (dx.hypot dy).toNearestNat

structure Member where
  node : Node
  position : Point
  deriving DecidableEq

namespace Member

/-- Latency to another member, at least one millisecond. -/
def latencyTo (m other : Member) : Nat := max 1 (m.position.distance other.position)

def sees (m other : Member) : Node := other.node.withLatency (m.latencyTo other)

end Member

/-- An identifier that is not taken. Taken ones are passed over; the first argument bounds how many
draws are made. -/
def freshId? (w : Stream) (space : Space) (taken : List Id) : Nat → Nat → Option (Id × Nat)
  | 0, _ => none
  | tries + 1, place =>
    let id := Id.ofWord (Randomness.quadruple w place) space
    if taken.contains id then freshId? w space taken tries (place + 4)
    else some (id, place + 4)

def listenPort : Nat := 4000

def address (number : Nat) : Address := .ofWord (0x0a000000 ||| UInt32.ofNat (number + 1))

/-- Draws the member with the given number: its identifier, its region, then its place. -/
def drawMember? (w : Stream) (space : Space) (regions : List String) (taken : List Id)
    (number place : Nat) : Option (Member × Nat) := do
  let (id, place) ← freshId? w space taken Randomness.period place
  let (choice, place) ← Randomness.index? w regions.length Randomness.period place
  let node : Node :=
    { id, localAddress := address number, globalAddress := address number, listenPort,
      region := regions.getD choice "" }
  let position : Point :=
    { x := Randomness.fraction w place, y := Randomness.fraction w (place + 2) }
  return ({ node, position }, place + 4)

def drawMembers? (w : Stream) (space : Space) (regions : List String) :
    Nat → Option (List Member × Nat)
  | 0 => some ([], 0)
  | n + 1 => do
    let (members, place) ← drawMembers? w space regions n
    let (member, place) ← drawMember? w space regions (members.map (·.node.id)) n place
    return (members ++ [member], place)

end Overlay.Cluster
