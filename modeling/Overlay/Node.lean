import Overlay.Keyspace.Digits

/-!
Members of an overlay as one of them sees the others. A node is a value: whoever keeps one keeps a
copy of its own, and a new latency sample is another copy.
-/

namespace Overlay

/-- An internet address. It is carried and printed, never computed with, and so it is kept as its
canonical text. -/
structure Address where
  literal : String
  deriving DecidableEq

namespace Address

/-- The dotted address of a 32-bit word, most significant byte first. -/
def ofWord (w : UInt32) : Address :=
  ⟨s!"{w >>> 24}.{(w >>> 16) &&& 255}.{(w >>> 8) &&& 255}.{w &&& 255}"⟩

/-- The text of an endpoint. An address whose text holds colons of its own is bracketed. -/
def endpoint (a : Address) (listenPort : Nat) : String :=
  if a.literal.toList.contains ':' then s!"[{a.literal}]:{listenPort}"
  else s!"{a.literal}:{listenPort}"

end Address

structure Node where
  id : Keyspace.Id
  /-- The address that nodes of the same region use. -/
  localAddress : Address
  /-- The address that nodes of other regions use. -/
  globalAddress : Address
  listenPort : Nat
  /-- A label of the node's place, such as a data centre. -/
  region : String
  /-- The last latency sample, not adjusted for the region; zero before there is one. -/
  latency : Nat := 0
  deriving DecidableEq

namespace Node

def withLatency (n : Node) (latency : Nat) : Node := { n with latency }

def isIn (n : Node) (region : String) : Bool := n.region == region

def endpointFrom (n : Node) (region : String) : String :=
  (if n.isIn region then n.localAddress else n.globalAddress).endpoint n.listenPort

def text (n : Node) : String := s!"{n.id.text}@{n.region}:{n.listenPort}"

end Node

end Overlay
