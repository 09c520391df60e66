import Overlay.Peers

/-!
What callers ask of a routing service and what they are answered. Serving a request is a function on
the peers alone: it knows nothing of inboxes, deadlines or callers.
-/

namespace Overlay.Service

open Keyspace (Id)

/-- A call that the worker has to serve. -/
inductive Request where
  | insert (n : Node)
  | evict (id : Id)
  | get (row column entry : Nat)
  | column (row column : Nat)
  | leaves
  | covers (key : Id)
  | neighborhood
  | stats
  deriving DecidableEq

namespace Request

def action : Request → String
  | .insert _ => "Node insertion"
  | .evict _ => "Node eviction"
  | .get .. => "Node retrieval"
  | .column .. => "Column retrieval"
  | .leaves => "Leaf set retrieval"
  | .covers _ => "Responsibility check"
  | .neighborhood => "Neighborhood retrieval"
  | .stats => "Stats retrieval"

/-- True of the requests that change something. Their callers wait only until the request is
accepted, those of the others until it is served. -/
def isUpdate : Request → Bool
  | .insert _ | .evict _ => true
  | _ => false

end Request

/-- Something that a caller does through a handle on the service. -/
inductive Call where
  | request (r : Request)
  | shutdown
  | status
  deriving DecidableEq

structure Status where
  origin : Node
  stopped : Bool
  deriving DecidableEq

namespace Status

def name (s : Status) : String := if s.stopped then "Stopped" else "Running"

def inspect (s : Status) : String :=
  s!"RoutingTable \x7b origin: {s.origin.id.inspect}, state: {s.name} \x7d"

end Status

inductive Reply where
  | done
  | node (n : Node)
  | nodes (ns : List Node)
  | verdict (b : Bool)
  | stats (s : Stats)
  | status (s : Status)
  deriving DecidableEq

/-- A reply, or why there is none. -/
abbrev Outcome := Except Error Reply

end Overlay.Service

namespace Overlay.Peers

open Service

/-- The peers after a request. Only updates change them. -/
def apply (p : Peers) : Request → Peers
  | .insert n => (p.insert n).1
  | .evict id => (p.evict id).1
  | _ => p

def answer (p : Peers) : Request → Outcome
  | .insert _ | .evict _ => .ok .done
  | .get row column entry => (p.table.get row column entry).map .node
  | .column row column =>
    match p.table.column? row column with
    | some ns => .ok (.nodes ns)
    | none => .error (.noEntry row column 0)
  | .leaves => .ok (.nodes p.leaves.members)
  | .covers key => .ok (.verdict (p.leaves.covers key))
  | .neighborhood => .ok (.nodes p.neighborhood.members)
  | .stats => .ok (.stats p.stats)

end Overlay.Peers
