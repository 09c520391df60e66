import Overlay.Service.Request

/-!
The journal of a routing service. Every command that the inbox accepts and every command that the
worker handles leaves one event, so that commands can be counted; the journal's printed lines are a
view of it that leaves some events out.
-/

namespace Overlay.Service

open Keyspace (Id)
open Number (Duration)

inductive Event where
  | workerStarted (origin : Id)
  /-- A caller offered the table its own identifier, and nothing was sent. -/
  | ownIdDropped (id : Id)
  | accepted (request : Request)
  | inserted (id : Id) (result : Peers.Insertion)
  | evicted (id : Id) (result : Peers.Eviction)
  | lookedUp (row column entry : Nat) (found : Bool)
  /-- A lookup was handled after its caller had given up. -/
  | lookupAbandoned (row column entry : Nat)
  | answered (request : Request)
  /-- A caller gave up waiting for room in the inbox. -/
  | inboxFull (action : String) (limit : Duration)
  /-- A caller gave up waiting for an answer. -/
  | unanswered (action : String) (limit : Duration)
  | shuttingDown (origin : Id)
  /-- The worker ended; `rejected` commands were discarded from the inbox. -/
  | workerStopped (origin : Id) (entries rejected : Nat)
  deriving DecidableEq

namespace Event

/-- The event of handling a request whose caller is still waiting or not. -/
def handling (p : Peers) (waiting : Bool) : Request → Event
  | .insert n => .inserted n.id (p.insert n).2
  | .evict id => .evicted id (p.evict id).2
  | .get row column entry =>
    if waiting then .lookedUp row column entry (p.table.get row column entry).isOk
    else .lookupAbandoned row column entry
  | request => .answered request

def givingUp (limit : Duration) (request : Request) : Event :=
  if request.isUpdate then .inboxFull request.action limit else .unanswered request.action limit

def isHandling : Event → Bool
  | .inserted .. | .evicted .. | .lookedUp .. | .lookupAbandoned .. | .answered _ => true
  | _ => false

/-- The printed line of an event, if it has one: level, message and named values. Insertions that
the table ignored and evictions that removed nothing are not printed. -/
def line? : Event → Option String
  | .workerStarted origin => some s!"INFO routing worker started origin={origin.text}"
  | .ownIdDropped id => some s!"TRACE dropping insert of own id node={id.text}"
  | .accepted _ | .answered _ => none
  | .inserted id result =>
    if result.placement = .ignored then none
    else some (s!"DEBUG node inserted node={id.text} placement={result.placement.inspect} " ++
      s!"leaf_set={result.inLeaves} neighborhood={result.inNeighborhood}")
  | .evicted id result =>
    if result.isEmpty then none
    else some (s!"DEBUG node evicted node={id.text} table={result.fromTable} " ++
      s!"leaf_set={result.fromLeaves} neighborhood={result.fromNeighborhood}")
  | .lookedUp row column entry found =>
    some s!"TRACE node lookup row={row} col={column} entry={entry} found={found}"
  | .lookupAbandoned row column entry =>
    some s!"TRACE lookup abandoned by caller row={row} col={column} entry={entry}"
  | .inboxFull action limit =>
    some s!"WARN routing inbox full action={action} timeout={limit.text}"
  | .unanswered action limit =>
    some s!"WARN routing worker did not answer in time action={action} timeout={limit.text}"
  | .shuttingDown origin => some s!"INFO routing table shutting down origin={origin.text}"
  | .workerStopped origin entries rejected =>
    some (s!"INFO routing worker stopped origin={origin.text} " ++
      s!"entries={entries} rejected={rejected}")

end Event

def lines (journal : List Event) : List String := journal.filterMap Event.line?

end Overlay.Service
