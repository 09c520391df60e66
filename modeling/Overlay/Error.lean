import Overlay.Number.Duration
import Overlay.Number.Natural
import Overlay.Keyspace.Fault

/-!
Everything that can go wrong, as causes. "No entry" is an ordinary answer to a lookup; a timeout or
a stopped service means that there was no answer at all; the others are reported before anything
has been done.
-/

namespace Overlay

open Number

/-- Why a text is not the number that a variable should hold. -/
inductive UnreadableText where
  | natural (fault : NaturalFault)
  | decimal (fault : Binary64.ReadFault)
  deriving DecidableEq

def UnreadableText.message : UnreadableText → String
  | .natural fault => fault.message
  | .decimal fault => fault.message

inductive ConfigFault where
  | unreadable (name text : String) (cause : UnreadableText)
  | penalty (found : Binary64)
  | noLeafCapacity
  | noNeighborhoodCapacity
  | noTimeout
  | noInboxCapacity
  | originSpace (actual expected : Keyspace.Space)
  | noNodes
  | noRegions
  | tooManyNodes (nodes positions : Nat)
  /-- The random stream of a seed does not lead to enough identifiers. -/
  | barrenSeed (seed : Nat)
  /-- A reason given by a caller in words of its own. -/
  | stated (reason : String)
  deriving DecidableEq

def ConfigFault.message : ConfigFault → String
  | .unreadable name text cause => s!"{name}={Text.quoted text}: {cause.message}"
  | .penalty found =>
    s!"region penalty must be a finite factor greater than 1, got {found.text}"
  | .noLeafCapacity => "leaf set half capacity must be non-zero"
  | .noNeighborhoodCapacity => "neighborhood capacity must be non-zero"
  | .noTimeout => "lookup timeout must be non-zero"
  | .noInboxCapacity => "inbox capacity must be non-zero"
  | .originSpace actual expected =>
    s!"origin id is in space {actual.text}, config expects {expected.text}"
  | .noNodes => "node count must be non-zero"
  | .noRegions => "at least one region is required"
  | .tooManyNodes nodes positions =>
    s!"{nodes} nodes do not fit in a space of {positions} identifiers"
  | .barrenSeed seed => s!"seed {seed} does not lead to enough identifiers"
  | .stated reason => reason

/-- What a caller of the overlay is told instead of an answer. -/
inductive Error where
  | id (fault : Keyspace.Fault)
  | noEntry (row column entry : Nat)
  | timeout (action : String) (limit : Duration)
  | stopped
  | noRuntime (reason : String)
  | config (fault : ConfigFault)
  deriving DecidableEq

namespace Error

def message : Error → String
  | .id fault => fault.message
  | .noEntry row column entry => s!"no entry at row {row}, column {column}, entry {entry}"
  | .timeout action limit =>
    s!"Timeout error: {action} took more than {limit.seconds.text} seconds."
  | .stopped => "routing table worker has stopped"
  | .noRuntime reason => s!"no tokio runtime available: {reason}"
  | .config fault => s!"invalid configuration: {fault.message}"

def inspect : Error → String
  | .id fault => s!"InvalidId({fault.inspect})"
  | .noEntry row column entry =>
    s!"OutOfRange \x7b row: {row}, col: {column}, entry: {entry} \x7d"
  | .timeout action limit =>
    s!"Timeout \x7b action: {Text.quoted action}, timeout: {limit.text} \x7d"
  | .stopped => "Stopped"
  | .noRuntime reason => s!"Runtime({Text.quoted reason})"
  | .config fault => s!"InvalidConfig({Text.quoted fault.message})"

/-- True of the ordinary answer that there is nothing at the place asked for. -/
def isNoEntry : Error → Bool
  | .noEntry .. => true
  | _ => false

def isTimeout : Error → Bool
  | .timeout .. => true
  | _ => false

end Error

end Overlay
