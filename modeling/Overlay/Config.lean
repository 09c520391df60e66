import Overlay.Metric
import Overlay.Text.Blank

/-!
The parameters of a routing table and of the sets kept with it. A configuration is read from named
variables, every one of them optional, and is judged as a whole before anything is built from it.
-/

namespace Overlay

open Number

-- Powers are those of the core library, whatever else is imported.
attribute [local instance (high)] instPowNat

/-- Parameters of a routing table. Zero capacities and odd penalties can be written down; `check`
refuses them. -/
structure Config where
  space : Keyspace.Space := .canonical
  /-- Nodes kept in each half of the leaf set. -/
  leafCapacity : Nat := 16
  neighborhoodCapacity : Nat := 32
  /-- Factor on the latency of nodes in other regions. -/
  penalty : Binary64 := Binary64.ofNat 2
  timeout : Duration := .ofMilliseconds 1000
  /-- Requests that may wait in front of the worker. -/
  inboxCapacity : Nat := 1024
  deriving DecidableEq

namespace Config

/-- The metric of a usable configuration. The first value that makes one unusable is reported:
penalty, leaf set, neighborhood, timeout, inbox. -/
def check (c : Config) : Except Error Metric := do
  let metric ← Metric.ofPenalty c.penalty
  if c.leafCapacity = 0 then throw (.config .noLeafCapacity)
  if c.neighborhoodCapacity = 0 then throw (.config .noNeighborhoodCapacity)
  if c.timeout.nanoseconds = 0 then throw (.config .noTimeout)
  if c.inboxCapacity = 0 then throw (.config .noInboxCapacity)
  return metric

inductive Setting where
  | base
  | length
  | leafCapacity
  | neighborhoodCapacity
  | penalty
  | timeout
  | inboxCapacity
  deriving DecidableEq

def Setting.name : Setting → String
  | .base => "PASTRY_ID_BASE"
  | .length => "PASTRY_ID_LENGTH"
  | .leafCapacity => "PASTRY_LEAF_HALF_CAPACITY"
  | .neighborhoodCapacity => "PASTRY_NEIGHBORHOOD_CAPACITY"
  | .penalty => "PASTRY_REGION_PENALTY"
  | .timeout => "PASTRY_LOOKUP_TIMEOUT_MS"
  | .inboxCapacity => "PASTRY_INBOX_CAPACITY"

abbrev Environment := String → Option String

/-- The value of a variable after trimming, or a default if it is not set. A fault quotes the text
as it was, blanks included. -/
def readSetting {α : Type} (environment : Environment) (setting : Setting)
    (read : String → Except UnreadableText α) (default : α) : Except Error α :=
  match environment setting.name with
  | none => .ok default
  | some text => (read (Text.trimmed text)).mapError fun cause =>
    .config (.unreadable setting.name text cause)

def readNatural (limit : Nat) (text : String) : Except UnreadableText Nat :=
  (Number.readNatural limit text).mapError .natural

def readDecimal (text : String) : Except UnreadableText Binary64 :=
  (Binary64.read text).mapError .decimal

/-- Reads a configuration and checks it. Variables are read in a fixed order, the space being built
as soon as its two are known, and the first fault is reported. -/
def ofEnvironment (environment : Environment) : Except Error Config := do
  let unset : Config := {}
  let natural (setting : Setting) (limit default : Nat) : Except Error Nat :=
    readSetting environment setting (readNatural limit) default
  let base ← natural .base (2 ^ (8 : Nat)) unset.space.base
  let length ← natural .length (2 ^ (64 : Nat)) unset.space.length
  let space ← (Keyspace.Space.ofBase base length).mapError fun cause => .id (.space cause)
  let milliseconds ← natural .timeout (2 ^ (64 : Nat)) unset.timeout.milliseconds
  let leafCapacity ← natural .leafCapacity (2 ^ (64 : Nat)) unset.leafCapacity
  let neighborhoodCapacity ←
    natural .neighborhoodCapacity (2 ^ (64 : Nat)) unset.neighborhoodCapacity
  let penalty ← readSetting environment .penalty readDecimal unset.penalty
  let inboxCapacity ← natural .inboxCapacity (2 ^ (64 : Nat)) unset.inboxCapacity
  let config : Config :=
    { space, leafCapacity, neighborhoodCapacity, penalty,
      timeout := .ofMilliseconds milliseconds, inboxCapacity }
  let _ ← config.check
  return config

end Config

end Overlay
