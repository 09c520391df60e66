import Overlay.Error
import Overlay.Node

/-!
How near a node is. Its latency sample counts as it is inside the region of the node that judges,
and multiplied by a penalty outside. The adjusted latency is a binary64 number; equal ones fall
back to the sample, which is exact, and equal samples to the order of identifiers, so that scores
of different nodes never tie.
-/

namespace Overlay

open Number

/-- A scoring policy: the factor on the latency of nodes in other regions. -/
structure Metric where
  penalty : Binary64
  penalty_exceedsOne : penalty.exceedsOne = true
  deriving DecidableEq

/-- The score of a node; lower is nearer. -/
structure Score where
  adjusted : Binary64
  latency : Nat
  id : Keyspace.Id
  deriving DecidableEq

def Score.order (a b : Score) : Ordering :=
  (a.adjusted.order b.adjusted).then ((compare a.latency b.latency).then (a.id.order b.id))

def Score.precedes (a b : Score) : Bool := (a.order b).isLT

namespace Metric

/-- The metric with a given penalty, which has to be a finite factor above one. -/
def ofPenalty (penalty : Binary64) : Except Error Metric :=
  if h : penalty.exceedsOne = true then .ok ⟨penalty, h⟩
  else .error (.config (.penalty penalty))

def default : Metric := ⟨Binary64.ofNat 2, by decide +kernel⟩

/-- The latency of `other` as `origin` counts it. -/
def adjusted (m : Metric) (origin other : Node) : Binary64 :=
  let sample := Binary64.ofNat other.latency
  if other.isIn origin.region then sample else sample.mul m.penalty

def score (m : Metric) (origin other : Node) : Score :=
  { adjusted := m.adjusted origin other, latency := other.latency, id := other.id }

def order (m : Metric) (origin a b : Node) : Ordering :=
  (m.score origin a).order (m.score origin b)

def nearer (m : Metric) (origin a b : Node) : Bool :=
  (m.score origin a).precedes (m.score origin b)

/-- Nearest first; nodes of equal score keep their order. -/
def sort (m : Metric) (origin : Node) (nodes : List Node) : List Node :=
  nodes.mergeSort fun a b => (m.order origin a b).isLE

end Metric

end Overlay
