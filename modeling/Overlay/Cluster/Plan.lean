import Overlay.Config

/-!
Parameters of a generated cluster.
-/

namespace Overlay.Cluster

/-- What a cluster is generated from. -/
structure Plan where
  nodes : Nat := 100
  seed : UInt64 := 42
  /-- Random keys for which owners are counted. -/
  probes : Nat := 256
  /-- Region names, one of which every node gets. -/
  regions : List String := ["us-east", "us-west", "eu-central", "ap-south"]
  routing : Config := {}
  deriving DecidableEq

/-- The metric of a plan that can be carried out. The routing configuration is judged first, then
the number of nodes, the regions, and whether the ring has room. -/
def Plan.check (p : Plan) : Except Error Metric := do
  let metric ← p.routing.check
  if p.nodes = 0 then throw (.config .noNodes)
  if p.regions.isEmpty then throw (.config .noRegions)
  if p.routing.space.size < p.nodes then
    throw (.config (.tooManyNodes p.nodes p.routing.space.size))
  return metric

end Overlay.Cluster
