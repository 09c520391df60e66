import Mathlib
import Overlay.Proofs.Metric.Samples
import Overlay.Proofs.Peers.Neighborhood
import Overlay.Proofs.Peers.PrefixTable

/-!
Peers of other regions in what an origin keeps. Every list that is ascending by its metric, so each
column of the table and the neighborhood, has a peer of the region of the origin in front of each
peer of another region that was not measured as faster. The exception is a sample of zero, such as
that of a peer not measured yet: the penalty is a factor, so two such peers stand in the order of
their identifiers.
-/

namespace Overlay.Peers

/-- Peers of the region come before those of other regions that have no lower sample, except that
identifiers decide where both samples are zero. Samples are words of 64 bits. -/
def LocalFirst (origin : Node) (nodes : List Node) : Prop :=
  ∀ a ∈ nodes, ∀ b ∈ nodes, a.isIn origin.region = true → b.isIn origin.region = false →
    a.latency ≤ b.latency → b.latency < 2 ^ 64 →
    ([a, b].Sublist nodes ↔ 0 < b.latency ∨ a.id.precedes b.id = true)

theorem localFirst_of_ascending {m : Metric} {origin : Node} {nodes : List Node}
    (h : Ranked.Ascending (m.nearer origin) nodes) : LocalFirst origin nodes := by
  intro a ha b hb hlocal hremote hsample hword
  rw [h.pair_sublist_iff ha hb, Metric.nearer_iff]
  exact Metric.order_across_sides hlocal hremote hsample hword

/-- A peer of another region that was not measured as faster than one of the region of the origin
ranks behind it, whatever their identifiers, unless both samples are zero: then the identifiers
decide. So they stand in each column of the table and in the neighborhood, after any history. -/
theorem penalty_ranks_behind_local (m : Metric) (origin : Node) :
    (∀ a b : Node, a.isIn origin.region = true → b.isIn origin.region = false →
        a.latency ≤ b.latency → b.latency < 2 ^ 64 →
        (m.order origin a b = .lt ↔ 0 < b.latency ∨ a.id.precedes b.id = true)) ∧
      (∀ history row col column,
        ((PrefixTable.empty origin m).updateAll history).column? row col = some column →
          LocalFirst origin column) ∧
      ∀ capacity history,
        LocalFirst origin ((Neighborhood.empty origin m capacity).updateAll history).members := by
  refine ⟨fun a b => Metric.order_across_sides, ?_, ?_⟩
  · intro history row col column hcolumn
    let t := (PrefixTable.empty origin m).updateAll history
    obtain ⟨horigin, hmetric, hstores⟩ := PrefixTable.updateAll_empty origin m history
    obtain ⟨hrow, hcol, hget⟩ := PrefixTable.column?_eq_some.mp hcolumn
    have hascending : Ranked.Ascending (t.metric.nearer t.origin) column :=
      hget ▸ (hstores.kept ⟨row, hrow⟩ ⟨col, hcol⟩).ascending
    rw [horigin, hmetric] at hascending
    exact localFirst_of_ascending hascending
  · intro capacity history
    have hsound := (Neighborhood.empty_sound origin m capacity).updateAll history
    obtain ⟨horigin, hmetric, -⟩ :=
      (Neighborhood.empty origin m capacity).updateAll_parameters history
    have hascending := hsound.kept.ascending
    rw [horigin, hmetric] at hascending
    exact localFirst_of_ascending hascending

/-- A peer not measured yet and one of another region not measured either: the one of the other
region ranks first, because its identifier does. -/
theorem unmeasured_remote_first :
    let node (region : String) (value : Keyspace.Word) : Node :=
      { Node.sample { radix := .hexadecimal, length := 4 } value with region }
    let origin := node "eu" 0
    let near := node "eu" 0x8200
    let far := node "us" 0x8100
    near.isIn origin.region = true ∧ far.isIn origin.region = false ∧
      near.latency ≤ far.latency ∧ Metric.default.order origin near far = .gt ∧
      ((PrefixTable.empty origin .default).updateAll [.insert near, .insert far]).column? 0 8 =
        some [far, near] ∧
      ((Neighborhood.empty origin .default 2).updateAll [.insert near, .insert far]).members =
        [far, near] := by
  decide +kernel

end Overlay.Peers
