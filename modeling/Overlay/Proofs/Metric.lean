import Mathlib
import Overlay.Metric
import Overlay.Proofs.Keyspace.Order
import Overlay.Proofs.Number.Binary64
import Overlay.Proofs.Peers.Ranked

/-!
The order of scores. It is total over all nodes, and nodes with different identifiers never tie, so
a metric ranks the nodes that an origin sees, and there is one way to sort them.
-/

namespace Overlay

instance : Std.TransCmp (fun a b : Score => a.id.order b.id) where
  eq_swap {a b} := Keyspace.Id.order_swap b.id a.id
  isLE_trans {a b c} := Std.TransCmp.isLE_trans (a := a.id) (b := b.id) (c := c.id)

instance : Std.TransCmp Score.order :=
  inferInstanceAs (Std.TransCmp (compareLex (compareOn fun a : Score => a.adjusted.rank)
    (compareLex (compareOn Score.latency) fun a b => a.id.order b.id)))

/-- Scores that compare as equal agree in all three keys, and there is nothing else to a score. -/
instance : Std.LawfulEqCmp Score.order where
  eq_of_compare {a b} h := by
    rw [Score.order, Ordering.then_eq_eq, Ordering.then_eq_eq] at h
    obtain ⟨hadjusted, hlatency, hid⟩ := h
    obtain ⟨adjusted, latency, id⟩ := a
    obtain ⟨adjusted', latency', id'⟩ := b
    rw [Score.mk.injEq]
    exact ⟨Std.LawfulEqCmp.eq_of_compare hadjusted, Std.LawfulEqOrd.compare_eq_iff_eq.mp hlatency,
      Std.LawfulEqCmp.eq_of_compare hid⟩

theorem Score.id_eq_of_order {a b : Score} (h : a.order b = .eq) : a.id = b.id :=
  congrArg Score.id (Std.LawfulEqCmp.eq_of_compare h)

namespace Metric

instance (m : Metric) (origin : Node) : Std.TransCmp (m.order origin) where
  eq_swap {a b} := Std.OrientedCmp.eq_swap (a := m.score origin a) (b := m.score origin b)
  isLE_trans {a b c} := Std.TransCmp.isLE_trans (a := m.score origin a) (b := m.score origin b)
    (c := m.score origin c)

instance (m : Metric) (origin : Node) : Ranked.Ranking (m.nearer origin) Node.id :=
  Ranked.Ranking.of_cmp (m.order origin) fun _ _ h => Score.id_eq_of_order h

variable {m : Metric} {origin : Node}

theorem nearer_iff {a b : Node} : m.nearer origin a b = true ↔ m.order origin a b = .lt :=
  Ordering.isLT_iff_eq_lt

theorem order_swap (a b : Node) : m.order origin b a = (m.order origin a b).swap :=
  Std.OrientedCmp.eq_swap

theorem order_eq_iff {a b : Node} :
    m.order origin a b = .eq ↔
      (m.adjusted origin a).bits = (m.adjusted origin b).bits ∧ a.latency = b.latency ∧
        a.id = b.id := by
  rw [order, Std.LawfulEqCmp.compare_eq_iff_eq, score, score, Score.mk.injEq]
  refine and_congr_left fun _ => ?_
  exact ⟨congrArg Number.Binary64.bits, congrArg Number.Binary64.mk⟩

/-- To sort by a comparison is to sort by the rank that it gives. -/
theorem sort_eq (nodes : List Node) :
    m.sort origin nodes = Ranked.sort (m.nearer origin) nodes := by
  have hrank (a b : Node) : (m.order origin a b).isLE = !m.nearer origin b a := by
    change _ = !(m.order origin b a).isLT
    rw [order_swap a b]
    cases m.order origin a b <;> rfl
  simp only [sort, Ranked.sort, hrank]

theorem sort_perm (nodes : List Node) : (m.sort origin nodes).Perm nodes :=
  List.mergeSort_perm nodes _

theorem sort_pairwise {nodes : List Node} (hids : (nodes.map (·.id)).Nodup) :
    (m.sort origin nodes).Pairwise fun a b => m.order origin a b = .lt := by
  rw [sort_eq]
  exact (Ranked.sort_ascending hids).imp nearer_iff.mp

/-- There is one ascending arrangement of nodes with different identifiers. -/
theorem eq_sort {nodes others : List Node} (hids : (nodes.map (·.id)).Nodup)
    (hperm : others.Perm nodes) (hascending : others.Pairwise fun a b => m.order origin a b = .lt) :
    others = m.sort origin nodes := by
  have hothers : Ranked.Ascending (m.nearer origin) others := hascending.imp nearer_iff.mpr
  rw [sort_eq]
  apply hothers.ext (Ranked.sort_ascending hids)
  intro a
  rw [Ranked.mem_sort, hperm.mem_iff]

/-- The nodes that an origin sees are totally ordered by their scores, whatever their samples,
regions and spaces: of any two one is at most as far as the other, to compare them the other way
round reverses the result, and the order is transitive. Two nodes tie only if their adjusted
latencies have the same bits and sample and identifier are the same too, so different nodes never
do. Nodes with different identifiers are thus sorted into the one ascending arrangement there is, in
whatever order they are given. -/
theorem nodes_sort_one_way (m : Metric) (origin : Node) :
    (∀ a b, (m.order origin a b).isLE = true ∨ (m.order origin b a).isLE = true) ∧
      (∀ a b, m.order origin b a = (m.order origin a b).swap) ∧
      (∀ a b c, (m.order origin a b).isLE = true → (m.order origin b c).isLE = true →
        (m.order origin a c).isLE = true) ∧
      (∀ a b, m.order origin a b = .eq ↔
        (m.adjusted origin a).bits = (m.adjusted origin b).bits ∧ a.latency = b.latency ∧
          a.id = b.id) ∧
      (∀ a b, a.id ≠ b.id → m.order origin a b ≠ .eq) ∧
      ∀ nodes : List Node, (nodes.map (·.id)).Nodup →
        (m.sort origin nodes).Perm nodes ∧
          (m.sort origin nodes).Pairwise (fun a b => m.order origin a b = .lt) ∧
          (∀ others : List Node, others.Perm nodes →
            others.Pairwise (fun a b => m.order origin a b = .lt) → others = m.sort origin nodes) ∧
          ∀ others : List Node, others.Perm nodes → m.sort origin others = m.sort origin nodes := by
  refine ⟨?_, order_swap, ?_, fun a b => order_eq_iff, ?_, ?_⟩
  · intro a b
    rw [order_swap a b]
    cases m.order origin a b <;> simp
  · intro a b c hab hbc
    exact Std.TransCmp.isLE_trans hab hbc
  · intro a b hne htie
    exact hne (order_eq_iff.mp htie).2.2
  · intro nodes hids
    refine ⟨sort_perm nodes, sort_pairwise hids, fun others => eq_sort hids, ?_⟩
    intro others hperm
    rw [sort_eq, sort_eq, Ranked.sort_eq_of_perm hperm hids]

end Metric

end Overlay
