import Mathlib
import Overlay.Proofs.Service.Request
import Overlay.Proofs.Peers.LeafSet
import Overlay.Proofs.Peers.Neighborhood
import Overlay.Proofs.Peers.PrefixTable

/-!
How the three structures of one node agree. The table stores all that is known; the two sets hold
copies of some of it. Each has its own way to exchange the copy of a node, and the invariant says
that none of them keeps a copy that the table has replaced or dropped.
-/

namespace Overlay.Peers

open Keyspace (Id)
open Service (Request)

/-- The structures were set up for one origin and have kept its parameters. -/
structure Around (origin : Node) (metric : Metric) (config : Config) (p : Peers) : Prop where
  table_origin : p.table.origin = origin
  table_metric : p.table.metric = metric
  leaves_origin : p.leaves.origin = origin.id
  leaves_capacity : p.leaves.capacity = config.leafCapacity
  neighborhood_origin : p.neighborhood.origin = origin
  neighborhood_metric : p.neighborhood.metric = metric
  neighborhood_capacity : p.neighborhood.capacity = config.neighborhoodCapacity

theorem empty_around (origin : Node) (metric : Metric) (config : Config) :
    Around origin metric config (empty origin metric config) :=
  ⟨rfl, rfl, rfl, rfl, rfl, rfl, rfl⟩

/-- An ignored node changes nothing, and any other is offered to all three structures. -/
theorem insert_cases (p : Peers) (n : Node) :
    (p.table.insert n).2 = .ignored ∧ (p.insert n).1 = p ∨
      (p.table.insert n).2 ≠ .ignored ∧
        (p.insert n).1 = { table := (p.table.insert n).1, leaves := (p.leaves.offer n).1,
                           neighborhood := (p.neighborhood.offer n).1 } := by
  by_cases hignored : (p.table.insert n).2 = .ignored
  · left
    exact ⟨hignored, by simp [insert, hignored]⟩
  · right
    exact ⟨hignored, by simp [insert, hignored]⟩

theorem Around.update {origin : Node} {metric : Metric} {config : Config} {p : Peers}
    (h : Around origin metric config p) (u : Update) :
    Around origin metric config (p.update u) := by
  have heach : Around origin metric config
      { table := p.table.update u, leaves := p.leaves.update u,
        neighborhood := p.neighborhood.update u } := by
    obtain ⟨htorigin, htmetric⟩ := p.table.update_parameters u
    obtain ⟨hlorigin, hlcapacity⟩ := p.leaves.update_parameters u
    obtain ⟨hnorigin, hnmetric, hncapacity⟩ := p.neighborhood.update_parameters u
    exact ⟨htorigin.trans h.table_origin, htmetric.trans h.table_metric,
      hlorigin.trans h.leaves_origin, hlcapacity.trans h.leaves_capacity,
      hnorigin.trans h.neighborhood_origin, hnmetric.trans h.neighborhood_metric,
      hncapacity.trans h.neighborhood_capacity⟩
  cases u with
  | insert n =>
    rcases p.insert_cases n with ⟨-, hinsert⟩ | ⟨-, hinsert⟩
    · rw [Peers.update, hinsert]
      exact h
    · rw [Peers.update, hinsert]
      exact heach
  | evict id => exact heach

/-- The table stores what is known, and the sets hold copies that are known. -/
structure Coherent (p : Peers) (known : Known) : Prop where
  stores : p.table.Stores known
  leaves : p.leaves.Sound
  neighborhood : p.neighborhood.Sound
  leaf_known : ∀ n ∈ p.leaves.members, known.lookup n.id = some n
  neighbor_known : ∀ n ∈ p.neighborhood.members, known.lookup n.id = some n

theorem empty_coherent (origin : Node) (metric : Metric) (config : Config) :
    (empty origin metric config).Coherent ∅ where
  stores := PrefixTable.empty_stores origin metric
  leaves := LeafSet.empty_sound origin.id config.leafCapacity
  neighborhood := Neighborhood.empty_sound origin metric config.neighborhoodCapacity
  leaf_known := by simp [empty, LeafSet.empty, LeafSet.members]
  neighbor_known := by simp [empty, Neighborhood.empty]

theorem empty_entries (origin : Node) (metric : Metric) (config : Config) :
    (empty origin metric config).table.entries = [] := by
  refine List.eq_nil_iff_forall_not_mem.mpr fun n hn => ?_
  have hknown := ((empty_coherent origin metric config).stores.mem_entries n).mp hn
  simp at hknown

theorem Coherent.insert {p : Peers} {known : Known} (h : p.Coherent known) (n : Node) :
    (p.insert n).1.Coherent (known.update p.table.origin.id (.insert n)) := by
  have hstores := h.stores.insert n
  rcases p.insert_cases n with ⟨hignored, hinsert⟩ | ⟨htaken, hinsert⟩
  · rw [PrefixTable.insert_ignored_iff] at hignored
    rw [hinsert, Known.update, if_neg hignored]
    exact h
  · have hlocal : n.id.space = p.table.origin.id.space ∧ n.id ≠ p.table.origin.id := by
      by_contra hforeign
      exact htaken ((p.table.insert_ignored_iff n).mpr hforeign)
    rw [Known.update, if_pos hlocal] at hstores
    rw [hinsert, Known.update, if_pos hlocal]
    -- What a set holds after the offer is the new copy, or has another identifier.
    have hknown {m : Node} {old : List Node} (hold : ∀ a ∈ old, known.lookup a.id = some a)
        (hm : m = n ∨ m ∈ old ∧ m.id ≠ n.id) :
        (Finmap.insert n.id n known).lookup m.id = some m := by
      rcases hm with rfl | ⟨hm, hne⟩
      · exact Finmap.lookup_insert _
      · rw [Finmap.lookup_insert_of_ne _ hne]
        exact hold m hm
    refine ⟨hstores, h.leaves.offer n, h.neighborhood.offer n, ?_, ?_⟩
    · intro m hm
      exact hknown h.leaf_known (h.leaves.mem_offer hm)
    · intro m hm
      exact hknown h.neighbor_known (h.neighborhood.mem_offer hm)

/-- The table stores a node that it does not ignore, in place of an earlier copy. -/
theorem Coherent.mem_entries_insert {p : Peers} {known : Known} (h : p.Coherent known) {n : Node}
    (htaken : (p.table.insert n).2 ≠ .ignored) {a : Node} :
    a ∈ (p.insert n).1.table.entries ↔ a = n ∨ a ∈ p.table.entries ∧ a.id ≠ n.id := by
  have hlocal : n.id.space = p.table.origin.id.space ∧ n.id ≠ p.table.origin.id := by
    by_contra hforeign
    exact htaken ((p.table.insert_ignored_iff n).mpr hforeign)
  have hafter := h.insert n
  rw [Known.update, if_pos hlocal] at hafter
  rw [hafter.stores.mem_entries, h.stores.mem_entries]
  by_cases hid : a.id = n.id
  · rw [hid, Finmap.lookup_insert, Option.some.injEq]
    simp only [ne_eq, not_true_eq_false, and_false, or_false]
    exact eq_comm
  · rw [Finmap.lookup_insert_of_ne _ hid]
    have hne : a ≠ n := fun heq => hid (congrArg Node.id heq)
    simp [hid, hne]

theorem Coherent.evict {p : Peers} {known : Known} (h : p.Coherent known) (id : Id) :
    (p.evict id).1.Coherent (known.update p.table.origin.id (.evict id)) := by
  refine ⟨h.stores.erase id, h.leaves.erase id, h.neighborhood.erase id, ?_, ?_⟩
  · intro m hm
    obtain ⟨hm, hne⟩ := h.leaves.mem_erase.mp hm
    rw [Known.update, Finmap.lookup_erase_ne hne]
    exact h.leaf_known m hm
  · intro m hm
    obtain ⟨hm, hne⟩ := h.neighborhood.mem_erase.mp hm
    rw [Known.update, Finmap.lookup_erase_ne hne]
    exact h.neighbor_known m hm

theorem Coherent.update {p : Peers} {known : Known} (h : p.Coherent known) (u : Update) :
    (p.update u).Coherent (known.update p.table.origin.id u) := by
  cases u with
  | insert n => exact h.insert n
  | evict id => exact h.evict id

/-- The invariant of a run: after any history the structures agree on what is known after it. -/
theorem Coherent.updateAll {origin : Node} {metric : Metric} {config : Config} {p : Peers}
    {known : Known} (h : p.Coherent known) (haround : Around origin metric config p)
    (history : List Update) :
    Around origin metric config (p.updateAll history) ∧
      (p.updateAll history).Coherent (history.foldl (Known.update origin.id) known) := by
  induction history generalizing p known with
  | nil => exact ⟨haround, h⟩
  | cons u history ih =>
    have hstep := h.update u
    rw [haround.table_origin] at hstep
    exact ih hstep (haround.update u)

theorem updateAll_empty (origin : Node) (metric : Metric) (config : Config)
    (history : List Update) :
    Around origin metric config ((empty origin metric config).updateAll history) ∧
      ((empty origin metric config).updateAll history).Coherent (Known.after origin.id history) :=
  (empty_coherent origin metric config).updateAll (empty_around origin metric config) history

/-- Every node that one of the structures holds. -/
def held (p : Peers) : List Node := p.table.entries ++ p.leaves.members ++ p.neighborhood.members

/-- What one of the structures holds is known. -/
theorem Coherent.known_of_held {p : Peers} {known : Known} (h : p.Coherent known) {n : Node}
    (hn : n ∈ p.held) : known.lookup n.id = some n := by
  rw [held, List.mem_append, List.mem_append] at hn
  rcases hn with (htable | hleaf) | hneighbor
  · exact (h.stores.mem_entries n).mp htable
  · exact h.leaf_known n hleaf
  · exact h.neighbor_known n hneighbor

theorem Coherent.find?_of_held {p : Peers} {known : Known} (h : p.Coherent known) {n : Node}
    (hn : n ∈ p.held) : p.table.find? n.id = some n := by
  rw [h.stores.find?_eq_lookup, h.known_of_held hn]

/-- An eviction finds in the table what it finds in one of the sets. -/
theorem Coherent.fromTable_of_removed {p : Peers} {known : Known} (h : p.Coherent known) {id : Id}
    (hremoved : (p.evict id).2.fromLeaves = true ∨ (p.evict id).2.fromNeighborhood = true) :
    (p.evict id).2.fromTable = true := by
  have hmember : ∃ n ∈ p.held, n.id = id := by
    rcases hremoved with hleaf | hneighbor
    · obtain ⟨n, hn, hid⟩ := List.any_eq_true.mp hleaf
      exact ⟨n, List.mem_append_left _ (List.mem_append_right _ hn), by simpa using hid⟩
    · obtain ⟨n, hn, hid⟩ := List.any_eq_true.mp hneighbor
      exact ⟨n, List.mem_append_right _ hn, by simpa using hid⟩
  obtain ⟨n, hn, rfl⟩ := hmember
  change (p.table.find? n.id).isSome = true
  rw [h.find?_of_held hn]
  rfl

/-- Two neighbors of one column stand in the same order in the column and in the neighborhood. -/
theorem Coherent.same_order {p : Peers} {known : Known} (h : p.Coherent known)
    (horigin : p.neighborhood.origin = p.table.origin)
    (hmetric : p.neighborhood.metric = p.table.metric) {row col : Nat} {column : List Node}
    (hcolumn : p.table.column? row col = some column) {a b : Node}
    (ha : a ∈ p.neighborhood.members) (hb : b ∈ p.neighborhood.members)
    (hacol : a ∈ column) (hbcol : b ∈ column) :
    [a, b].Sublist column ↔ [a, b].Sublist p.neighborhood.members := by
  have hascending : Ranked.Ascending (p.table.metric.nearer p.table.origin) column := by
    obtain ⟨hrow, hcol, rfl⟩ := PrefixTable.column?_eq_some.mp hcolumn
    exact (h.stores.kept ⟨row, hrow⟩ ⟨col, hcol⟩).ascending
  have hneighbors := h.neighborhood.kept.ascending
  rw [horigin, hmetric] at hneighbors
  rw [hascending.pair_sublist_iff hacol hbcol, hneighbors.pair_sublist_iff ha hb]

/-- After any requests the members of the leaf set and of the neighborhood are also in the table, in
the same copies. So an eviction takes from the sets only what the table held, it leaves no copy
anywhere, and neighbors that share a column are ranked alike in both. -/
theorem sets_agree_with_table (origin : Node) (metric : Metric) (config : Config)
    (requests : List Request) :
    let p := (empty origin metric config).applyAll requests
    (∀ n ∈ p.leaves.members, p.table.find? n.id = some n) ∧
      (∀ n ∈ p.neighborhood.members, p.table.find? n.id = some n) ∧
      (∀ id, (p.evict id).2.fromLeaves = true ∨ (p.evict id).2.fromNeighborhood = true →
        (p.evict id).2.fromTable = true) ∧
      (∀ id, ∀ n ∈ (p.evict id).1.held, n.id ≠ id) ∧
      ∀ row col column, p.table.column? row col = some column →
        ∀ a ∈ p.neighborhood.members, ∀ b ∈ p.neighborhood.members, a ∈ column → b ∈ column →
          ([a, b].Sublist column ↔ [a, b].Sublist p.neighborhood.members) := by
  intro p
  obtain ⟨known, haround, h⟩ : ∃ known, Around origin metric config p ∧ p.Coherent known := by
    have hafter := updateAll_empty origin metric config (requests.filterMap change?)
    rw [← applyAll_eq] at hafter
    exact ⟨_, hafter⟩
  refine ⟨?_, ?_, fun id => h.fromTable_of_removed, ?_, ?_⟩
  · intro n hn
    exact h.find?_of_held (List.mem_append_left _ (List.mem_append_right _ hn))
  · intro n hn
    exact h.find?_of_held (List.mem_append_right _ hn)
  · intro id n hn hid
    have hafter := (h.evict id).known_of_held hn
    rw [hid, Known.update, Finmap.lookup_erase] at hafter
    cases hafter
  · intro row col column hcolumn a ha b hb hacol hbcol
    exact h.same_order (haround.neighborhood_origin.trans haround.table_origin.symm)
      (haround.neighborhood_metric.trans haround.table_metric.symm) hcolumn ha hb hacol hbcol

end Overlay.Peers
