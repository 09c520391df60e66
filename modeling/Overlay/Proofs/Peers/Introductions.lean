import Mathlib
import Overlay.Proofs.Keyspace.Prefix
import Overlay.Proofs.Peers.Churn

/-!
What a node knows after it has been told of others, of each once. Nothing is replaced and nothing
vacated then, so what it knows can be counted: the table stores all of them, each half of the leaf
set and the neighborhood are as full as they can be, and the first row of the table has one column
in use for each first digit that is not the node's own.
-/

namespace Overlay

open Keyspace (Id)
open Roster (Distinct)

/-- Different nodes of the space of an origin, none of which is the origin. -/
structure Strangers (origin : Id) (ns : List Node) : Prop where
  distinct : Distinct ns
  space : ∀ n ∈ ns, n.id.space = origin.space
  ne_origin : ∀ n ∈ ns, n.id ≠ origin

theorem Strangers.of_sublist {origin : Id} {ms ns : List Node} (h : Strangers origin ns)
    (hsub : ms.Sublist ns) : Strangers origin ms where
  distinct := h.distinct.of_sublist hsub
  space n hn := h.space n (hsub.subset hn)
  ne_origin n hn := h.ne_origin n (hsub.subset hn)

/-- All that were told of are known, and nobody else. -/
theorem Strangers.lookup_after {origin : Id} {ns : List Node} (h : Strangers origin ns) {id : Id}
    {n : Node} : (Known.after origin (ns.map .insert)).lookup id = some n ↔ n ∈ ns ∧ n.id = id := by
  induction ns using List.reverseRecOn with
  | nil => simp [Known.after]
  | append_singleton ns last ih =>
    have hlast : last.id.space = origin.space ∧ last.id ≠ origin :=
      ⟨h.space last (by simp), h.ne_origin last (by simp)⟩
    have hafter : Known.after origin ((ns ++ [last]).map .insert) =
        (Known.after origin (ns.map .insert)).insert last.id last := by
      rw [Known.after, List.map_append, List.foldl_append]
      exact if_pos hlast
    rw [hafter]
    by_cases hid : id = last.id
    · subst hid
      rw [Finmap.lookup_insert, Option.some.injEq]
      constructor
      · rintro rfl
        exact ⟨by simp, rfl⟩
      · rintro ⟨hn, hsame⟩
        exact (h.distinct.eq_of_id hn (by simp) hsame).symm
    · rw [Finmap.lookup_insert_of_ne _ hid, ih (h.of_sublist (List.sublist_append_left _ _)),
        List.mem_append, List.mem_singleton]
      constructor
      · rintro ⟨hn, hsame⟩
        exact ⟨Or.inl hn, hsame⟩
      · rintro ⟨hn | rfl, hsame⟩
        · exact ⟨hn, hsame⟩
        · exact absurd hsame.symm hid

namespace PrefixTable

/-- A column of the first row holds the stored nodes whose first digit it is, unless the origin has
the same one. -/
theorem Stores.mem_first_row {t : PrefixTable} {known : Known} (h : t.Stores known)
    {col : Fin t.origin.id.space.base} {n : Node} :
    n ∈ t.columns.get ⟨0, t.origin.id.space.length_pos⟩ col ↔
      n ∈ t.entries ∧ n.id.digit 0 = col ∧ n.id.digit 0 ≠ t.origin.id.digit 0 := by
  rw [h.mem_iff, h.mem_entries, cell?_eq_some]
  apply and_congr_right
  intro hn
  have hspace : n.id.space = t.origin.id.space := (cell?_isSome.mp (h.located n.id n hn).2).1
  rw [Id.sharedPrefix_eq_zero_iff hspace.symm, Id.digit?_of_lt n.id.space.length_pos,
    Option.some.injEq]
  constructor
  · rintro ⟨-, hdifferent, hcol⟩
    exact ⟨hcol, hdifferent.symm⟩
  · rintro ⟨hcol, hdifferent⟩
    exact ⟨hspace, hdifferent.symm, hcol⟩

theorem occupied_first (t : PrefixTable) :
    t.occupied.head? = some ((List.finRange _).countP fun col =>
      !(t.columns.get ⟨0, t.origin.id.space.length_pos⟩ col).isEmpty) := by
  have hfirst : (List.finRange t.origin.id.space.length)[0]? =
      some ⟨0, t.origin.id.space.length_pos⟩ := by
    rw [List.getElem?_eq_getElem (by simpa using t.origin.id.space.length_pos)]
    simp
  rw [occupied, toLists_eq, List.map_map, List.head?_eq_getElem?, List.getElem?_map, hfirst,
    Option.map_some, Function.comp_apply, List.countP_map]
  rfl

/-- The first row has one column in use for each first digit among the stored nodes that is not the
origin's own. -/
theorem Stores.occupied_first {t : PrefixTable} {known : Known} (h : t.Stores known) :
    t.occupied.head? = some
      ((t.entries.map (·.id.digit 0)).toFinset.erase (t.origin.id.digit 0)).card := by
  have hused : (((List.finRange _).filter fun col =>
      !(t.columns.get ⟨0, t.origin.id.space.length_pos⟩ col).isEmpty).toFinset.image Fin.val) =
        (t.entries.map (·.id.digit 0)).toFinset.erase (t.origin.id.digit 0) := by
    ext digit
    simp only [Finset.mem_image, List.mem_toFinset, List.mem_filter, Finset.mem_erase, List.mem_map,
      Bool.not_eq_true', List.isEmpty_eq_false_iff_exists_mem, h.mem_first_row, List.mem_finRange,
      true_and]
    constructor
    · rintro ⟨col, ⟨n, hn, hcol, hdifferent⟩, rfl⟩
      exact ⟨hcol ▸ hdifferent, n, hn, hcol⟩
    · rintro ⟨hdifferent, n, hn, rfl⟩
      have hlocated := (h.located n.id n ((h.mem_entries n).mp hn)).2
      have hspace : n.id.space = t.origin.id.space := (cell?_isSome.mp hlocated).1
      exact ⟨⟨n.id.digit 0, hspace ▸ n.id.digit_lt 0⟩, ⟨n, hn, rfl, hdifferent⟩, rfl⟩
  rw [PrefixTable.occupied_first, ← hused, Finset.card_image_of_injective _ Fin.val_injective,
    List.toFinset_card_of_nodup ((List.nodup_finRange _).filter _), List.countP_eq_length_filter]

end PrefixTable

namespace Peers

variable {origin : Node} {ns : List Node}

/-- Tells of nodes one after the other. -/
def insertAll (p : Peers) (ns : List Node) : Peers := p.updateAll (ns.map .insert)

theorem vacancies_insertAll (side : Side) (p : Peers) (ns : List Node) :
    vacancies side p (ns.map .insert) = 0 := by
  induction ns generalizing p with
  | nil => rfl
  | cons n ns ih =>
    rw [List.map_cons, vacancies, ih]
    rfl

theorem empty_complete (origin : Node) (metric : Metric) (config : Config) (side : Side) :
    (empty origin metric config).Complete side := by
  rw [Complete, empty_stored, Ranked.nearest, Ranked.sort, List.mergeSort_nil, List.take_nil]
  cases side <;> rfl

/-- Every node that the table takes is also offered to the neighborhood. -/
theorem neighborhood_insertAll {p : Peers} (h : Strangers p.table.origin.id ns) :
    (p.insertAll ns).neighborhood = p.neighborhood.offerAll ns := by
  induction ns generalizing p with
  | nil => rfl
  | cons n ns ih =>
    have htaken : (p.table.insert n).2 ≠ .ignored := by
      rw [Ne, PrefixTable.insert_ignored_iff, not_not]
      exact ⟨h.space n List.mem_cons_self, h.ne_origin n List.mem_cons_self⟩
    have hinsert := (p.insert_cases n).resolve_left fun hignored => htaken hignored.1
    have hfirst : (p.update (.insert n)).neighborhood = (p.neighborhood.offer n).1 := by
      rw [Peers.update, hinsert.2]
    have horigin : (p.update (.insert n)).table.origin = p.table.origin :=
      (p.update_parameters (.insert n)).1
    have hrest := ih (horigin ▸ h.of_sublist (List.sublist_cons_self n ns))
    rw [hfirst] at hrest
    exact hrest

variable (metric : Metric) (config : Config)

theorem entries_perm (h : Strangers origin.id ns) :
    ((empty origin metric config).insertAll ns).table.entries.Perm ns := by
  have hstores : ((empty origin metric config).insertAll ns).table.Stores _ :=
    (updateAll_empty origin metric config (ns.map .insert)).2.stores
  apply (List.perm_ext_iff_of_nodup hstores.distinct_entries.of_map h.distinct.of_map).mpr
  intro n
  rw [hstores.mem_entries, h.lookup_after]
  exact and_iff_left rfl

theorem size_insertAll (h : Strangers origin.id ns) :
    ((empty origin metric config).insertAll ns).table.size = ns.length := by
  rw [PrefixTable.size_eq_length]
  exact (entries_perm metric config h).length_eq

theorem occupied_insertAll (h : Strangers origin.id ns) :
    ((empty origin metric config).insertAll ns).table.occupied.head? =
      some ((ns.map (·.id.digit 0)).toFinset.erase (origin.id.digit 0)).card := by
  obtain ⟨haround, hcoherent⟩ :
      Around origin metric config ((empty origin metric config).insertAll ns) ∧
        ((empty origin metric config).insertAll ns).Coherent _ :=
    updateAll_empty origin metric config (ns.map .insert)
  have hdigits := (entries_perm metric config h).map (·.id.digit 0)
  rw [hcoherent.stores.occupied_first, haround.table_origin, List.toFinset_eq_of_perm _ _ hdigits]

theorem length_half_insertAll (h : Strangers origin.id ns) (side : Side) :
    (((empty origin metric config).insertAll ns).leaves.half side).length =
      min config.leafCapacity (ns.countP (side.holds origin.id ·.id)) := by
  have haround : Around origin metric config ((empty origin metric config).insertAll ns) :=
    (updateAll_empty origin metric config (ns.map .insert)).1
  have hcomplete : ((empty origin metric config).insertAll ns).Complete side :=
    (empty_coherent origin metric config).complete_updateAll (empty_around origin metric config)
      (empty_complete origin metric config side) (vacancies_insertAll side _ ns)
  rw [hcomplete.length_half, haround.leaves_capacity, stored, haround.table_origin,
    ← List.countP_eq_length_filter, (entries_perm metric config h).countP_eq]

theorem length_neighborhood_insertAll (h : Strangers origin.id ns) :
    ((empty origin metric config).insertAll ns).neighborhood.members.length =
      min config.neighborhoodCapacity ns.length := by
  have hempty : (empty origin metric config).neighborhood.Sound :=
    (empty_coherent origin metric config).neighborhood
  have hnobody : (empty origin metric config).neighborhood.members =
      Ranked.nearest (metric.nearer origin) config.neighborhoodCapacity [] :=
    (Ranked.Ascending.nearest_eq List.Pairwise.nil (Nat.zero_le _)).symm
  have hothers : ns.filter (fun n => n.id ≠ origin.id) = ns := by
    apply List.filter_eq_self.mpr
    intro n hn
    simpa using h.ne_origin n hn
  have hmembers := hempty.members_offerAll hnobody h.distinct
  rw [neighborhood_insertAll h, hmembers, Ranked.length_nearest, List.nil_append]
  exact congrArg (fun others => min _ (List.length others)) hothers

end Peers

end Overlay
