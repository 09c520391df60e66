import Mathlib
import Overlay.Peers.Neighborhood
import Overlay.Proofs.Metric
import Overlay.Proofs.Peers.History
import Overlay.Proofs.Peers.Roster

/-!
What a neighborhood keeps. The old copy of a member is dropped before the new one is judged, so an
offer always keeps the beginning of the list with the new copy put in place. As long as only nodes
that are no members are offered, nothing is ever dropped but the worst of a full list, and the
members are the nearest of all that were offered.
-/

namespace Overlay.Neighborhood

open Keyspace (Id)
open Roster (Distinct Kept place place_of_new)

/-- Members are ranked and within capacity, and the origin is none of them. -/
structure Sound (s : Neighborhood) : Prop where
  kept : Kept (s.metric.nearer s.origin) s.members
  length_le : s.members.length ≤ s.capacity
  ne_origin : ∀ n ∈ s.members, n.id ≠ s.origin.id

theorem empty_sound (origin : Node) (metric : Metric) (capacity : Nat) :
    (empty origin metric capacity).Sound :=
  ⟨Kept.nil, Nat.zero_le _, by simp [empty]⟩

theorem offer_self (s : Neighborhood) {n : Node} (hid : n.id = s.origin.id) :
    s.offer n = (s, false) :=
  if_pos hid

theorem Sound.offer_eq {s : Neighborhood} (h : s.Sound) {n : Node} (hid : n.id ≠ s.origin.id) :
    (s.offer n).1 =
      { s with members := (place (s.metric.nearer s.origin) n s.members).take s.capacity } := by
  have hothers : Kept (s.metric.nearer s.origin) (s.members.eraseP (·.id = n.id)) :=
    h.kept.of_sublist List.eraseP_sublist
  have hlength : (s.members.eraseP (·.id = n.id)).length ≤ s.capacity :=
    Nat.le_trans List.eraseP_sublist.length_le h.length_le
  have hnew : ∀ m ∈ s.members.eraseP (·.id = n.id), m.id ≠ n.id := by
    intro m hm
    exact (h.kept.distinct.mem_eraseP.mp hm).2
  rw [offer, if_neg hid, place, ← hothers.ascending.offer_eq hlength hnew]
  rfl

/-- An offer brings in nothing but the node offered, and leaves no other copy of it. -/
theorem Sound.mem_offer {s : Neighborhood} (h : s.Sound) {n m : Node}
    (hm : m ∈ (s.offer n).1.members) : m = n ∨ m ∈ s.members ∧ m.id ≠ n.id := by
  by_cases hid : n.id = s.origin.id
  · rw [offer_self s hid] at hm
    exact Or.inr ⟨hm, hid ▸ h.ne_origin m hm⟩
  · rw [h.offer_eq hid] at hm
    exact h.kept.mem_place.mp (List.mem_of_mem_take hm)

theorem contains_iff {s : Neighborhood} {id : Id} :
    s.contains id = true ↔ ∃ m ∈ s.members, m.id = id := by
  simp [contains]

theorem Sound.mem_erase {s : Neighborhood} (h : s.Sound) {id : Id} {m : Node} :
    m ∈ (s.erase id).members ↔ m ∈ s.members ∧ m.id ≠ id :=
  h.kept.distinct.mem_eraseP

theorem Sound.offer {s : Neighborhood} (h : s.Sound) (n : Node) : (s.offer n).1.Sound := by
  by_cases hid : n.id = s.origin.id
  · rw [offer_self s hid]
    exact h
  · have hmem {m : Node} (hm : m ∈ (s.offer n).1.members) := h.mem_offer hm
    rw [h.offer_eq hid] at hmem ⊢
    refine ⟨(h.kept.place n).of_sublist (List.take_sublist _ _), List.length_take_le _ _, ?_⟩
    intro m hm
    rcases hmem hm with rfl | ⟨hold, -⟩
    · exact hid
    · exact h.ne_origin m hold

theorem Sound.erase {s : Neighborhood} (h : s.Sound) (id : Id) : (s.erase id).Sound :=
  ⟨h.kept.of_sublist List.eraseP_sublist,
    Nat.le_trans List.eraseP_sublist.length_le h.length_le,
    fun m hm => h.ne_origin m (List.mem_of_mem_eraseP hm)⟩

/-- An update of the neighborhood. -/
def update (s : Neighborhood) : Update → Neighborhood
  | .insert n => (s.offer n).1
  | .evict id => s.erase id

theorem Sound.update {s : Neighborhood} (h : s.Sound) (u : Update) : (s.update u).Sound := by
  cases u with
  | insert n => exact h.offer n
  | evict id => exact h.erase id

/-- What an update leaves alone. -/
theorem update_parameters (s : Neighborhood) (u : Update) :
    (s.update u).origin = s.origin ∧ (s.update u).metric = s.metric ∧
      (s.update u).capacity = s.capacity := by
  cases u with
  | insert n =>
    rw [update, Neighborhood.offer]
    split <;> exact ⟨rfl, rfl, rfl⟩
  | evict id => exact ⟨rfl, rfl, rfl⟩

/-- The neighborhood after a history. -/
def updateAll (s : Neighborhood) (history : List Update) : Neighborhood := history.foldl update s

theorem updateAll_parameters (s : Neighborhood) (history : List Update) :
    (s.updateAll history).origin = s.origin ∧ (s.updateAll history).metric = s.metric ∧
      (s.updateAll history).capacity = s.capacity := by
  induction history generalizing s with
  | nil => exact ⟨rfl, rfl, rfl⟩
  | cons u history ih =>
    obtain ⟨horigin, hmetric, hcapacity⟩ := s.update_parameters u
    obtain ⟨horigin', hmetric', hcapacity'⟩ := ih (s.update u)
    exact ⟨horigin'.trans horigin, hmetric'.trans hmetric, hcapacity'.trans hcapacity⟩

theorem Sound.updateAll {s : Neighborhood} (h : s.Sound) (history : List Update) :
    (s.updateAll history).Sound := by
  induction history generalizing s with
  | nil => exact h
  | cons u history ih => exact ih (h.update u)

/-- Offers nodes one after the other. -/
def offerAll (s : Neighborhood) (offers : List Node) : Neighborhood :=
  s.updateAll (offers.map .insert)

/-- A neighborhood is determined by its parameters and members. -/
theorem eq_of_members {s t : Neighborhood} (horigin : s.origin = t.origin)
    (hmetric : s.metric = t.metric) (hcapacity : s.capacity = t.capacity)
    (hmembers : s.members = t.members) : s = t := by
  obtain ⟨origin, metric, capacity, members⟩ := s
  obtain ⟨origin', metric', capacity', members'⟩ := t
  subst horigin hmetric hcapacity hmembers
  rfl

/-- An offer from outside the candidates becomes one of them. -/
theorem Sound.members_offer {s : Neighborhood} (h : s.Sound) {candidates : List Node}
    (hmembers : s.members = Ranked.nearest (s.metric.nearer s.origin) s.capacity candidates)
    {n : Node} (hid : n.id ≠ s.origin.id) (hdistinct : Distinct (n :: candidates)) :
    (s.offer n).1.members =
      Ranked.nearest (s.metric.nearer s.origin) s.capacity (n :: candidates) := by
  have hnew : ∀ m ∈ s.members, m.id ≠ n.id := by
    intro m hm heq
    rw [hmembers] at hm
    have hcandidate : m ∈ candidates := Ranked.mem_sort.mp (List.mem_of_mem_take hm)
    have hfresh : n.id ∉ candidates.map (·.id) := (List.nodup_cons.mp hdistinct).1
    exact hfresh (heq ▸ List.mem_map_of_mem hcandidate)
  rw [h.offer_eq hid, place_of_new hnew, hmembers]
  exact Ranked.take_insert_nearest hdistinct s.capacity

/-- The invariant of offers from outside: the members are the nearest of the candidates so far. -/
theorem Sound.members_offerAll {s : Neighborhood} (h : s.Sound) {candidates : List Node}
    (hmembers : s.members = Ranked.nearest (s.metric.nearer s.origin) s.capacity candidates)
    {offers : List Node} (hdistinct : Distinct (candidates ++ offers)) :
    (s.offerAll offers).members =
      Ranked.nearest (s.metric.nearer s.origin) s.capacity
        (candidates ++ offers.filter (·.id ≠ s.origin.id)) := by
  induction offers generalizing s candidates with
  | nil => rw [List.filter_nil, List.append_nil]; exact hmembers
  | cons n offers ih =>
    change ((s.offer n).1.offerAll offers).members = _
    by_cases hid : n.id = s.origin.id
    · have hrest : Distinct (candidates ++ offers) :=
        hdistinct.of_sublist (List.Sublist.append_left (List.sublist_cons_self n offers) candidates)
      rw [offer_self s hid, List.filter_cons_of_neg (by simp [hid])]
      exact ih h hmembers hrest
    · have hperm : (candidates ++ n :: offers).Perm ((n :: candidates) ++ offers) :=
        List.perm_middle
      have hdistinct' : Distinct ((n :: candidates) ++ offers) :=
        (hperm.map _).nodup_iff.mp hdistinct
      have hfirst : Distinct (n :: candidates) :=
        hdistinct'.of_sublist (List.sublist_append_left _ _)
      obtain ⟨horigin, hmetric, hcapacity⟩ : (s.offer n).1.origin = s.origin ∧
          (s.offer n).1.metric = s.metric ∧ (s.offer n).1.capacity = s.capacity :=
        s.update_parameters (.insert n)
      have hoffered : (s.offer n).1.members =
          Ranked.nearest ((s.offer n).1.metric.nearer (s.offer n).1.origin) (s.offer n).1.capacity
            (n :: candidates) := by
        rw [horigin, hmetric, hcapacity]
        exact h.members_offer hmembers hid hfirst
      rw [ih (h.offer n) hoffered hdistinct', horigin, hmetric, hcapacity,
        List.filter_cons_of_pos (by simp [hid])]
      apply Ranked.nearest_eq_of_perm List.perm_middle.symm
      exact hdistinct.of_sublist
        (List.Sublist.append_left ((List.filter_sublist).cons_cons n) candidates)

/-- What newcomers leave behind does not depend on their order. -/
theorem Sound.offerAll_eq_of_perm {s : Neighborhood} (h : s.Sound) {offers offers' : List Node}
    (hdistinct : Distinct (s.members ++ offers)) (hperm : offers'.Perm offers) :
    s.offerAll offers' = s.offerAll offers := by
  have hkept : s.members = Ranked.nearest (s.metric.nearer s.origin) s.capacity s.members :=
    (h.kept.ascending.nearest_eq h.length_le).symm
  have hdistinct' : Distinct (s.members ++ offers') :=
    ((hperm.append_left s.members).map _).nodup_iff.mpr hdistinct
  obtain ⟨horigin, hmetric, hcapacity⟩ := s.updateAll_parameters (offers.map .insert)
  obtain ⟨horigin', hmetric', hcapacity'⟩ := s.updateAll_parameters (offers'.map .insert)
  have hmembers : (s.offerAll offers').members = (s.offerAll offers).members := by
    rw [h.members_offerAll hkept hdistinct', h.members_offerAll hkept hdistinct]
    apply Ranked.nearest_eq_of_perm ((hperm.filter _).append_left s.members)
    exact hdistinct.of_sublist (List.filter_sublist.append_left s.members)
  exact eq_of_members (horigin'.trans horigin.symm) (hmetric'.trans hmetric.symm)
    (hcapacity'.trans hcapacity.symm) hmembers

/-- Offered to a neighborhood, nodes that are no members leave it with the nearest of its members
and of themselves, as many as fit and in ascending order, and it does not matter which of them is
offered first. The node that judges is never kept. -/
theorem newcomers_keep_nearest (origin : Node) (metric : Metric) (capacity : Nat)
    (history : List Update) {offers : List Node} (hdistinct : Distinct offers)
    (hnew : ∀ n ∈ offers,
      ((empty origin metric capacity).updateAll history).contains n.id = false) :
    let s := (empty origin metric capacity).updateAll history
    let t := s.offerAll offers
    t.members = Ranked.nearest (metric.nearer origin) capacity
        (s.members ++ offers.filter (·.id ≠ origin.id)) ∧
      t.members.Pairwise (fun a b => metric.nearer origin a b = true) ∧
      ∀ offers', offers'.Perm offers → s.offerAll offers' = t := by
  intro s t
  have hs : s.Sound := (empty_sound origin metric capacity).updateAll history
  have ht : t.Sound := hs.updateAll (offers.map .insert)
  obtain ⟨horigin, hmetric, hcapacity⟩ :
      s.origin = origin ∧ s.metric = metric ∧ s.capacity = capacity :=
    updateAll_parameters (empty origin metric capacity) history
  obtain ⟨htorigin, htmetric, -⟩ := s.updateAll_parameters (offers.map .insert)
  have hkept := (hs.kept.ascending.nearest_eq hs.length_le).symm
  have hall : Distinct (s.members ++ offers) := by
    rw [Distinct, List.map_append]
    apply List.Nodup.append hs.kept.distinct hdistinct
    intro id hmember hoffer
    obtain ⟨m, hm, rfl⟩ := List.mem_map.mp hmember
    obtain ⟨n, hn, hid⟩ := List.mem_map.mp hoffer
    have hnone := hnew n hn
    rw [contains, List.any_eq_false] at hnone
    exact hnone m hm (by simp [hid])
  have hmembers := hs.members_offerAll hkept hall
  have hascending := ht.kept.ascending
  rw [horigin, hmetric, hcapacity] at hmembers
  rw [show t.origin = origin from htorigin.trans horigin,
    show t.metric = metric from htmetric.trans hmetric] at hascending
  exact ⟨hmembers, hascending, fun offers' => hs.offerAll_eq_of_perm hall⟩

/-- A full neighborhood for two, and three newcomers: the node that judges, one that is farther than
both members and one that comes between them. In either order only the last one gets in. -/
theorem newcomer_between_members :
    let node (value : Keyspace.Word) (latency : Nat) : Node :=
      (Node.sample .canonical value).withLatency latency
    let s := (empty (node 0 0) .default 2).updateAll [.insert (node 1 30), .insert (node 2 10)]
    let offers := [node 0 1, node 3 40, node 4 20]
    Distinct offers ∧ (∀ n ∈ offers, s.contains n.id = false) ∧
      (s.offerAll offers).members = [node 2 10, node 4 20] ∧
      s.offerAll offers.reverse = s.offerAll offers := by
  intro node s offers
  have hdistinct : Distinct offers := by decide
  have hnew : ∀ n ∈ offers, s.contains n.id = false := by decide +kernel
  obtain ⟨-, -, horder⟩ := newcomers_keep_nearest (node 0 0) .default 2
    [.insert (node 1 30), .insert (node 2 10)] hdistinct hnew
  exact ⟨hdistinct, hnew, by decide +kernel, horder offers.reverse (List.reverse_perm offers)⟩

end Overlay.Neighborhood
