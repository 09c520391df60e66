import Mathlib
import Overlay.Proofs.Peers.Halves
import Overlay.Proofs.Peers.Territory

/-!
Who owns a key in a cluster in which every node was offered all others. A node keeps another one if
few enough of the rest stand on the same side of it and nearer, and it owns the keys between itself
and the nodes it keeps. So a key has an owner exactly if it lies on the shorter way between two
nodes one of which keeps the other. This need not be: a gap of more than half the ring is never the
shorter way, and two nodes next to each other on the ring may both have filled that half with
others.
-/

namespace Overlay.LeafSet

open Keyspace (Id Space)
open Ranked (Ranking)
open Roster (Kept placeAll mem_ids_filter)

/-- The identifiers of a cluster that stand on the same side of the origin as `m`, and nearer. -/
def rivals (cluster : Finset Id) (origin m : Id) : Finset Id :=
  cluster.filter fun r => r ≠ origin ∧ r.precedes origin = m.precedes origin ∧
    closer origin r m = true

/-- Too few of the cluster come before `m` to fill its half of a leaf set around `origin`. -/
structure Keeps (cluster : Finset Id) (capacity : Nat) (origin m : Id) : Prop where
  mem : m ∈ cluster
  ne : m ≠ origin
  few : (rivals cluster origin m).card < capacity

/-- All other members of the cluster are offered to a node, in any order and any number of times. -/
def OffersAll (cluster : Finset Id) (origin : Id) (offers : List Node) : Prop :=
  ∀ id, id ≠ origin → (id ∈ offers.map (·.id) ↔ id ∈ cluster)

variable {cluster : Finset Id} {origin m : Id} {offers : List Node} {capacity : Nat} {side : Side}

/-- The identifiers of a side among the offers, nearest first. -/
def candidates (origin : Id) (offers : List Node) (side : Side) : List Id :=
  (placeAll (nearer origin) (offers.filter (side.holds origin ·.id)) []).map (·.id)

theorem candidates_ascending (origin : Id) (offers : List Node) (side : Side) :
    Ranked.Ascending (closer origin) (candidates origin offers side) := by
  have hnil : Kept (nearer origin) [] := Kept.nil
  exact List.pairwise_map.mpr (hnil.placeAll _).ascending

theorem ids_half_offerAll (origin : Id) (capacity : Nat) (offers : List Node) (side : Side) :
    (((empty origin capacity).offerAll offers).half side).map (·.id) =
      (candidates origin offers side).take capacity := by
  have hnil : Half origin capacity (side.holds origin) [] := Half.nil _ _ _
  have hempty : (empty origin capacity).half side = [] := by cases side <;> rfl
  rw [half_offerAll, hempty, candidates, ← List.map_take]
  exact congrArg _ (hnil.offerAllHalf_eq _)

theorem OffersAll.mem_candidates (h : OffersAll cluster origin offers) {id : Id} :
    id ∈ candidates origin offers side ↔ id ∈ cluster ∧ side.holds origin id = true := by
  have hnil : Kept (nearer origin) [] := Kept.nil
  rw [candidates, hnil.mem_ids_placeAll, mem_ids_filter]
  simp only [List.map_nil, List.not_mem_nil, or_false]
  refine and_congr_left fun hside => h id ?_
  rintro rfl
  rw [Side.holds_self] at hside
  cases hside

/-- The rivals are the candidates that come first. -/
theorem OffersAll.card_rivals (h : OffersAll cluster origin offers)
    (hside : side.holds origin m = true) :
    (rivals cluster origin m).card =
      (candidates origin offers side).countP (closer origin · m) := by
  have hnodup : (candidates origin offers side).Nodup := (candidates_ascending _ _ _).nodup
  have hrivals : rivals cluster origin m =
      ((candidates origin offers side).filter (closer origin · m)).toFinset := by
    ext r
    rw [rivals, Finset.mem_filter, List.mem_toFinset, List.mem_filter, h.mem_candidates,
      Side.holds_iff_of_holds hside, and_assoc, and_assoc]
  rw [hrivals, List.toFinset_card_of_nodup (hnodup.filter _), List.countP_eq_length_filter]

theorem mem_ids_offerAll :
    m ∈ ((empty origin capacity).offerAll offers).ids ↔
      ∃ side, m ∈ (candidates origin offers side).take capacity := by
  simp only [mem_ids, mem_members_iff, ← ids_half_offerAll, List.mem_map]
  constructor
  · rintro ⟨n, ⟨side, hn⟩, hid⟩
    exact ⟨side, n, hn, hid⟩
  · rintro ⟨side, n, hn, hid⟩
    exact ⟨n, ⟨side, hn⟩, hid⟩

theorem OffersAll.mem_ids_iff (h : OffersAll cluster origin offers) :
    m ∈ ((empty origin capacity).offerAll offers).ids ↔ Keeps cluster capacity origin m := by
  rw [mem_ids_offerAll]
  constructor
  · rintro ⟨side, hm⟩
    obtain ⟨hm, hfew⟩ := (candidates_ascending _ _ _).mem_take_iff.mp hm
    obtain ⟨hcluster, hside⟩ := h.mem_candidates.mp hm
    exact ⟨hcluster, Side.exists_holds_iff.mp ⟨side, hside⟩, (h.card_rivals hside).trans_lt hfew⟩
  · rintro ⟨hcluster, hne, hfew⟩
    obtain ⟨side, hside⟩ := Side.exists_holds_iff.mpr hne
    refine ⟨side, (candidates_ascending _ _ _).mem_take_iff.mpr ⟨?_, ?_⟩⟩
    · exact h.mem_candidates.mpr ⟨hcluster, hside⟩
    · exact (h.card_rivals hside).symm.trans_lt hfew

/-- With room for members a leaf set stays empty only in a cluster of one. -/
theorem OffersAll.isEmpty_iff (h : OffersAll cluster origin offers) (hcapacity : 0 < capacity)
    (horigin : origin ∈ cluster) :
    ((empty origin capacity).offerAll offers).isEmpty = true ↔ cluster.card = 1 := by
  rw [LeafSet.isEmpty_iff, Finset.card_eq_one]
  constructor
  · intro hnone
    refine ⟨origin, Finset.eq_singleton_iff_unique_mem.mpr ⟨horigin, fun m hm => ?_⟩⟩
    -- Another member is a candidate of its side, and the nearest candidate there is kept.
    by_contra hne
    obtain ⟨side, hside⟩ := Side.exists_holds_iff.mpr hne
    have hpos := List.length_pos_of_mem (h.mem_candidates.mpr ⟨hm, hside⟩)
    obtain ⟨first, hfirst⟩ : ∃ first, first ∈ (candidates origin offers side).take capacity := by
      refine List.exists_mem_of_length_pos ?_
      rw [List.length_take]
      omega
    have hmember := mem_ids_offerAll.mpr ⟨side, hfirst⟩
    rw [hnone] at hmember
    exact Finset.notMem_empty first hmember
  · rintro ⟨only, rfl⟩
    refine Finset.eq_empty_of_forall_notMem fun m hm => ?_
    have hkeeps := h.mem_ids_iff.mp hm
    rw [Finset.mem_singleton] at horigin
    exact hkeeps.ne ((Finset.mem_singleton.mp hkeeps.mem).trans horigin.symm)

theorem OffersAll.covers_iff (h : OffersAll cluster origin offers) (hcapacity : 0 < capacity)
    (horigin : origin ∈ cluster) (hspace : ∀ id ∈ cluster, id.space = origin.space) {key : Id}
    (hkey : key.space = origin.space) :
    ((empty origin capacity).offerAll offers).covers key = true ↔
      cluster.card = 1 ∨ ∃ m, Keeps cluster capacity origin m ∧ Between origin m key := by
  have hself : ((empty origin capacity).offerAll offers).origin = origin :=
    (updateAll_parameters _ _).1
  have hlocal : ((empty origin capacity).offerAll offers).Local := by
    intro id hid
    rw [hself]
    exact hspace id (h.mem_ids_iff.mp hid).mem
  rw [hlocal.covers_iff_between (hkey.trans (congrArg Id.space hself.symm)), hself,
    h.isEmpty_iff hcapacity horigin]
  simp only [h.mem_ids_iff]

/-- In a cluster in which every node was offered all others, in any order, a key has an owner
exactly if the cluster has one member only or the key lies on the shorter way from one member to
another that it keeps. A member keeps another one if fewer members than a half has room for stand on
the same side and nearer. -/
theorem owned_iff_between_kept {space : Space} {cluster : Finset Id}
    (hspace : ∀ id ∈ cluster, id.space = space) {capacity : Nat} (hcapacity : 0 < capacity)
    {offers : Id → List Node} (hoffers : ∀ id ∈ cluster, OffersAll cluster id (offers id))
    {key : Id} (hkey : key.space = space) :
    (∃ owner ∈ cluster, ((empty owner capacity).offerAll (offers owner)).covers key = true) ↔
      cluster.card = 1 ∨
        ∃ owner ∈ cluster, ∃ m, Keeps cluster capacity owner m ∧ Between owner m key := by
  have hcovers {owner : Id} (howner : owner ∈ cluster) :=
    (hoffers owner howner).covers_iff hcapacity howner
      (fun id hid => (hspace id hid).trans (hspace owner howner).symm)
      (hkey.trans (hspace owner howner).symm)
  constructor
  · rintro ⟨owner, howner, howns⟩
    exact ((hcovers howner).mp howns).imp_right fun hkept => ⟨owner, howner, hkept⟩
  · rintro (hsingle | ⟨owner, howner, hkept⟩)
    · obtain ⟨owner, howner⟩ : cluster.Nonempty := Finset.card_pos.mp (by omega)
      exact ⟨owner, howner, (hcovers howner).mpr (Or.inl hsingle)⟩
    · exact ⟨owner, howner, (hcovers howner).mpr (Or.inr hkept)⟩

/-- Three nodes and room for two in each half: the key in the widest gap lies on the shorter way
from one end of the gap to the other, and that end keeps the other. -/
theorem widest_gap_owned :
    let space : Space := { radix := .binary, length := 2 }
    let node := Node.sample space
    let nodes := [node 0, node 1, node 2]
    let cluster := (nodes.map (·.id)).toFinset
    (∀ id ∈ cluster, id.space = space) ∧ (∀ id ∈ cluster, OffersAll cluster id nodes) ∧
      ∃ owner ∈ cluster, ((empty owner 2).offerAll nodes).covers (node 3).id = true := by
  intro space node nodes cluster
  have hspace : ∀ id ∈ cluster, id.space = space := by decide
  have hoffers : ∀ id ∈ cluster, OffersAll cluster id nodes :=
    fun _ _ _ _ => List.mem_toFinset.symm
  refine ⟨hspace, hoffers, (owned_iff_between_kept hspace (by decide) hoffers rfl).mpr ?_⟩
  exact Or.inr ⟨(node 2).id, by decide, (node 0).id, ⟨by decide, by decide, by decide⟩, by decide⟩

/-- Keys without an owner, in clusters in which every node was offered all others and has room for
one in each half. Of two nodes side by side neither claims the far side of the ring. And where the
numbering starts, a gap of no more than half the ring has no owner, since both its ends keep a
nearer node. -/
theorem unowned_keys :
    let space : Space := { radix := .binary, length := 2 }
    let node := Node.sample space
    let leaves (cluster : List Keyspace.Word) (value : Keyspace.Word) : LeafSet :=
      (empty (node value).id 1).offerAll ((cluster.erase value).map node)
    let owned (cluster : List Keyspace.Word) (key : Keyspace.Word) : Bool :=
      cluster.any fun value => (leaves cluster value).covers (node key).id
    owned [0, 1] 3 = false ∧ owned [1, 2, 3] 0 = false :=
  ⟨by rfl, by rfl⟩

end Overlay.LeafSet
