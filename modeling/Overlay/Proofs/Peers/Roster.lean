import Mathlib
import Overlay.Node
import Overlay.Proofs.Peers.Ranked

/-!
Lists of nodes that hold at most one copy of each node. The columns of a prefix table, the halves of
a leaf set and a neighborhood are such lists, kept in ascending order of a rank, and each takes a
new copy of a node by dropping the old one and ranking the new one.
-/

namespace Overlay.Roster

open Keyspace (Id)
open Ranked (Ascending Ranking)

variable {before : Node → Node → Bool}

/-- No two nodes have the same identifier. -/
def Distinct (ns : List Node) : Prop := (ns.map (·.id)).Nodup

instance (ns : List Node) : Decidable (Distinct ns) :=
  inferInstanceAs (Decidable (ns.map (·.id)).Nodup)

theorem Distinct.eq_of_id {ns : List Node} (h : Distinct ns) {a b : Node} (ha : a ∈ ns)
    (hb : b ∈ ns) (hid : a.id = b.id) : a = b :=
  List.inj_on_of_nodup_map h ha hb hid

theorem Distinct.of_sublist {ms ns : List Node} (h : Distinct ns) (hsub : ms.Sublist ns) :
    Distinct ms :=
  List.Nodup.sublist (hsub.map _) h

/-- The identifiers left after keeping the nodes whose identifiers pass a test. -/
theorem mem_ids_filter {ns : List Node} {test : Id → Bool} {id : Id} :
    id ∈ (ns.filter (test ·.id)).map (·.id) ↔ id ∈ ns.map (·.id) ∧ test id = true := by
  simp only [List.mem_map, List.mem_filter]
  constructor
  · rintro ⟨n, ⟨hn, htest⟩, rfl⟩
    exact ⟨⟨n, hn, rfl⟩, htest⟩
  · rintro ⟨⟨n, hn, rfl⟩, htest⟩
    exact ⟨n, ⟨hn, htest⟩, rfl⟩

theorem filter_of_new {ns : List Node} {id : Id} (hnew : ∀ n ∈ ns, n.id ≠ id) :
    ns.filter (·.id ≠ id) = ns :=
  List.filter_eq_self.mpr fun n hn => decide_eq_true (hnew n hn)

/-- Dropping the copy of an identifier leaves the nodes with other identifiers. -/
theorem Distinct.eraseP_eq_filter {ns : List Node} (h : Distinct ns) (id : Id) :
    ns.eraseP (·.id = id) = ns.filter (·.id ≠ id) := by
  induction ns with
  | nil => rfl
  | cons n ns ih =>
    obtain ⟨hnew, hns⟩ := List.nodup_cons.mp h
    by_cases hid : n.id = id
    · -- Behind the copy that is dropped there is no other one.
      have hothers : ∀ m ∈ ns, m.id ≠ id := by
        intro m hm hother
        exact hnew (List.mem_map.mpr ⟨m, hm, hother.trans hid.symm⟩)
      rw [List.eraseP_cons_of_pos (by simp [hid]), List.filter_cons_of_neg (by simp [hid]),
        filter_of_new hothers]
    · rw [List.eraseP_cons_of_neg (by simp [hid]), List.filter_cons_of_pos (by simp [hid]), ih hns]

theorem Distinct.mem_eraseP {ns : List Node} (h : Distinct ns) {id : Id} {a : Node} :
    a ∈ ns.eraseP (·.id = id) ↔ a ∈ ns ∧ a.id ≠ id := by
  rw [h.eraseP_eq_filter, List.mem_filter, decide_eq_true_eq]

/-- Searching for an identifier ends at the one copy of its node. -/
theorem Distinct.findIdx?_eq_some {ns : List Node} (h : Distinct ns) {id : Id} {i : Nat} :
    ns.findIdx? (·.id = id) = some i ↔ ∃ n, ns[i]? = some n ∧ n.id = id := by
  rw [List.findIdx?_eq_some_iff_getElem]
  constructor
  · rintro ⟨hi, hid, -⟩
    exact ⟨ns[i], List.getElem?_eq_getElem hi, by simpa using hid⟩
  · rintro ⟨n, hn, hid⟩
    obtain ⟨hi, rfl⟩ := List.getElem?_eq_some_iff.mp hn
    refine ⟨hi, by simpa using hid, fun j hji hj => ?_⟩
    have hdistinct :=
      List.pairwise_iff_getElem.mp (List.pairwise_map.mp h) j i (hji.trans hi) hi hji
    exact hdistinct ((by simpa using hj : ns[j].id = id).trans hid.symm)

theorem Distinct.find?_eq_some {ns : List Node} (h : Distinct ns) {id : Id} {a : Node} :
    ns.find? (·.id = id) = some a ↔ a ∈ ns ∧ a.id = id := by
  constructor
  · intro hfind
    exact ⟨List.mem_of_find?_eq_some hfind, by simpa using List.find?_some hfind⟩
  · rintro ⟨ha, hid⟩
    obtain ⟨b, hb⟩ := Option.isSome_iff_exists.mp
      (List.find?_isSome.mpr ⟨a, ha, by simpa using hid⟩ : (ns.find? (·.id = id)).isSome)
    have hbid : b.id = id := by simpa using List.find?_some hb
    rw [hb, h.eq_of_id (List.mem_of_find?_eq_some hb) ha (hbid.trans hid.symm)]

/-- Puts a new copy of a node in its place, and drops the old copy if there is one. -/
def place (before : Node → Node → Bool) (n : Node) (ns : List Node) : List Node :=
  Ranked.insert before n (ns.eraseP (·.id = n.id))

theorem place_of_new {n : Node} {ns : List Node} (hnew : ∀ m ∈ ns, m.id ≠ n.id) :
    place before n ns = Ranked.insert before n ns := by
  rw [place, List.eraseP_of_forall_not (by simpa using hnew)]

/-- At most one copy of each node, in ascending order. -/
structure Kept (before : Node → Node → Bool) (ns : List Node) : Prop where
  ascending : Ascending before ns
  distinct : Distinct ns

theorem Kept.nil : Kept before [] := ⟨List.Pairwise.nil, List.nodup_nil⟩

theorem Kept.of_sublist {ms ns : List Node} (h : Kept before ns) (hsub : ms.Sublist ns) :
    Kept before ms :=
  ⟨List.Pairwise.sublist hsub h.ascending, h.distinct.of_sublist hsub⟩

theorem Kept.mem_place {ns : List Node} (h : Kept before ns) {n a : Node} :
    a ∈ place before n ns ↔ a = n ∨ a ∈ ns ∧ a.id ≠ n.id := by
  rw [place, Ranked.mem_insert, h.distinct.mem_eraseP]

theorem Kept.mem_ids_place {ns : List Node} (h : Kept before ns) {n : Node} {id : Id} :
    id ∈ (place before n ns).map (·.id) ↔ id = n.id ∨ id ∈ ns.map (·.id) := by
  simp only [List.mem_map, h.mem_place]
  constructor
  · rintro ⟨a, rfl | ⟨ha, -⟩, rfl⟩
    · exact Or.inl rfl
    · exact Or.inr ⟨a, ha, rfl⟩
  · rintro (rfl | ⟨a, ha, rfl⟩)
    · exact ⟨n, Or.inl rfl, rfl⟩
    · by_cases hid : a.id = n.id
      · exact ⟨n, Or.inl rfl, hid.symm⟩
      · exact ⟨a, Or.inr ⟨ha, hid⟩, rfl⟩

theorem length_place (n : Node) (ns : List Node) :
    (place before n ns).length = (ns.eraseP (·.id = n.id)).length + 1 :=
  Ranked.length_insert

theorem Distinct.place_eq {ns : List Node} (h : Distinct ns) (n : Node) :
    place before n ns = Ranked.insert before n (ns.filter (·.id ≠ n.id)) := by
  rw [place, h.eraseP_eq_filter]

/-- The other nodes keep their copies and their order. -/
theorem Distinct.filter_place {ns : List Node} (h : Distinct ns) (n : Node) :
    (place before n ns).filter (·.id ≠ n.id) = ns.filter (·.id ≠ n.id) := by
  rw [h.place_eq, Ranked.filter_insert (by simp), List.filter_filter]
  simp only [Bool.and_self]

theorem Kept.insert [Ranking before Node.id] {ns : List Node} (h : Kept before ns) {n : Node}
    (hnew : ∀ a ∈ ns, a.id ≠ n.id) : Kept before (Ranked.insert before n ns) := by
  refine ⟨h.ascending.insert hnew, ?_⟩
  refine (Ranked.insert_perm.map _).nodup_iff.mpr (List.nodup_cons.mpr ⟨?_, h.distinct⟩)
  intro hn
  obtain ⟨a, ha, hid⟩ := List.mem_map.mp hn
  exact hnew a ha hid

theorem Kept.place [Ranking before Node.id] {ns : List Node} (h : Kept before ns) (n : Node) :
    Kept before (place before n ns) := by
  refine (h.of_sublist List.eraseP_sublist).insert ?_
  intro a ha
  exact (h.distinct.mem_eraseP.mp ha).2

/-- Puts copies in place one after the other. -/
def placeAll (before : Node → Node → Bool) (offers ns : List Node) : List Node :=
  offers.foldl (fun ns n => place before n ns) ns

theorem Kept.placeAll [Ranking before Node.id] {ns : List Node} (h : Kept before ns)
    (offers : List Node) : Kept before (placeAll before offers ns) := by
  induction offers generalizing ns with
  | nil => exact h
  | cons n offers ih => exact ih (h.place n)

theorem Kept.mem_ids_placeAll [Ranking before Node.id] {ns : List Node} (h : Kept before ns)
    (offers : List Node) (id : Id) :
    id ∈ (Roster.placeAll before offers ns).map (·.id) ↔
      id ∈ offers.map (·.id) ∨ id ∈ ns.map (·.id) := by
  induction offers generalizing ns with
  | nil => simp [Roster.placeAll]
  | cons n offers ih =>
    change id ∈ (Roster.placeAll before offers (Roster.place before n ns)).map (·.id) ↔ _
    rw [ih (h.place n), h.mem_ids_place, List.map_cons, List.mem_cons]
    exact or_left_comm.trans or_assoc.symm

/-- The nodes of a list and of the offers made to it, each in its last copy. -/
def latest (ns offers : List Node) : List Node :=
  offers.foldl (fun ns n => n :: ns.filter (·.id ≠ n.id)) ns

theorem Distinct.latest {ns : List Node} (h : Distinct ns) (offers : List Node) :
    Distinct (latest ns offers) := by
  induction offers generalizing ns with
  | nil => exact h
  | cons n offers ih =>
    refine ih (List.nodup_cons.mpr ⟨?_, h.of_sublist List.filter_sublist⟩)
    intro hn
    obtain ⟨a, ha, hid⟩ := List.mem_map.mp hn
    simp [hid] at ha

theorem Kept.mem_placeAll [Ranking before Node.id] {ns ms : List Node} (h : Kept before ns)
    (hmem : ∀ a, a ∈ ns ↔ a ∈ ms) (offers : List Node) (a : Node) :
    a ∈ Roster.placeAll before offers ns ↔ a ∈ latest ms offers := by
  induction offers generalizing ns ms with
  | nil => exact hmem a
  | cons n offers ih =>
    refine ih (h.place n) fun b => ?_
    rw [h.mem_place, List.mem_cons, List.mem_filter, hmem]
    simp

/-- Putting copies in place keeps the last copies sorted. -/
theorem Kept.placeAll_eq_sort [Ranking before Node.id] {ns : List Node} (h : Kept before ns)
    (offers : List Node) :
    Roster.placeAll before offers ns = Ranked.sort before (latest ns offers) := by
  refine (h.placeAll offers).ascending.ext (Ranked.sort_ascending (h.distinct.latest offers)) ?_
  intro a
  rw [h.mem_placeAll (fun _ => Iff.rfl), Ranked.mem_sort]

end Overlay.Roster
