import Mathlib
import Overlay.Proofs.Peers.LeafSet
import Overlay.Proofs.Peers.Territory

/-!
What a leaf set is responsible for after any history of offers and removals. One comparison from the
start of the arc decides whether a key is on it. This is right because the arc runs through the
origin and its two sides together stay short of a turn, so that it means the same as one comparison
on each side. The two ends are found by visiting the members in the order in which they are kept,
yet a member is determined by its distance, so the ends depend only on which members there are.
-/

namespace Overlay.LeafSet

open Keyspace (Id)

variable {s t : LeafSet}

theorem empty_local (origin : Id) (capacity : Nat) : (empty origin capacity).Local := by
  intro id hid
  obtain ⟨m, hm, -⟩ := mem_ids.mp hid
  cases hm

theorem Local.offer (hsound : s.Sound) (h : s.Local) {n : Node} (hn : n.id.space = s.origin.space) :
    (s.offer n).1.Local := by
  intro id hid
  rw [show (s.offer n).1.origin = s.origin from (s.update_parameters (.insert n)).1]
  obtain ⟨m, hm, rfl⟩ := mem_ids.mp hid
  rcases hsound.mem_offer hm with rfl | ⟨hold, -⟩
  · exact hn
  · exact h m.id (mem_ids.mpr ⟨m, hold, rfl⟩)

theorem Local.erase (hsound : s.Sound) (h : s.Local) (id : Id) : (s.erase id).Local := by
  intro kept hkept
  rw [show (s.erase id).origin = s.origin from (s.update_parameters (.evict id)).1]
  obtain ⟨m, hm, rfl⟩ := mem_ids.mp hkept
  exact h m.id (mem_ids.mpr ⟨m, (hsound.mem_erase.mp hm).1, rfl⟩)

/-- Members are local as long as only local nodes are offered. -/
theorem Local.updateAll (hsound : s.Sound) (h : s.Local) {history : List Update}
    (hlocal : ∀ n, .insert n ∈ history → n.id.space = s.origin.space) :
    (s.updateAll history).Local := by
  induction history generalizing s with
  | nil => exact h
  | cons u history ih =>
    refine ih (hsound.update u) ?_ ?_
    · cases u with
      | insert n => exact h.offer hsound (hlocal n List.mem_cons_self)
      | evict id => exact h.erase hsound id
    · intro n hn
      rw [(s.update_parameters u).1]
      exact hlocal n (List.mem_cons_of_mem _ hn)

/-- A member is no farther than the farthest one on its side. -/
theorem Local.contains_member (h : s.Local) {id : Id} (hid : id ∈ s.ids) :
    s.arc.contains id = true := by
  obtain ⟨hstop, hstart⟩ := s.arc_steps
  rw [h.arc_sound.contains_iff (h id hid), hstop, hstart]
  by_cases hahead : Ahead s.origin id
  · exact Or.inl (clockwise_le_reachAhead hid hahead)
  · exact Or.inr (clockwise_le_reachBehind hid hahead)

/-- The ends of the arc are the members at the two distances that the members reach. -/
theorem Local.arc_eq (hs : s.Local) (ht : t.Local) (horigin : t.origin = s.origin)
    (hids : t.ids = s.ids) : t.arc = s.arc := by
  obtain ⟨hstop, hstart⟩ := s.arc_steps
  obtain ⟨hstop', hstart'⟩ := t.arc_steps
  have hsound := hs.arc_sound
  have hsound' := ht.arc_sound
  rw [horigin, hids] at hstop' hstart'
  rw [horigin] at hsound'
  have hstops : t.arc.stop = s.arc.stop :=
    Id.eq_of_clockwise_eq hsound'.stop_space.symm (hsound'.stop_space.trans hsound.stop_space.symm)
      (hstop'.trans hstop.symm)
  have hstarts : t.arc.start = s.arc.start :=
    Id.eq_of_clockwise_back_eq hsound'.start_space hsound.start_space (hstart'.trans hstart.symm)
  exact congrArg₂ Arc.mk hstarts hstops

theorem Local.covers_congr (hs : s.Local) (ht : t.Local) (horigin : t.origin = s.origin)
    (hids : t.ids = s.ids) (key : Id) : t.covers key = s.covers key := by
  have hempty : t.isEmpty = s.isEmpty := by
    rw [Bool.eq_iff_iff, isEmpty_iff, isEmpty_iff, hids]
  rw [covers_eq, covers_eq, hempty, hs.arc_eq ht horigin hids]

/-- What is known of a leaf set that was only ever offered local nodes. -/
theorem updateAll_empty_local (origin : Id) (capacity : Nat) {history : List Update}
    (hlocal : ∀ n, .insert n ∈ history → n.id.space = origin.space) :
    ((empty origin capacity).updateAll history).origin = origin ∧
      ((empty origin capacity).updateAll history).Local :=
  ⟨(updateAll_parameters _ history).1,
    (empty_local origin capacity).updateAll (empty_sound origin capacity) hlocal⟩

/-- After any history of offers and removals a key belongs to the origin if there are no members, or
if it is no farther ahead than the farthest member ahead, or no farther behind than the farthest
member behind. The origin and all members lie on the arc, which runs through the origin and stays
short of a turn. A leaf set with the same member identifiers, however it came about, answers
alike. -/
theorem covers_within_reach (origin : Id) (capacity : Nat) (history : List Update)
    (hlocal : ∀ n, .insert n ∈ history → n.id.space = origin.space) :
    let s := (empty origin capacity).updateAll history
    (∀ key : Id, key.space = origin.space →
        (s.covers key = true ↔ s.isEmpty = true ∨ origin.clockwise key ≤ reachAhead origin s.ids ∨
          key.clockwise origin ≤ reachBehind origin s.ids)) ∧
      (∀ key, s.covers key = (s.isEmpty || s.arc.contains key)) ∧
      s.arc.contains origin = true ∧ (∀ m ∈ s.members, s.arc.contains m.id = true) ∧
      s.arc.start.clockwise origin + origin.clockwise s.arc.stop =
        s.arc.start.clockwise s.arc.stop ∧
      s.arc.start.clockwise origin + origin.clockwise s.arc.stop < origin.space.size ∧
      ∀ capacity' history', (∀ n, .insert n ∈ history' → n.id.space = origin.space) →
        let t := (empty origin capacity').updateAll history'
        t.ids = s.ids → ∀ key, t.covers key = s.covers key := by
  intro s
  obtain ⟨horigin, hs⟩ := updateAll_empty_local origin capacity hlocal
  have hsound : Arc.Sound origin s.arc := horigin ▸ hs.arc_sound
  obtain ⟨hthrough, hshort⟩ := hsound.through_origin
  refine ⟨?_, s.covers_eq, hsound.contains_origin, ?_, hthrough, hshort, ?_⟩
  · intro key hkey
    have hcovers := hs.covers_iff (hkey.trans (congrArg Id.space horigin.symm))
    rwa [horigin] at hcovers
  · intro m hm
    exact hs.contains_member (mem_ids.mpr ⟨m, hm, rfl⟩)
  · intro capacity' history' hlocal' t hids key
    obtain ⟨horigin', ht⟩ := updateAll_empty_local origin capacity' hlocal'
    exact hs.covers_congr ht (horigin'.trans horigin.symm) hids key

/-- A leaf set on the full ring with a member opposite to the origin and one across the wrap point,
and without one that was evicted again. Keys up to the opposite member and back to the other one
belong to the origin, and those one step further do not. -/
theorem reach_across_full_ring :
    let node := Node.sample .canonical
    let opposite : Keyspace.Word := 16#128 + 1#128 <<< 127
    let history : List Update :=
      [.insert (node opposite), .insert (node (-16#128)), .insert (node (-32#128)),
       .evict (node (-32#128)).id]
    let s := (empty (node 16#128).id 3).updateAll history
    (∀ n, .insert n ∈ history → n.id.space = (node 16#128).id.space) ∧
      s.covers (node (opposite - 1#128)).id = true ∧ s.covers (node (-16#128)).id = true ∧
      s.covers (node (opposite + 1#128)).id = false ∧ s.covers (node (-17#128)).id = false := by
  intro node opposite history s
  have hlocal : ∀ n, .insert n ∈ history → n.id.space = (node 16#128).id.space := by
    simp [history, node, Node.sample, Id.ofWord]
  obtain ⟨hcovers, -⟩ := covers_within_reach (node 16#128).id 3 history hlocal
  have hahead : reachAhead (node 16#128).id s.ids = 2 ^ 127 := by decide +kernel
  have hbehind : reachBehind (node 16#128).id s.ids = 32 := by decide +kernel
  have hmembers : s.isEmpty = false := by decide +kernel
  have hcovers (value : Keyspace.Word) : s.covers (node value).id = true ↔
      (node 16#128).id.clockwise (node value).id ≤ 2 ^ 127 ∨
        (node value).id.clockwise (node 16#128).id ≤ 32 := by
    rw [hcovers (node value).id rfl, hahead, hbehind, hmembers]
    exact or_iff_right Bool.false_ne_true
  refine ⟨hlocal, (hcovers _).mpr (by decide), (hcovers _).mpr (by decide), ?_, ?_⟩
  · rw [← Bool.not_eq_true, hcovers]
    decide
  · rw [← Bool.not_eq_true, hcovers]
    decide

end Overlay.LeafSet
