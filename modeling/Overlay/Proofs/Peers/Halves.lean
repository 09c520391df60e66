import Mathlib
import Overlay.Proofs.Peers.LeafSet

/-!
The two halves of a leaf set as one family, indexed by the side of the origin. What holds of a half
is then said once.
-/

namespace Overlay

open Keyspace (Id)
open Roster (place)

/-- A side of an origin, by the order of identifiers. -/
inductive Side where
  | below
  | above

namespace Side

/-- True of the identifiers that lie on a side of the origin. -/
def holds (origin : Id) : Side → Id → Bool
  | below, id => id.precedes origin
  | above, id => origin.precedes id

theorem holds_self (origin : Id) (side : Side) : side.holds origin origin = false := by
  cases side <;> exact Id.precedes_irrefl origin

theorem exists_holds_iff {origin id : Id} :
    (∃ side : Side, side.holds origin id = true) ↔ id ≠ origin := by
  constructor
  · rintro ⟨side, hside⟩ rfl
    rw [holds_self] at hside
    cases hside
  · intro hne
    rcases LeafSet.side_cases origin id with heq | ⟨hside, -⟩ | ⟨hside, -⟩
    · exact absurd heq hne
    · exact ⟨below, hside⟩
    · exact ⟨above, hside⟩

/-- An identifier is on the side of another one if both compare alike with the origin. -/
theorem holds_iff_of_holds {origin m r : Id} {side : Side} (hside : side.holds origin m = true) :
    side.holds origin r = true ↔ r ≠ origin ∧ r.precedes origin = m.precedes origin := by
  cases side with
  | below =>
    rw [show m.precedes origin = true from hside]
    exact ⟨fun hr => ⟨exists_holds_iff.mp ⟨below, hr⟩, hr⟩, And.right⟩
  | above =>
    rw [Id.not_precedes_of_precedes hside]
    constructor
    · exact fun hr => ⟨exists_holds_iff.mp ⟨above, hr⟩, Id.not_precedes_of_precedes hr⟩
    · exact fun ⟨hne, hr⟩ => (Id.precedes_iff_not_precedes hne).mpr hr

end Side

namespace LeafSet

/-- The half of a leaf set on one side. -/
def half (s : LeafSet) : Side → List Node
  | .below => s.below
  | .above => s.above

variable {s : LeafSet}

theorem Sound.half (h : s.Sound) (side : Side) :
    Half s.origin s.capacity (side.holds s.origin) (s.half side) := by
  cases side with
  | below => exact h.below
  | above => exact h.above

/-- An offer changes the half of its side, and keeps the beginning of the half with the node put in
place. -/
theorem Sound.half_offer (h : s.Sound) (n : Node) (side : Side) :
    (s.offer n).1.half side =
      if side.holds s.origin n.id then (place (nearer s.origin) n (s.half side)).take s.capacity
      else s.half side := by
  have hbelow := offerHalf_eq_take h.below.kept h.below.length_le n
  have habove := offerHalf_eq_take h.above.kept h.above.length_le n
  rcases side_cases s.origin n.id with hid | ⟨hside, hother⟩ | ⟨hside, hother⟩
  · rw [offer_self s hid, hid, Side.holds_self]
    rfl
  · rw [offer_below s hside]
    cases side with
    | below => simp [Side.holds, hside, LeafSet.half, hbelow]
    | above => simp [Side.holds, hother, LeafSet.half]
  · rw [offer_above s hside]
    cases side with
    | below => simp [Side.holds, hother, LeafSet.half]
    | above => simp [Side.holds, hside, LeafSet.half, habove]

/-- An eviction drops the member from the half that has it, and the other half does not have it. -/
theorem Sound.half_erase (h : s.Sound) (id : Id) (side : Side) :
    (s.erase id).half side = (s.half side).eraseP (·.id = id) := by
  have hkeep {ns : List Node} (hnone : ¬ns.any (·.id = id)) : ns.eraseP (·.id = id) = ns :=
    List.eraseP_of_forall_not (by simpa using hnone)
  unfold LeafSet.erase
  split
  case isTrue hmember =>
    cases side with
    | below => rfl
    | above =>
      -- A member of the lower half is not in the upper one as well.
      refine (hkeep ?_).symm
      intro hboth
      obtain ⟨a, ha, haid⟩ := List.any_eq_true.mp hmember
      obtain ⟨b, hb, hbid⟩ := List.any_eq_true.mp hboth
      have hbelow := h.below.side_of_mem a ha
      have habove := Id.not_precedes_of_precedes (h.above.side_of_mem b hb)
      rw [of_decide_eq_true haid] at hbelow
      rw [of_decide_eq_true hbid, hbelow] at habove
      cases habove
  case isFalse hnone =>
    cases side with
    | below => exact (hkeep hnone).symm
    | above => rfl

theorem half_offerAll (s : LeafSet) (offers : List Node) (side : Side) :
    (s.offerAll offers).half side =
      offerAllHalf s.origin s.capacity (offers.filter (side.holds s.origin ·.id))
        (s.half side) := by
  cases side with
  | below => exact (s.offerAll_halves offers).1
  | above => exact (s.offerAll_halves offers).2

theorem mem_members_iff {m : Node} : m ∈ s.members ↔ ∃ side, m ∈ s.half side := by
  rw [members, List.mem_append]
  constructor
  · rintro (hm | hm)
    · exact ⟨.below, hm⟩
    · exact ⟨.above, hm⟩
  · rintro ⟨_ | _, hm⟩
    · exact Or.inl hm
    · exact Or.inr hm

end LeafSet

end Overlay
