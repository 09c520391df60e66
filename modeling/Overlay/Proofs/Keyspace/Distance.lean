import Mathlib
import Overlay.Proofs.Keyspace.Digits
import Overlay.Proofs.Keyspace.Ring

/-!
The ring as a metric space. To walk clockwise is to subtract positions modulo their number, and the
shorter way between two identifiers is a metric that nowhere exceeds half the ring. On the full ring
the number of positions is not a word, so all this is said of plain numbers.
-/

namespace Overlay.Keyspace.Id

variable {a b c : Id}

theorem clockwise_eq_emod (h : a.space = b.space) :
    (a.clockwise b : ℤ) = ((b.value.toNat : ℤ) - a.value.toNat) % a.space.size := by
  have ha : a.value.toNat < a.space.size := a.value_lt
  have hb : b.value.toNat < a.space.size := h ▸ b.value_lt
  rw [clockwise_eq h]
  split
  case isTrue hle =>
    rw [Int.emod_eq_of_lt] <;> omega
  case isFalse hlt =>
    -- The difference is negative here, and one turn more is its remainder.
    rw [← Int.add_emod_right, Int.emod_eq_of_lt] <;> omega

theorem clockwise_add_modEq (hab : a.space = b.space) (hbc : b.space = c.space) :
    a.clockwise b + b.clockwise c ≡ a.clockwise c [MOD a.space.size] := by
  rcases clockwise_add hab hbc with hsum | hsum
  · rw [hsum]
  · rw [hsum]
    exact Nat.add_modEq_right

theorem distance_comm (a b : Id) : a.distance b = b.distance a := Nat.min_comm _ _

theorem distance_eq_zero (h : a.space = b.space) : a.distance b = 0 ↔ a = b := by
  rw [distance, Nat.min_eq_zero_iff, clockwise_eq_zero h, clockwise_eq_zero h.symm,
    eq_comm (a := b), or_self]

/-- The two ways make one turn together, so the shorter one is at most half of it. -/
theorem distance_le_half (h : a.space = b.space) : a.distance b ≤ a.space.size / 2 := by
  have hturn := clockwise_turn h
  rw [distance, Nat.le_div_iff_mul_le Nat.two_pos]
  omega

/-- The difference of the positions is the length of one way round, and so it bounds the shorter
one. -/
theorem distance_le_difference (h : a.space = b.space) :
    a.distance b ≤ (b.value.toNat - a.value.toNat) + (a.value.toNat - b.value.toNat) := by
  rw [distance, clockwise_eq h, clockwise_eq h.symm]
  split <;> split <;> omega

/-- Positions in one block of the ring are less than a block apart, also the short way round. -/
theorem distance_lt_of_div_eq (h : a.space = b.space) {block : Nat} (hblock : 0 < block)
    (hsame : a.value.toNat / block = b.value.toNat / block) : a.distance b < block := by
  have hdifference := distance_le_difference h
  have ha := Nat.div_add_mod a.value.toNat block
  have hb := Nat.div_add_mod b.value.toNat block
  have ha' := Nat.mod_lt a.value.toNat hblock
  have hb' := Nat.mod_lt b.value.toNat hblock
  rw [hsame] at ha
  omega

/-- A detour makes no walk shorter. -/
theorem clockwise_le_add (hab : a.space = b.space) (hbc : b.space = c.space) :
    a.clockwise c ≤ a.clockwise b + b.clockwise c := by
  have hsum := clockwise_add hab hbc
  omega

/-- Of two identifiers from which one walks clockwise to `b`, one lies on the way of the other. -/
theorem distance_le_of_meet (hab : a.space = b.space) (hbc : b.space = c.space) :
    a.distance c ≤ a.clockwise b + c.clockwise b := by
  have hthere := clockwise_add (hab.trans hbc) hbc.symm
  have hback := clockwise_add (hab.trans hbc).symm hab
  have hturn := clockwise_turn (hab.trans hbc)
  have hspace : c.space.size = a.space.size := congrArg Space.size (hab.trans hbc).symm
  rw [distance]
  omega

/-- Of two identifiers to which one walks clockwise from `b`, one lies on the way to the other. -/
theorem distance_le_of_part (hab : a.space = b.space) (hbc : b.space = c.space) :
    a.distance c ≤ b.clockwise a + b.clockwise c := by
  have hthere := clockwise_add hab.symm (hab.trans hbc)
  have hback := clockwise_add hbc (hab.trans hbc).symm
  have hturn := clockwise_turn (hab.trans hbc)
  have hspace : b.space.size = a.space.size := congrArg Space.size hab.symm
  rw [distance]
  omega

/-- Whichever way round the two legs go, they lead at least as far as the shorter way does. -/
theorem distance_triangle (hab : a.space = b.space) (hbc : b.space = c.space) :
    a.distance c ≤ a.distance b + b.distance c := by
  have hahead := clockwise_le_add hab hbc
  have hbehind := clockwise_le_add hbc.symm hab.symm
  have hmeet := distance_le_of_meet hab hbc
  have hpart := distance_le_of_part hab hbc
  unfold distance at *
  omega

/-- On a ring of `R` positions to walk clockwise is to subtract modulo `R`: only the walk from an
identifier to itself has no steps, there and back is one turn, and walks add up modulo `R`. The
shorter way round is a metric of at most half of `R`. -/
theorem shorter_way_is_metric {space : Space} {a b c : Id} (ha : a.space = space)
    (hb : b.space = space) (hc : c.space = space) :
    let R := space.base ^ space.length
    (a.clockwise b : ℤ) = ((b.value.toNat : ℤ) - a.value.toNat) % R ∧
      (a.clockwise b = 0 ↔ a = b) ∧ (a ≠ b → a.clockwise b + b.clockwise a = R) ∧
      a.clockwise b + b.clockwise c ≡ a.clockwise c [MOD R] ∧
      a.distance b = b.distance a ∧ (a.distance b = 0 ↔ a = b) ∧ a.distance b ≤ R / 2 ∧
      a.distance c ≤ a.distance b + b.distance c := by
  intro R
  have hab : a.space = b.space := ha.trans hb.symm
  have hbc : b.space = c.space := hb.trans hc.symm
  have hsize : a.space.size = R := by
    rw [ha]
    exact space.base_pow_length.symm
  have hemod := clockwise_eq_emod hab
  have hmod := clockwise_add_modEq hab hbc
  have hhalf := distance_le_half hab
  rw [hsize] at hemod hmod hhalf
  refine ⟨hemod, clockwise_eq_zero hab, ?_, hmod, distance_comm a b, distance_eq_zero hab, hhalf,
    distance_triangle hab hbc⟩
  intro hne
  rw [clockwise_add_back hab hne, hsize]

/-- On the full ring, whose size is no word: from the last position to the first is one step, and
the position opposite to the first is half the ring away from it either way round. -/
theorem full_ring_distances :
    let first : Id := ofWord 0#128 .canonical
    let opposite : Id := ofWord (1#128 <<< 127) .canonical
    let last : Id := ofWord (BitVec.allOnes 128) .canonical
    first.space = .canonical ∧ opposite.space = .canonical ∧ last.space = .canonical ∧
      first.distance opposite = 2 ^ 127 ∧
      first.clockwise opposite + opposite.clockwise first = 2 ^ 128 ∧
      last.clockwise first = 1 ∧
      last.distance opposite ≤ last.distance first + first.distance opposite := by
  intro first opposite last
  obtain ⟨-, -, hback, -⟩ := @shorter_way_is_metric .canonical first opposite last rfl rfl rfl
  obtain ⟨-, -, -, -, -, -, -, hdetour⟩ :=
    @shorter_way_is_metric .canonical last first opposite rfl rfl rfl
  exact ⟨rfl, rfl, rfl, by decide, (hback (by decide)).trans (by decide), by decide, hdetour⟩

end Overlay.Keyspace.Id
