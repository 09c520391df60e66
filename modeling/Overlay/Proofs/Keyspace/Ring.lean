import Mathlib
import Overlay.Proofs.Keyspace.Order

/-!
Distances on the ring as plain numbers. One wrapping subtraction and a mask give the clockwise
distance of two identifiers of one space: the difference of their positions, with one turn added if
the walk passes zero. What else is needed about the ring follows by adding such distances up.
-/

namespace Overlay.Keyspace

namespace Space

theorem toNat_clockwise (s : Space) {start stop : Word} (hstart : start.toNat < s.size)
    (hstop : stop.toNat < s.size) :
    (s.clockwise start stop).toNat =
      if start.toNat ≤ stop.toNat then stop.toNat - start.toNat
      else s.size + stop.toNat - start.toNat := by
  have hdvd : s.size ∣ 2 ^ 128 := Nat.pow_dvd_pow 2 s.bits_le
  have hsize : s.size ≤ 2 ^ 128 := Nat.le_of_dvd (by decide) hdvd
  have hreduced : (s.clockwise start stop).toNat =
      (2 ^ 128 - start.toNat + stop.toNat) % s.size := by
    rw [clockwise, toNat_reduce, BitVec.toNat_sub, ← size, Nat.mod_mod_of_dvd _ hdvd]
  have hwhole {steps turns : Nat} (hturns : s.size ∣ turns) (hsteps : steps < s.size) :
      (steps + turns) % s.size = steps := by
    rw [Nat.add_mod, Nat.mod_eq_zero_of_dvd hturns, Nat.add_zero, Nat.mod_mod,
      Nat.mod_eq_of_lt hsteps]
  rw [hreduced]
  split
  case isTrue =>
    have hsum : 2 ^ 128 - start.toNat + stop.toNat = stop.toNat - start.toNat + 2 ^ 128 := by omega
    rw [hsum, hwhole hdvd (by omega)]
  case isFalse =>
    have hsum : 2 ^ 128 - start.toNat + stop.toNat =
        s.size + stop.toNat - start.toNat + (2 ^ 128 - s.size) := by omega
    rw [hsum, hwhole (Nat.dvd_sub hdvd (Nat.dvd_refl _)) (by omega)]

end Space

namespace Id

variable {a b c : Id}

theorem clockwise_lt (a b : Id) : a.clockwise b < a.space.size := a.space.toNat_reduce_lt _

/-- The difference of the positions, with one turn added if the walk passes zero. -/
theorem clockwise_eq (h : a.space = b.space) :
    a.clockwise b =
      if a.value.toNat ≤ b.value.toNat then b.value.toNat - a.value.toNat
      else a.space.size + b.value.toNat - a.value.toNat :=
  a.space.toNat_clockwise a.value_lt (h ▸ b.value_lt)

@[simp]
theorem clockwise_self (a : Id) : a.clockwise a = 0 := by
  rw [clockwise_eq rfl, if_pos (Nat.le_refl _), Nat.sub_self]

/-- Walking on from `b` to `c` makes the walk from `a` to `c`, or passes `a` again on the way. -/
theorem clockwise_add (hab : a.space = b.space) (hbc : b.space = c.space) :
    a.clockwise b + b.clockwise c = a.clockwise c ∨
      a.clockwise b + b.clockwise c = a.clockwise c + a.space.size := by
  have ha : a.value.toNat < a.space.size := a.value_lt
  have hb : b.value.toNat < a.space.size := hab ▸ b.value_lt
  have hc : c.value.toNat < a.space.size := hab.trans hbc ▸ c.value_lt
  rw [clockwise_eq hab, clockwise_eq hbc, clockwise_eq (hab.trans hbc), ← hab]
  split <;> split <;> split <;> omega

theorem clockwise_eq_zero (h : a.space = b.space) : a.clockwise b = 0 ↔ a = b := by
  constructor
  · intro hzero
    have ha : a.value.toNat < a.space.size := a.value_lt
    rw [clockwise_eq h] at hzero
    have hvalue : a.value.toNat = b.value.toNat := by
      split at hzero <;> omega
    exact eq_of_value_space (BitVec.eq_of_toNat_eq hvalue) h
  · rintro rfl
    exact clockwise_self a

/-- There and back is one turn. -/
theorem clockwise_add_back (h : a.space = b.space) (hne : a ≠ b) :
    a.clockwise b + b.clockwise a = a.space.size := by
  have hpos : a.clockwise b ≠ 0 := fun hzero => hne ((clockwise_eq_zero h).mp hzero)
  have hsum := clockwise_add h h.symm
  rw [clockwise_self] at hsum
  omega

/-- Walks of equal length from one identifier end at the same one. -/
theorem eq_of_clockwise_eq (hab : a.space = b.space) (hbc : b.space = c.space)
    (hsteps : a.clockwise b = a.clockwise c) : b = c := by
  have hlt := clockwise_lt b c
  have hsum := clockwise_add hab hbc
  rw [← hab] at hlt
  apply (clockwise_eq_zero hbc).mp
  omega

/-- Walks of equal length that end at one identifier start at the same one. -/
theorem eq_of_clockwise_back_eq (hac : a.space = c.space) (hbc : b.space = c.space)
    (hsteps : a.clockwise c = b.clockwise c) : a = b := by
  have hlt := clockwise_lt a b
  have hsum := clockwise_add (hac.trans hbc.symm) hbc
  apply (clockwise_eq_zero (hac.trans hbc.symm)).mp
  omega

/-- From an identifier one can walk any number of steps short of a turn. -/
theorem exists_clockwise_eq (a : Id) {steps : Nat} (hsteps : steps < a.space.size) :
    ∃ b : Id, b.space = a.space ∧ a.clockwise b = steps := by
  have hdvd : a.space.size ∣ 2 ^ 128 := Nat.pow_dvd_pow 2 a.space.bits_le
  have hsize : a.space.size ≤ 2 ^ 128 := Nat.le_of_dvd (by decide) hdvd
  have ha : a.value.toNat < a.space.size := a.value_lt
  let b := ofWord (a.value + BitVec.ofNat 128 steps) a.space
  have hvalue : b.value.toNat = (a.value.toNat + steps) % a.space.size := by
    change (a.space.reduce _).toNat = _
    rw [Space.toNat_reduce, BitVec.toNat_add, BitVec.toNat_ofNat, ← Space.size,
      Nat.mod_mod_of_dvd _ hdvd, Nat.mod_eq_of_lt (by omega : steps < 2 ^ 128)]
  refine ⟨b, rfl, ?_⟩
  rw [clockwise_eq (show a.space = b.space from rfl), hvalue]
  by_cases hwrap : a.value.toNat + steps < a.space.size
  · rw [Nat.mod_eq_of_lt hwrap]
    split <;> omega
  · rw [Nat.mod_eq_sub_mod (by omega), Nat.mod_eq_of_lt (by omega)]
    split <;> omega

theorem clockwise_turn (h : a.space = b.space) :
    a.clockwise b = 0 ∧ b.clockwise a = 0 ∨ a.clockwise b + b.clockwise a = a.space.size := by
  by_cases hne : a = b
  · subst hne
    exact Or.inl ⟨clockwise_self a, clockwise_self a⟩
  · exact Or.inr (clockwise_add_back h hne)

end Id

end Overlay.Keyspace
