import Mathlib
import Overlay.Proofs.Number.Rounding

/-!
The hypotenuse is the exact root of a sum of squares, rounded once. The root need not be a quotient,
so this is said through the quotients on both sides of it: what is at most the root rounds to at
most the hypotenuse, and what is at least the root to at least the hypotenuse. The root that is
computed tells only between which two half units the exact one lies, and no rounding needs more.
-/

namespace Overlay.Number

/-- A quotient strictly between two neighboring halves goes to the whole number of the two. -/
theorem roundHalfEven_between {num den half : Nat} (hlower : half * den < 2 * num)
    (hupper : 2 * num < (half + 1) * den) : roundHalfEven num den = (half + 1) / 2 := by
  have hbelow : ∀ k, k * den ≤ 2 * num → k < half + 1 := fun k hk =>
    Nat.lt_of_mul_lt_mul_right (hk.trans_lt hupper)
  have habove : ∀ k, 2 * num ≤ k * den → half < k := fun k hk =>
    Nat.lt_of_mul_lt_mul_right (hlower.trans_le hk)
  have hnum := Nat.div_add_mod num den
  have hrest : num % den < den := by
    refine Nat.mod_lt _ (Nat.pos_of_ne_zero ?_)
    rintro rfl
    omega
  have htwice (k : Nat) : (2 * (num / den) + k) * den = 2 * (den * (num / den)) + k * den := by
    ring
  unfold roundHalfEven
  dsimp only
  split_ifs with hdown hup
  · have := hbelow (2 * (num / den) + 0) (by rw [htwice]; omega)
    have := habove (2 * (num / den) + 1) (by rw [htwice]; omega)
    omega
  · have := hbelow (2 * (num / den) + 1) (by rw [htwice]; omega)
    have := habove (2 * (num / den) + 2) (by rw [htwice]; omega)
    omega
  · -- A quotient halfway between two whole numbers is a half itself.
    have := hbelow (2 * (num / den) + 1) (by rw [htwice]; omega)
    have := habove (2 * (num / den) + 1) (by rw [htwice]; omega)
    omega

namespace Binary64

/-- How a quotient strictly between two neighboring halves is rounded depends on these alone. -/
theorem roundedMagnitude_between {num den half : Nat} (hlower : half * den < 2 * num)
    (hupper : 2 * num < (half + 1) * den) :
    roundedMagnitude num den =
      shift half 2 * 2 ^ 52 + (half / 2 ^ shift half 2 + 1) / 2 := by
  have hwhole : num / den = half / 2 := by
    apply Nat.div_eq_of_lt_le
    · have := Nat.mul_le_mul_right den (Nat.div_mul_le_self half 2)
      nlinarith
    · have := Nat.mul_le_mul_right den (show half + 1 ≤ (half / 2 + 1) * 2 by omega)
      nlinarith
  have hshift : shift num den = shift half 2 := by
    rw [shift, shift, hwhole]
  rw [roundedMagnitude, hshift]
  have hscale := Nat.two_pow_pos (shift half 2)
  congr 1
  apply roundHalfEven_between
  · calc half / 2 ^ shift half 2 * (den * 2 ^ shift half 2)
        = half / 2 ^ shift half 2 * 2 ^ shift half 2 * den := by ring
      _ ≤ half * den := Nat.mul_le_mul_right _ (Nat.div_mul_le_self _ _)
      _ < 2 * num := hlower
  · calc 2 * num < (half + 1) * den := hupper
      _ ≤ 2 ^ shift half 2 * (half / 2 ^ shift half 2 + 1) * den :=
          Nat.mul_le_mul_right _ (Nat.lt_mul_div_succ half hscale)
      _ = (half / 2 ^ shift half 2 + 1) * (den * 2 ^ shift half 2) := by ring

theorem nearest_between {num den half : Nat} (hlower : half * den < 2 * num)
    (hupper : 2 * num < (half + 1) * den) : nearest num den = nearest (2 * half + 1) 4 := by
  rw [nearest_eq, nearest_eq, roundedMagnitude_between hlower hupper,
    @roundedMagnitude_between (2 * half + 1) 4 half (by omega) (by omega)]

/-- Of two quotients the smaller one is not rounded to the larger number. -/
theorem magnitude_nearest_le {num den num' den' : Nat} (hden : 0 < den) (hden' : 0 < den')
    (h : num * den' ≤ num' * den) :
    (nearest num den).magnitude ≤ (nearest num' den').magnitude := by
  rw [← nearest_mul_right num den hden', ← nearest_mul_right num' den' hden, Nat.mul_comm den']
  exact magnitude_nearest_mono _ h

section Hypot

variable {x y : Binary64} {num den : Nat}

/-- Either the root is a whole number of half units, or it lies strictly between two of them. -/
theorem hypot_cases (x y : Binary64) :
    ∃ halves, 4 * squares x y < (halves + 1) * (halves + 1) ∧
      (halves * halves = 4 * squares x y ∧ x.hypot y = nearest (2 * halves) 4 ∨
        halves * halves < 4 * squares x y ∧ x.hypot y = nearest (2 * halves + 1) 4) := by
  refine ⟨(4 * squares x y).sqrt, Nat.lt_succ_sqrt _, ?_⟩
  rcases (Nat.sqrt_le (4 * squares x y)).eq_or_lt with hexact | hrest
  · exact .inl ⟨hexact, by rw [hypot, if_pos hexact, Nat.add_zero]⟩
  · exact .inr ⟨hrest, by rw [hypot, if_neg hrest.ne]⟩

/-- What is at most the root rounds to at most the hypotenuse. -/
theorem nearest_le_hypot (hden : 0 < den) (h : num * num ≤ squares x y * (den * den)) :
    (nearest num den).magnitude ≤ (x.hypot y).magnitude := by
  have htwice : 2 * num * (2 * num) ≤ 4 * squares x y * (den * den) := by linarith
  obtain ⟨halves, hupper, ⟨hexact, hhypot⟩ | ⟨-, hhypot⟩⟩ := hypot_cases x y <;> rw [hhypot]
  · have hle : 2 * num ≤ halves * den := by
      apply Nat.mul_self_le_mul_self_iff.mp
      rwa [Nat.mul_mul_mul_comm halves den, hexact]
    exact magnitude_nearest_le hden (by decide) (by linarith)
  · have hlt : 2 * num < (halves + 1) * den := by
      apply Nat.mul_self_lt_mul_self_iff.mp
      rw [Nat.mul_mul_mul_comm (halves + 1) den]
      exact htwice.trans_lt (Nat.mul_lt_mul_of_pos_right hupper (Nat.mul_pos hden hden))
    rcases Nat.lt_or_ge (halves * den) (2 * num) with hbetween | hle
    · rw [nearest_between hbetween hlt]
    · exact magnitude_nearest_le hden (by decide) (by linarith)

/-- What is at least the root rounds to at least the hypotenuse. -/
theorem hypot_le_nearest (hden : 0 < den) (h : squares x y * (den * den) ≤ num * num) :
    (x.hypot y).magnitude ≤ (nearest num den).magnitude := by
  have htwice : 4 * squares x y * (den * den) ≤ 2 * num * (2 * num) := by linarith
  obtain ⟨halves, -, ⟨hexact, hhypot⟩ | ⟨hrest, hhypot⟩⟩ := hypot_cases x y <;> rw [hhypot]
  · have hle : halves * den ≤ 2 * num := by
      apply Nat.mul_self_le_mul_self_iff.mp
      rwa [Nat.mul_mul_mul_comm halves den, hexact]
    exact magnitude_nearest_le (by decide) hden (by linarith)
  · have hlt : halves * den < 2 * num := by
      apply Nat.mul_self_lt_mul_self_iff.mp
      rw [Nat.mul_mul_mul_comm halves den]
      exact (Nat.mul_lt_mul_of_pos_right hrest (Nat.mul_pos hden hden)).trans_le htwice
    rcases Nat.lt_or_ge (2 * num) ((halves + 1) * den) with hbetween | hle
    · rw [nearest_between hlt hbetween]
    · exact magnitude_nearest_le (by decide) hden (by linarith)

theorem difference_comm (x y : Binary64) : x.difference y = y.difference x := by
  rw [difference, Nat.add_comm, ← difference]

end Hypot

end Binary64

end Overlay.Number
