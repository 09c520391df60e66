import Mathlib
import Overlay.Proofs.Number.Binary64

/-!
Rounding keeps the order of what it rounds. Within one power of two this is the order of whole
numbers, and the first number of the next power lies between the two sides of a step up. Two facts
about products follow: a larger factor never gives a smaller product, and a factor above one moves a
number that is not too small to a later one, because it adds at least the distance to the next
number.
-/

namespace Overlay.Number

theorem roundHalfEven_bounds (num den : Nat) :
    num / den ≤ roundHalfEven num den ∧ roundHalfEven num den ≤ num / den + 1 := by
  unfold roundHalfEven
  dsimp only
  split_ifs <;> omega

/-- A whole number is not rounded. -/
theorem roundHalfEven_mul_self (k : Nat) {den : Nat} (hden : 0 < den) :
    roundHalfEven (k * den) den = k := by
  have hrest : 2 * (k * den % den) < den := by
    rwa [Nat.mul_mod_left]
  unfold roundHalfEven
  dsimp only
  rw [if_pos hrest, Nat.mul_div_cancel k hden]

theorem roundHalfEven_mono {num num' : Nat} (den : Nat) (h : num ≤ num') :
    roundHalfEven num den ≤ roundHalfEven num' den := by
  rcases Nat.lt_or_eq_of_le (Nat.div_le_div_right h : num / den ≤ num' / den) with hlt | heq
  · calc roundHalfEven num den ≤ num / den + 1 := (roundHalfEven_bounds num den).2
      _ ≤ num' / den := hlt
      _ ≤ roundHalfEven num' den := (roundHalfEven_bounds num' den).1
  · have hrest : num % den ≤ num' % den := by
      have hnum := Nat.div_add_mod num den
      have hnum' := Nat.div_add_mod num' den
      rw [heq] at hnum
      omega
    unfold roundHalfEven
    dsimp only
    rw [heq]
    split_ifs <;> omega

namespace Binary64

/-- By how many bits a quotient is shifted before it is rounded. -/
def shift (num den : Nat) : Nat := (num / den).log2 + 1 - 53

/-- The magnitude that rounding would give if there were no largest number. -/
def roundedMagnitude (num den : Nat) : Nat :=
  shift num den * 2 ^ 52 + roundHalfEven num (den * 2 ^ shift num den)

theorem nearest_eq (num den : Nat) :
    nearest num den = ofMagnitude false (min (roundedMagnitude num den) infinityBits) := rfl

theorem toNat_bits_nearest (num den : Nat) :
    (nearest num den).bits.toNat = min (roundedMagnitude num den) infinityBits := by
  have hinfinity : infinityBits < 2 ^ 64 := by decide
  rw [nearest_eq, ofMagnitude, if_neg Bool.false_ne_true, BitVec.toNat_ofNat]
  exact Nat.mod_eq_of_lt (Nat.lt_of_le_of_lt (Nat.min_le_right _ _) hinfinity)

theorem bits_nearest_lt (num den : Nat) : (nearest num den).bits.toNat < 2 ^ 63 := by
  have hinfinity : infinityBits < 2 ^ 63 := by decide
  rw [toNat_bits_nearest]
  exact Nat.lt_of_le_of_lt (Nat.min_le_right _ _) hinfinity

theorem magnitude_nearest (num den : Nat) :
    (nearest num den).magnitude = min (roundedMagnitude num den) infinityBits := by
  rw [magnitude, Nat.mod_eq_of_lt (bits_nearest_lt num den), toNat_bits_nearest]

/-- What is rounded has no sign, so its magnitude is its place in the order. -/
theorem rank_nearest (num den : Nat) :
    (nearest num den).rank = (nearest num den).magnitude := by
  rw [rank_eq_ite, if_pos (bits_nearest_lt num den), magnitude_nearest, toNat_bits_nearest]

/-- A quotient is shifted to fewer than fifty-four bits, so what it rounds to is at most the first
number of the power of two above. -/
theorem roundHalfEven_shift_le (num den : Nat) :
    roundHalfEven num (den * 2 ^ shift num den) ≤ 2 ^ 53 := by
  have hbelow : num / den < 2 ^ shift num den * 2 ^ 53 := by
    rw [← Nat.pow_add]
    refine Nat.lt_of_lt_of_le Nat.lt_log2_self (Nat.pow_le_pow_right (by decide) ?_)
    unfold shift
    omega
  have hquotient := Nat.div_lt_of_lt_mul hbelow
  rw [Nat.div_div_eq_div_mul] at hquotient
  exact (roundHalfEven_bounds _ _).2.trans hquotient

/-- A quotient that is shifted at all is shifted no further than to fifty-three bits. -/
theorem le_roundHalfEven_shift {num den : Nat} (hshift : 0 < shift num den) :
    2 ^ 52 ≤ roundHalfEven num (den * 2 ^ shift num den) := by
  have hlog : shift num den + 52 = (num / den).log2 := by
    unfold shift at hshift ⊢
    omega
  have hnonzero : num / den ≠ 0 := by
    intro hzero
    rw [hzero, Nat.log2_zero] at hlog
    omega
  have habove : 2 ^ 52 * 2 ^ shift num den ≤ num / den := by
    rw [← Nat.pow_add, Nat.add_comm, hlog]
    exact Nat.log2_self_le hnonzero
  have hquotient := (Nat.le_div_iff_mul_le (Nat.two_pow_pos _)).mpr habove
  rw [Nat.div_div_eq_div_mul] at hquotient
  exact hquotient.trans (roundHalfEven_bounds _ _).1

theorem shift_mono {num num' den : Nat} (h : num ≤ num') : shift num den ≤ shift num' den := by
  have hlog : (num / den).log2 ≤ (num' / den).log2 := by
    rw [Nat.log2_eq_log_two, Nat.log2_eq_log_two]
    exact Nat.log_mono_right (Nat.div_le_div_right h)
  unfold shift
  omega

/-- A quotient that is shifted further rounds to at least the first number of its power of two, and
the other one at most to that of the power above its own. -/
theorem roundedMagnitude_mono {num num' den : Nat} (h : num ≤ num') :
    roundedMagnitude num den ≤ roundedMagnitude num' den := by
  rcases Nat.lt_or_eq_of_le (shift_mono h : shift num den ≤ shift num' den) with hlt | heq
  · have hupper := roundHalfEven_shift_le num den
    have hlower := le_roundHalfEven_shift (Nat.zero_lt_of_lt hlt)
    unfold roundedMagnitude
    omega
  · rw [roundedMagnitude, roundedMagnitude, heq]
    exact Nat.add_le_add_left (roundHalfEven_mono _ h) _

/-- Scaling both sides of a quotient does not change how it is rounded. -/
theorem roundedMagnitude_mul_right (num den : Nat) {scale : Nat} (h : 0 < scale) :
    roundedMagnitude (num * scale) (den * scale) = roundedMagnitude num den := by
  have hshift : shift (num * scale) (den * scale) = shift num den := by
    rw [shift, Nat.mul_div_mul_right _ _ h, shift]
  rw [roundedMagnitude, hshift, Nat.mul_right_comm, roundHalfEven_mul_right _ _ _ h,
    roundedMagnitude]

theorem nearest_mul_right (num den : Nat) {scale : Nat} (h : 0 < scale) :
    nearest (num * scale) (den * scale) = nearest num den := by
  rw [nearest_eq, roundedMagnitude_mul_right num den h, nearest_eq]

theorem roundedMagnitude_zero (den : Nat) : roundedMagnitude 0 den = 0 := by
  simp [roundedMagnitude, shift, roundHalfEven]

/-- A significand with its exponent is rounded to itself. -/
theorem roundedMagnitude_scaled {significand exponent : Nat} (hlt : significand < 2 ^ 53)
    (hnormal : 2 ^ 52 ≤ significand ∨ exponent = 0) :
    roundedMagnitude (significand * 2 ^ exponent) 1 = exponent * 2 ^ 52 + significand := by
  have hshift : shift (significand * 2 ^ exponent) 1 = exponent := by
    rw [shift, Nat.div_one]
    by_cases hzero : significand = 0
    · have hexponent : exponent = 0 := by omega
      rw [hzero, hexponent, Nat.zero_mul, Nat.log2_zero]
    · have hlog : (significand * 2 ^ exponent).log2 = significand.log2 + exponent :=
        log2_mul_two_pow hzero exponent
      have hbelow : significand.log2 < 53 := (Nat.log2_lt hzero).mpr hlt
      rcases hnormal with hnormal | hexponent
      · have habove : 52 ≤ significand.log2 := (Nat.le_log2 hzero).mpr hnormal
        omega
      · omega
  rw [roundedMagnitude, hshift, Nat.one_mul, roundHalfEven_mul_self _ (Nat.two_pow_pos _)]

/-- The number behind a normal one, also where it is the first of the next power of two. -/
theorem roundedMagnitude_next {significand exponent : Nat} (hlt : significand < 2 ^ 53)
    (hnormal : 2 ^ 52 ≤ significand) :
    roundedMagnitude ((significand + 1) * 2 ^ exponent) 1 =
      exponent * 2 ^ 52 + significand + 1 := by
  by_cases hcarry : significand + 1 = 2 ^ 53
  · have hpower : (significand + 1) * 2 ^ exponent = 2 ^ 52 * 2 ^ (exponent + 1) := by
      rw [hcarry, ← Nat.pow_add, ← Nat.pow_add]
      congr 1
      omega
    rw [hpower, roundedMagnitude_scaled (by decide) (Or.inl (Nat.le_refl _))]
    omega
  · rw [roundedMagnitude_scaled (by omega) (Or.inl (by omega)), Nat.add_assoc]

section Fields

variable (x : Binary64)

theorem significand_lt : x.significand < 2 ^ 53 := by
  unfold significand
  dsimp only
  split_ifs <;> omega

theorem magnitude_eq : x.magnitude = x.exponent * 2 ^ 52 + x.significand := by
  unfold significand exponent
  dsimp only
  split_ifs <;> omega

theorem significand_normal (h : 2 ^ 52 ≤ x.magnitude) : 2 ^ 52 ≤ x.significand := by
  unfold significand
  dsimp only
  rw [if_neg (Nat.not_lt.mpr h)]
  exact Nat.le_add_right _ _

theorem significand_normal_or : 2 ^ 52 ≤ x.significand ∨ x.exponent = 0 := by
  unfold significand exponent
  dsimp only
  split_ifs <;> omega

/-- A number is rounded to itself. -/
theorem roundedMagnitude_units : roundedMagnitude x.units 1 = x.magnitude := by
  rw [units, roundedMagnitude_scaled x.significand_lt x.significand_normal_or, magnitude_eq]

end Fields

theorem units_mono {x y : Binary64} (h : x.magnitude ≤ y.magnitude) : x.units ≤ y.units := by
  rcases Nat.lt_or_eq_of_le h with hlt | heq
  · by_contra hunits
    have hle := @roundedMagnitude_mono y.units x.units 1 (by omega)
    rw [roundedMagnitude_units, roundedMagnitude_units] at hle
    omega
  · have hsame : x.units = y.units := by
      rw [units, units, significand, significand, exponent, exponent, heq]
    exact hsame.le

-- The two powers stay folded: nothing here depends on their digits.

/-- The power of two that one is, in units. -/
@[irreducible]
def unitBits : Nat := 1074

theorem unitBits_eq : unitBits = 1074 := by
  rw [unitBits]

theorem unitsPerOne_eq : unitsPerOne = 2 ^ unitBits := by decide +kernel

theorem unitsPerOne_pos : 0 < unitsPerOne := by
  rw [unitsPerOne_eq]
  exact Nat.two_pow_pos unitBits

/-- Units between one and the next larger number. -/
@[irreducible]
def stepAtOne : Nat := 2 ^ (unitBits - 52)

theorem unitsPerOne_eq_steps : unitsPerOne = 2 ^ 52 * stepAtOne := by decide +kernel

theorem ofNat_eq (n : Nat) : ofNat n = nearest (n * unitsPerOne) 1 := by
  rw [ofNat, ← unitBits_eq, nearestScaled_eq, unitsPerOne_eq]

/-- Scaling the product of the significands before or after rounding makes no difference. -/
theorem mul_eq (x y : Binary64) : x.mul y = nearest (x.units * y.units) unitsPerOne := by
  have hunits : x.units * y.units =
      x.significand * y.significand * 2 ^ (x.exponent + y.exponent) := by
    rw [units, units, Nat.pow_add]
    exact Nat.mul_mul_mul_comm _ _ _ _
  rw [hunits, mul]
  split
  case isTrue hle =>
    have hscale : 2 ^ (x.exponent + y.exponent) =
        2 ^ (x.exponent + y.exponent - 1074) * unitsPerOne := by
      rw [unitsPerOne_eq, ← Nat.pow_add, unitBits_eq, Nat.sub_add_cancel hle]
    have hscaled := nearest_mul_right
      (x.significand * y.significand * 2 ^ (x.exponent + y.exponent - 1074)) 1 unitsPerOne_pos
    rw [Nat.one_mul] at hscaled
    rw [nearestScaled_eq, hscale, ← Nat.mul_assoc, hscaled]
  case isFalse hgt =>
    have hscale : unitsPerOne =
        2 ^ (1074 - (x.exponent + y.exponent)) * 2 ^ (x.exponent + y.exponent) := by
      rw [unitsPerOne_eq, ← Nat.pow_add, unitBits_eq, Nat.sub_add_cancel (by omega)]
    rw [hscale, nearest_mul_right _ _ (Nat.two_pow_pos _)]

theorem magnitude_nearest_mono {num num' : Nat} (den : Nat) (h : num ≤ num') :
    (nearest num den).magnitude ≤ (nearest num' den).magnitude := by
  rw [magnitude_nearest, magnitude_nearest]
  exact min_le_min_right _ (roundedMagnitude_mono h)

theorem magnitude_ofNat_mono {m n : Nat} (h : m ≤ n) :
    (ofNat m).magnitude ≤ (ofNat n).magnitude := by
  rw [ofNat_eq, ofNat_eq]
  exact magnitude_nearest_mono _ (Nat.mul_le_mul_right _ h)

theorem magnitude_mul_mono {x y : Binary64} (factor : Binary64) (h : x.magnitude ≤ y.magnitude) :
    (x.mul factor).magnitude ≤ (y.mul factor).magnitude := by
  rw [mul_eq, mul_eq]
  exact magnitude_nearest_mono _ (Nat.mul_le_mul_right _ (units_mono h))

/-- The value of a finite number. -/
def value (x : Binary64) : ℚ := (if x.isNegative then -1 else 1) * (x.units / unitsPerOne)

/-- What is accepted as a factor is a finite number of a value above one. -/
theorem exceedsOne_iff (x : Binary64) :
    x.exceedsOne = true ↔ x.isFinite = true ∧ 1 < x.value := by
  have hone : (0 : ℚ) < unitsPerOne := Nat.cast_pos.mpr unitsPerOne_pos
  have hunits : (0 : ℚ) ≤ x.units / unitsPerOne := div_nonneg (Nat.cast_nonneg _) hone.le
  rw [exceedsOne, value, Bool.and_eq_true, Bool.and_eq_true, decide_eq_true_eq, and_assoc]
  apply and_congr_right
  intro _
  cases hnegative : x.isNegative with
  | true =>
    simp only [Bool.not_true, Bool.false_eq_true, false_and, if_true, false_iff, not_lt]
    linarith
  | false =>
    simp only [Bool.not_false, true_and, Bool.false_eq_true, if_false, one_mul]
    rw [one_lt_div hone, Nat.cast_lt]

/-- A factor above one exceeds it by the distance to the next number at least. -/
theorem units_of_exceedsOne {x : Binary64} (h : x.exceedsOne = true) :
    unitsPerOne + stepAtOne ≤ x.units := by
  have habove : unitsPerOne < x.units := by
    simp only [exceedsOne, Bool.and_eq_true, decide_eq_true_eq] at h
    exact h.2
  have hbits := unitBits_eq
  have hexponent : unitBits - 52 ≤ x.exponent := by
    by_contra hsmall
    have hbelow : x.units ≤ 2 ^ 53 * 2 ^ (unitBits - 53) :=
      Nat.mul_le_mul x.significand_lt.le (Nat.pow_le_pow_right (by decide) (by omega))
    rw [← Nat.pow_add, Nat.add_sub_cancel' (by omega), ← unitsPerOne_eq] at hbelow
    exact absurd habove (Nat.not_lt.mpr hbelow)
  obtain ⟨count, hcount⟩ : stepAtOne ∣ x.units := by
    rw [stepAtOne, units]
    exact Dvd.dvd.mul_left (Nat.pow_dvd_pow 2 hexponent) x.significand
  rw [hcount, unitsPerOne_eq_steps, Nat.mul_comm] at habove
  have hmore : 2 ^ 52 + 1 ≤ count := Nat.lt_of_mul_lt_mul_left habove
  calc unitsPerOne + stepAtOne = stepAtOne * (2 ^ 52 + 1) := by
        rw [unitsPerOne_eq_steps, Nat.mul_add, Nat.mul_one, Nat.mul_comm]
    _ ≤ stepAtOne * count := Nat.mul_le_mul_left _ hmore
    _ = x.units := hcount.symm

/-- A factor above one gives a larger number, unless the number is too small to be normal or there
is no larger one. -/
theorem magnitude_lt_mul {x factor : Binary64} (hfactor : factor.exceedsOne = true)
    (hnormal : 2 ^ 52 ≤ x.magnitude) (hfinite : x.magnitude < infinityBits) :
    x.magnitude < (x.mul factor).magnitude := by
  have hsignificand := x.significand_normal hnormal
  -- The product is at least the next number.
  have hproduct : (x.significand + 1) * 2 ^ x.exponent * unitsPerOne ≤ x.units * factor.units := by
    have hstep : 2 ^ x.exponent * unitsPerOne ≤ x.units * stepAtOne := by
      rw [unitsPerOne_eq_steps, units, ← Nat.mul_assoc, Nat.mul_comm _ (2 ^ 52)]
      exact Nat.mul_le_mul_right _ (Nat.mul_le_mul_right _ hsignificand)
    calc (x.significand + 1) * 2 ^ x.exponent * unitsPerOne
        = x.units * unitsPerOne + 2 ^ x.exponent * unitsPerOne := by
          rw [Nat.add_one_mul, Nat.add_mul, units]
      _ ≤ x.units * unitsPerOne + x.units * stepAtOne := Nat.add_le_add_left hstep _
      _ = x.units * (unitsPerOne + stepAtOne) := (Nat.mul_add _ _ _).symm
      _ ≤ x.units * factor.units := Nat.mul_le_mul_left _ (units_of_exceedsOne hfactor)
  have hnext : x.magnitude + 1 ≤ roundedMagnitude (x.units * factor.units) unitsPerOne := by
    have hscale := roundedMagnitude_mul_right ((x.significand + 1) * 2 ^ x.exponent) 1
      unitsPerOne_pos
    rw [Nat.one_mul, roundedMagnitude_next x.significand_lt hsignificand, ← magnitude_eq] at hscale
    rw [← hscale]
    exact roundedMagnitude_mono hproduct
  rw [mul_eq, magnitude_nearest]
  exact lt_min hnext hfinite

theorem ofNat_zero_mul (factor : Binary64) : (ofNat 0).mul factor = ofNat 0 := by
  have hzero : (ofNat 0).units = 0 := by decide +kernel
  rw [mul_eq, hzero, Nat.zero_mul, ofNat_eq, Nat.zero_mul, nearest_eq, nearest_eq,
    roundedMagnitude_zero, roundedMagnitude_zero]

/-- A positive word is neither too small to be normal nor beyond the largest number. -/
theorem magnitude_ofNat_bounds {n : Nat} (hpos : 0 < n) (hword : n < 2 ^ 64) :
    2 ^ 52 ≤ (ofNat n).magnitude ∧ (ofNat n).magnitude < infinityBits := by
  have hlower := @roundedMagnitude_mono (1 * unitsPerOne) (n * unitsPerOne) 1
    (Nat.mul_le_mul_right _ hpos)
  have hupper := @roundedMagnitude_mono (n * unitsPerOne) (2 ^ 64 * unitsPerOne) 1
    (Nat.mul_le_mul_right _ hword.le)
  have hbits := unitBits_eq
  have hone : 1 * unitsPerOne = 2 ^ 52 * 2 ^ (unitBits - 52) := by
    rw [unitsPerOne_eq, Nat.one_mul, ← Nat.pow_add, Nat.add_sub_cancel' (by omega)]
  have hlast : 2 ^ 64 * unitsPerOne = 2 ^ 52 * 2 ^ (unitBits + 12) := by
    have hexponent : 64 + unitBits = 52 + (unitBits + 12) := by omega
    rw [unitsPerOne_eq, ← Nat.pow_add, ← Nat.pow_add, hexponent]
  rw [hone, roundedMagnitude_scaled (by decide) (Or.inl (Nat.le_refl _))] at hlower
  rw [hlast, roundedMagnitude_scaled (by decide) (Or.inl (Nat.le_refl _))] at hupper
  rw [ofNat_eq, magnitude_nearest]
  unfold infinityBits
  omega

end Binary64

end Overlay.Number
