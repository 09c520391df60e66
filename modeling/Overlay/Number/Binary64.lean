/-!
Binary64 numbers as exact bit patterns. The least positive number is the unit: the magnitude of
every finite number is a whole number of units, so each operation is one exact computation on
naturals followed by one rounding, to the nearest number and on a tie to the even one.

For magnitudes the pattern order is the value order, and `nearest` is written so that this shows:
the pattern of a magnitude of `k` units shifted up by `s` is `s * 2 ^ 52 + k`.
-/

namespace Overlay.Number

-- Powers are those of the core library, whatever else is imported.
attribute [local instance (high)] instPowNat

/-- `num / den` rounded to the nearest whole number, a tie going to the even one. -/
def roundHalfEven (num den : Nat) : Nat :=
  let whole := num / den
  let rest := num % den
  if 2 * rest < den then whole
  else if den < 2 * rest then whole + 1
  else whole + whole % 2

structure Binary64 where
  bits : BitVec 64
  deriving DecidableEq

namespace Binary64

def magnitude (x : Binary64) : Nat := x.bits.toNat % 2 ^ (63 : Nat)

def isNegative (x : Binary64) : Bool := x.bits.msb

/-- The magnitude of infinity; what lies above it is no number. -/
def infinityBits : Nat := 2047 * 2 ^ (52 : Nat)

def isFinite (x : Binary64) : Bool := decide (x.magnitude < infinityBits)

def isNaN (x : Binary64) : Bool := decide (infinityBits < x.magnitude)

def ofMagnitude (negative : Bool) (magnitude : Nat) : Binary64 :=
  ⟨BitVec.ofNat 64 (if negative then 2 ^ (63 : Nat) + magnitude else magnitude)⟩

def infinity : Binary64 := ofMagnitude false infinityBits

/-- The pattern for no number that reading gives. -/
def notANumber : Binary64 := ofMagnitude false (infinityBits + 2 ^ (51 : Nat))

def neg (x : Binary64) : Binary64 := ⟨x.bits ^^^ BitVec.intMin 64⟩

def unitsPerOne : Nat := 2 ^ (1074 : Nat)

/-- Units between a number of the given magnitude and the next larger one. -/
def spacing (magnitude : Nat) : Nat := 2 ^ (magnitude / 2 ^ (52 : Nat) - 1)

/-- The whole number that the exponent of a finite number scales. -/
def significand (x : Binary64) : Nat :=
  let fraction := x.magnitude % 2 ^ (52 : Nat)
  if x.magnitude < 2 ^ (52 : Nat) then fraction else 2 ^ (52 : Nat) + fraction

/-- The power of two by which the significand of a finite number is scaled to units. -/
def exponent (x : Binary64) : Nat := x.magnitude / 2 ^ (52 : Nat) - 1

def units (x : Binary64) : Nat := x.significand * 2 ^ x.exponent

/-- The number nearest to a quotient of units, infinity beyond the largest number. The shift brings
the quotient to at most 53 bits before it is rounded. -/
def nearest (num den : Nat) : Binary64 :=
  let shift := (num / den).log2 + 1 - 53
  let significand := roundHalfEven num (den * 2 ^ shift)
  ofMagnitude false (min (shift * 2 ^ (52 : Nat) + significand) infinityBits)

/-- The number nearest to `n * 2 ^ exponent` units, without writing that number out. -/
def nearestScaled (n exponent : Nat) : Binary64 :=
  if n = 0 then ofMagnitude false 0
  else
    let shift := n.log2 + exponent + 1 - 53
    let significand := roundHalfEven (n * 2 ^ (exponent - shift)) (2 ^ (shift - exponent))
    ofMagnitude false (min (shift * 2 ^ (52 : Nat) + significand) infinityBits)

def ofNat (n : Nat) : Binary64 := nearestScaled n 1074

def ofQuotient (num den : Nat) : Binary64 := nearest (num * unitsPerOne) den

/-- Sum of two finite numbers without sign. -/
def add (x y : Binary64) : Binary64 := nearest (x.units + y.units) 1

/-- Product of two finite numbers without sign. -/
def mul (x y : Binary64) : Binary64 :=
  let product := x.significand * y.significand
  let exponent := x.exponent + y.exponent
  if 1074 ≤ exponent then nearestScaled product (exponent - 1074)
  else nearest product (2 ^ (1074 - exponent))

/-- How far two finite numbers without sign are apart. -/
def difference (x y : Binary64) : Binary64 :=
  nearest ((x.units - y.units) + (y.units - x.units)) 1

/-- The sum of the squares of two numbers, in squared units. -/
def squares (x y : Binary64) : Nat := x.units * x.units + y.units * y.units

/-- The root of the sum of the squares of two finite numbers, rounded once. A root that is no whole
number of half units lies strictly between two of them, and is rounded as their middle. -/
def hypot (x y : Binary64) : Binary64 :=
  let halves := (4 * squares x y).sqrt
  let rest := if halves * halves = 4 * squares x y then 0 else 1
  nearest (2 * halves + rest) 4

/-- The whole number nearest to the magnitude of a finite number, a half going up. -/
def toNearestNat (x : Binary64) : Nat := (2 * x.units + unitsPerOne) / (2 * unitsPerOne)

def exceedsOne (x : Binary64) : Bool :=
  x.isFinite && !x.isNegative && decide (unitsPerOne < x.units)

/-- The place of a number in the total order of all bit patterns: negative ones first, in falling
order of magnitude. -/
def rank (x : Binary64) : Int :=
  if x.isNegative then -(x.magnitude : Int) - 1 else x.magnitude

def order (x y : Binary64) : Ordering := compare x.rank y.rank

/-- Scaling both sides of a quotient does not change how it is rounded. -/
theorem roundHalfEven_mul_right (num den scale : Nat) (h : 0 < scale) :
    roundHalfEven (num * scale) (den * scale) = roundHalfEven num den := by
  have hrest : 2 * (num * scale % (den * scale)) = 2 * (num % den) * scale := by
    rw [Nat.mul_mod_mul_right, Nat.mul_assoc]
  simp only [roundHalfEven, hrest, Nat.mul_div_mul_right _ _ h, Nat.mul_lt_mul_right h]

/-- Scaling by a power of two shifts the highest bit. -/
theorem log2_mul_two_pow {n : Nat} (hn : n ≠ 0) (k : Nat) : (n * 2 ^ k).log2 = n.log2 + k := by
  induction k with
  | zero => simp
  | succ k ih =>
    have hne : n * 2 ^ k ≠ 0 := Nat.mul_ne_zero hn (Nat.ne_of_gt (Nat.pow_pos (by decide)))
    rw [Nat.pow_succ', Nat.mul_left_comm, Nat.log2_two_mul hne, ih, Nat.add_assoc]

/-- Not writing the scaled number out makes no difference. -/
theorem nearestScaled_eq (n exponent : Nat) :
    nearestScaled n exponent = nearest (n * 2 ^ exponent) 1 := by
  by_cases hn : n = 0
  · subst hn
    simp [nearestScaled, nearest, roundHalfEven]
  · have hlog : (n * 2 ^ exponent).log2 = n.log2 + exponent := log2_mul_two_pow hn exponent
    have hround : ∀ shift, roundHalfEven (n * 2 ^ (exponent - shift)) (2 ^ (shift - exponent)) =
        roundHalfEven (n * 2 ^ exponent) (2 ^ shift) := by
      intro shift
      rcases Nat.le_total shift exponent with hle | hle
      · have hpow : 2 ^ exponent = 2 ^ (exponent - shift) * 2 ^ shift := by
          rw [← Nat.pow_add, Nat.sub_add_cancel hle]
        have := roundHalfEven_mul_right (n * 2 ^ (exponent - shift)) 1 (2 ^ shift)
          (Nat.pow_pos (by decide))
        rw [Nat.one_mul] at this
        rw [Nat.sub_eq_zero_of_le hle, Nat.pow_zero, ← this, hpow, Nat.mul_assoc]
      · have hpow : 2 ^ shift = 2 ^ (shift - exponent) * 2 ^ exponent := by
          rw [← Nat.pow_add, Nat.sub_add_cancel hle]
        rw [Nat.sub_eq_zero_of_le hle, Nat.pow_zero, Nat.mul_one, hpow,
          roundHalfEven_mul_right _ _ _ (Nat.pow_pos (by decide))]
    simp only [nearestScaled, nearest, hn, if_false, Nat.div_one, Nat.one_mul, hlog, hround]

end Binary64

end Overlay.Number
