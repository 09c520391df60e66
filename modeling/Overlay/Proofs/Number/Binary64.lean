import Mathlib
import Overlay.Number.Binary64

/-!
The total order of binary64 patterns. Patterns without a sign stand at the number that their bits
spell, and those with one below zero, in falling order of their bits. So each pattern has a place of
its own: the two zeros, the infinities and the patterns that are no number are told apart like any
others.
-/

namespace Overlay.Number.Binary64

theorem rank_eq_ite (x : Binary64) :
    x.rank = if x.bits.toNat < 2 ^ 63 then (x.bits.toNat : ℤ) else 2 ^ 63 - 1 - x.bits.toNat := by
  have hbits := x.bits.isLt
  have hsign : x.isNegative = decide (2 ^ 63 ≤ x.bits.toNat) := BitVec.msb_eq_decide x.bits
  rw [rank, hsign, magnitude]
  by_cases hlow : x.bits.toNat < 2 ^ 63
  · rw [if_pos hlow, decide_eq_false (Nat.not_le_of_lt hlow), Nat.mod_eq_of_lt hlow]
    rfl
  · rw [if_neg hlow, decide_eq_true (Nat.le_of_not_lt hlow), if_pos rfl]
    omega

theorem rank_injective : Function.Injective rank := by
  intro x y hrank
  have hx := x.bits.isLt
  have hy := y.bits.isLt
  rw [rank_eq_ite, rank_eq_ite] at hrank
  have hbits : x.bits = y.bits := by
    apply BitVec.eq_of_toNat_eq
    -- Places of patterns with a sign are negative, and the others are not.
    split at hrank <;> split at hrank <;> omega
  exact congrArg Binary64.mk hbits

instance : Std.TransCmp order := inferInstanceAs (Std.TransCmp (compareOn rank))

/-- Only a pattern and itself compare as equal. -/
instance : Std.LawfulEqCmp order where
  eq_of_compare h := rank_injective (Std.LawfulEqOrd.compare_eq_iff_eq.mp h)

end Overlay.Number.Binary64
