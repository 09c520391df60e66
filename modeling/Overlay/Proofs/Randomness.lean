import Mathlib
import Overlay.Randomness.Draw

/-!
Draws from a stream that repeats. The key stream of every seed does, since its blocks are counted in
a register of 64 bits. Whoever has seen a whole period without success will see nothing else, so a
bound of one period on the words that are tried stops no draw that would have ended.
-/

namespace Overlay.Randomness

open Function (Periodic)

variable {w : Stream} {n : Nat}

/-- A block depends on its number through two words of 32 bits only. -/
theorem ChaCha.block_congr (key : Key) {counter other : Nat}
    (hlow : UInt32.ofNat counter = UInt32.ofNat other)
    (hhigh : UInt32.ofNat (counter / 2 ^ 32) = UInt32.ofNat (other / 2 ^ 32)) :
    block key counter = block key other := by
  unfold block
  rw [hlow, hhigh]

theorem ChaCha.block_add_two_pow (key : Key) (counter : Nat) :
    block key (counter + 2 ^ 64) = block key counter := by
  apply block_congr <;> apply UInt32.toNat_inj.mp <;> simp only [UInt32.toNat_ofNat'] <;> omega

theorem ChaCha.stream_periodic (seed : UInt64) : Periodic (stream seed) period := by
  intro place
  have hblock : (place + period) / 16 = place / 16 + 2 ^ 64 := by
    rw [period]
    omega
  have hword : (place + period) % 16 = place % 16 := by
    rw [period]
    omega
  simp only [stream, hblock, hword, block_add_two_pow]

/-- What holds along one period of a repeating property holds everywhere. -/
theorem forall_of_period {p : Nat → Prop} (hp : Periodic p period) (h : ∀ k < period, p k)
    (k : Nat) : p k := by
  rw [← hp.map_mod_nat k]
  exact h _ (Nat.mod_lt _ (Nat.pow_pos (by decide)))

/-- An index is drawn from the places of a list. -/
theorem index?_lt {tries place : Nat} {drawn : Nat × Nat} (hn : 0 < n)
    (h : index? w n tries place = some drawn) : drawn.1 < n := by
  induction tries generalizing place with
  | zero => cases h
  | succ tries ih =>
    rw [index?] at h
    split at h
    case isTrue =>
      cases h
      apply Nat.div_lt_of_lt_mul
      exact Nat.mul_lt_mul_of_pos_right (w place).toNat_lt hn
    case isFalse => exact ih h

/-- A word that is passed over when an index is drawn. -/
def PassedOver (w : Stream) (n place : Nat) : Prop := zone n < (w place).toNat * n % 2 ^ 32

theorem index?_eq_none_iff {tries place : Nat} :
    index? w n tries place = none ↔ ∀ k < tries, PassedOver w n (place + k) := by
  induction tries generalizing place with
  | zero => simp [index?]
  | succ tries ih =>
    rw [Nat.forall_lt_succ_left, index?]
    by_cases hword : PassedOver w n place
    · have hnext (k : Nat) : place + 1 + k = place + (k + 1) := by omega
      rw [if_neg (Nat.not_le.mpr hword), ih]
      simp only [hnext, Nat.add_zero, hword, true_and]
    · rw [if_pos (Nat.not_lt.mp hword)]
      simp [hword]

/-- From a stream that repeats an index is drawn unless all words that follow are passed over. -/
theorem index?_period_eq_none_iff (hw : Periodic w period) {place : Nat} :
    index? w n period place = none ↔ ∀ k, PassedOver w n (place + k) := by
  rw [index?_eq_none_iff]
  constructor
  · apply forall_of_period
    intro k
    simp only [PassedOver, ← Nat.add_assoc, hw _]
  · exact fun h k _ => h k

theorem quadruple_periodic {turn : Nat} (hw : Periodic w turn) : Periodic (quadruple w) turn := by
  intro place
  have hword (i : Nat) : w (place + turn + i) = w (place + i) := by
    rw [Nat.add_right_comm, hw]
  simp only [quadruple, double, Nat.add_assoc (place + turn), hword, hw place]

end Overlay.Randomness
