import Mathlib
import Overlay.Keyspace.Id
import Overlay.Proofs.Keyspace.Order

/-!
Shared prefixes. Only an identifier and itself share all digits. Two identifiers share at least as
many digits as their positions have equal leading digits, read as one number: this is what the bits
before the highest difference say. Digit by digit, they share what comes before the first digit in
which they differ.
-/

namespace Overlay.Keyspace.Id

theorem sharedPrefix_self (a : Id) : a.sharedPrefix a = a.length := by
  simp [sharedPrefix]

theorem xor_ne_zero {a b : Id} (hspace : a.space = b.space) (hne : a ≠ b) :
    a.value ^^^ b.value ≠ 0#128 := by
  intro hxor
  exact hne (eq_of_value_space (BitVec.xor_eq_zero_iff.mp hxor) hspace)

theorem sharedPrefix_lt {a b : Id} (hspace : a.space = b.space) (hne : a ≠ b) :
    a.sharedPrefix b < a.length := by
  have hxor := xor_ne_zero hspace hne
  have hbits : a.space.bits = a.space.digitBits * a.length := rfl
  have hpos := a.space.bits_pos
  simp only [sharedPrefix, if_pos hspace, if_neg hxor, leadingZeros]
  rw [Nat.div_lt_iff_lt_mul a.space.digitBits_pos, Nat.mul_comm, ← hbits, Space.unusedBits]
  omega

theorem digit?_of_lt {a : Id} {index : Nat} (hindex : index < a.length) :
    a.digit? index = some (a.digit index) :=
  if_pos hindex

/-- The leading digits of an identifier as one number. -/
def leading (a : Id) (count : Nat) : Nat :=
  a.value.toNat >>> (a.space.digitBits * (a.length - count))

theorem leading_lt (a : Id) {count : Nat} (hcount : count ≤ a.length) :
    a.leading count < 2 ^ (a.space.digitBits * count) := by
  have hbits : a.space.digitBits * count + a.space.digitBits * (a.length - count) =
      a.space.bits := by
    rw [← Nat.mul_add, Nat.add_sub_cancel' hcount]
    rfl
  rw [leading, Nat.shiftRight_eq_div_pow]
  apply Nat.div_lt_of_lt_mul
  rw [← Nat.pow_add, Nat.add_comm, hbits]
  exact a.value_lt

theorem leading_eq_div (a : Id) (count : Nat) :
    a.leading count = a.value.toNat / a.space.base ^ (a.length - count) := by
  have hblock : a.space.base ^ (a.length - count) =
      2 ^ (a.space.digitBits * (a.length - count)) :=
    (Nat.pow_mul 2 a.space.digitBits (a.length - count)).symm
  rw [leading, Nat.shiftRight_eq_div_pow, hblock]

/-- A digit is the last one of the leading digits up to it. -/
theorem digit_eq_leading_mod (a : Id) (index : Nat) :
    a.digit index = a.leading (index + 1) % a.space.base := by
  have hmask : (BitVec.ofNat 128 (a.space.base - 1)).toNat = 2 ^ a.space.digitBits - 1 := by
    have hbase : a.space.base - 1 < 2 ^ 128 := by
      unfold Space.base
      cases a.space.radix <;> decide
    exact Nat.mod_eq_of_lt hbase
  have hshift : digitShift a.space index = a.space.digitBits * (a.length - (index + 1)) := by
    rw [digitShift, Id.length, Nat.sub_sub, Nat.add_comm]
  rw [digit, BitVec.toNat_and, hmask, Nat.and_two_pow_sub_one_eq_mod, BitVec.toNat_ushiftRight,
    hshift]
  rfl

theorem le_sharedPrefix_iff {a b : Id} (hspace : a.space = b.space) {count : Nat}
    (hcount : count ≤ a.length) : count ≤ a.sharedPrefix b ↔ a.leading count = b.leading count := by
  by_cases hab : a = b
  · subst hab
    rw [sharedPrefix_self]
    exact iff_of_true hcount rfl
  have hxor := xor_ne_zero hspace hab
  have hdifferent : (a.value ^^^ b.value).toNat ≠ 0 := by
    intro hzero
    exact hxor (BitVec.eq_of_toNat_eq hzero)
  have hwithin : (a.value ^^^ b.value).toNat < 2 ^ a.space.bits := by
    rw [BitVec.toNat_xor]
    exact Nat.xor_lt_two_pow a.value_lt (hspace ▸ b.value_lt)
  have hhighest : (a.value ^^^ b.value).toNat.log2 < a.space.bits :=
    (Nat.log2_lt hdifferent).mpr hwithin
  have hbits : count * a.space.digitBits + a.space.digitBits * (a.length - count) =
      a.space.bits := by
    rw [Nat.mul_comm, ← Nat.mul_add, Nat.add_sub_cancel' hcount]
    rfl
  -- The shared digits lie above the highest bit in which the positions differ.
  have habove : count ≤ a.sharedPrefix b ↔
      (a.value ^^^ b.value).toNat.log2 < a.space.digitBits * (a.length - count) := by
    have hfits := a.space.bits_le
    simp only [sharedPrefix, if_pos hspace, if_neg hxor, leadingZeros, Space.unusedBits]
    rw [Nat.le_div_iff_mul_le a.space.digitBits_pos]
    omega
  have hlength : b.length = a.length := congrArg Space.length hspace.symm
  rw [habove, Nat.log2_lt hdifferent, leading, leading, ← hspace, hlength, ← Nat.xor_eq_zero_iff,
    ← Nat.shiftRight_xor_distrib, ← BitVec.toNat_xor, Nat.shiftRight_eq_div_pow,
    Nat.div_eq_zero_iff_lt (Nat.pow_pos (by decide))]

/-- One more leading digit. -/
theorem leading_succ (a : Id) {count : Nat} (hcount : count < a.length) :
    a.leading (count + 1) = a.leading count * a.space.base + a.digit count := by
  have hshift : a.space.digitBits * (a.length - count) =
      a.space.digitBits * (a.length - (count + 1)) + a.space.digitBits := by
    rw [← Nat.mul_succ]
    congr 1
    omega
  have hdiv : a.leading count = a.leading (count + 1) / a.space.base := by
    rw [leading, hshift, Nat.shiftRight_add, Nat.shiftRight_eq_div_pow _ a.space.digitBits]
    rfl
  rw [hdiv, digit_eq_leading_mod, Nat.div_add_mod']

/-- One more digit is shared if all digits before it are and the digit itself agrees. -/
theorem lt_sharedPrefix_iff {a b : Id} (hspace : a.space = b.space) {index : Nat}
    (hindex : index < a.length) :
    index < a.sharedPrefix b ↔ index ≤ a.sharedPrefix b ∧ a.digit index = b.digit index := by
  have hindex' : index < b.length := by
    rwa [length, ← hspace]
  have ha := a.digit_lt index
  have hb := b.digit_lt index
  rw [← Nat.succ_le_iff, le_sharedPrefix_iff hspace hindex, le_sharedPrefix_iff hspace hindex.le,
    Nat.succ_eq_add_one, leading_succ a hindex, leading_succ b hindex', ← hspace]
  rw [← hspace] at hb
  constructor
  · intro h
    have hdigit : a.digit index = b.digit index := by
      have hmod := congrArg (· % a.space.base) h
      simpa [Nat.mod_eq_of_lt ha, Nat.mod_eq_of_lt hb] using hmod
    rw [hdigit, Nat.add_right_cancel_iff] at h
    exact ⟨Nat.eq_of_mul_eq_mul_right (Nat.zero_lt_of_lt ha) h, hdigit⟩
  · rintro ⟨hleading, hdigit⟩
    rw [hleading, hdigit]

/-- Behind their shared prefix two identifiers differ. -/
theorem digit_sharedPrefix_ne {a b : Id} (hspace : a.space = b.space) (hne : a ≠ b) :
    a.digit (a.sharedPrefix b) ≠ b.digit (a.sharedPrefix b) := by
  intro hdigit
  have hshared := (lt_sharedPrefix_iff hspace (sharedPrefix_lt hspace hne)).mpr
    ⟨Nat.le_refl _, hdigit⟩
  exact Nat.lt_irrefl _ hshared

/-- Seen from `a`, an identifier shares more digits with `b` than `a` does just if it leaves the
digits of `a` at the same place as `b` and with the same digit. -/
theorem sharedPrefix_lt_iff_branch {a b c : Id} (hab : a.space = b.space) (hac : a.space = c.space)
    (hne : a ≠ b) :
    a.sharedPrefix b < c.sharedPrefix b ↔
      a.sharedPrefix c = a.sharedPrefix b ∧
        c.digit (a.sharedPrefix b) = b.digit (a.sharedPrefix b) := by
  have hcb : c.space = b.space := hac.symm.trans hab
  have hlt := sharedPrefix_lt hab hne
  have hltc : a.sharedPrefix b < c.length := by
    rwa [length, ← hac]
  have hleading : a.leading (a.sharedPrefix b) = b.leading (a.sharedPrefix b) :=
    (le_sharedPrefix_iff hab hlt.le).mp (Nat.le_refl _)
  -- Up to the place where `b` leaves, sharing digits with `b` is sharing them with `a`.
  have hagree : a.sharedPrefix b ≤ c.sharedPrefix b ↔ a.sharedPrefix b ≤ a.sharedPrefix c := by
    rw [le_sharedPrefix_iff hcb hltc.le, le_sharedPrefix_iff hac hlt.le, hleading]
    exact eq_comm
  rw [lt_sharedPrefix_iff hcb hltc, hagree]
  refine and_congr_left fun hdigit => ?_
  constructor
  · intro hle
    refine Nat.le_antisymm (Nat.not_lt.mp fun hmore => ?_) hle
    have hsame := ((lt_sharedPrefix_iff hac hlt).mp hmore).2
    exact digit_sharedPrefix_ne hab hne (hsame.trans hdigit)
  · exact fun heq => heq.ge

/-- The first digit is all there is of one leading digit. -/
theorem digit_zero_eq_leading (a : Id) : a.digit 0 = a.leading 1 := by
  have hlt : a.leading 1 < a.space.base := by
    have hleading := a.leading_lt a.space.length_pos
    rwa [Nat.mul_one] at hleading
  rw [a.digit_eq_leading_mod, Nat.mod_eq_of_lt hlt]

/-- Nothing is shared by identifiers with different first digits, and only by these. -/
theorem sharedPrefix_eq_zero_iff {a b : Id} (hspace : a.space = b.space) :
    a.sharedPrefix b = 0 ↔ a.digit 0 ≠ b.digit 0 := by
  rw [digit_zero_eq_leading, digit_zero_eq_leading, Ne,
    ← le_sharedPrefix_iff hspace a.space.length_pos, Nat.not_le, Nat.lt_one_iff]

end Overlay.Keyspace.Id
