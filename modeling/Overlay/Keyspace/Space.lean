/-!
Identifier spaces. A space is a ring of `base ^ length` positions whose identifiers are written as
exactly `length` digits, most significant first. The base is a power of two up to sixteen, so that
a digit is a whole number of bits and prints as one hexadecimal character, and the ring has at most
`2 ^ 128` positions, so that a position is one 128-bit word.

All ring arithmetic is done on words: reduction is a mask and a clockwise distance is one wrapping
subtraction followed by that mask. This is right also on the full ring, whose size is not a word.
-/

namespace Overlay.Keyspace

-- Powers are those of the core library, whatever else is imported.
attribute [local instance (high)] instPowNat

/-- A machine word wide enough for every ring position. -/
abbrev Word := BitVec 128

inductive Radix where
  | binary
  | quaternary
  | octal
  | hexadecimal
  deriving DecidableEq

namespace Radix

def bits : Radix → Nat
  | .binary => 1
  | .quaternary => 2
  | .octal => 3
  | .hexadecimal => 4

def base (r : Radix) : Nat := 2 ^ r.bits

def ofBase? : Nat → Option Radix
  | 2 => some .binary
  | 4 => some .quaternary
  | 8 => some .octal
  | 16 => some .hexadecimal
  | _ => none

end Radix

/-- Why a base and a length do not describe a usable ring. -/
inductive SpaceFault where
  | base (base : Nat)
  | noDigits
  | tooWide (base length bits : Nat)
  /-- The width of the ring is no 64-bit number. This is no verdict: multiplied with checks, the
  program ends here, and without them it goes on with the width modulo `2 ^ 64`. -/
  | overflow (base length : Nat)
  /-- A reason given by a caller in words of its own. -/
  | stated (reason : String)
  deriving DecidableEq

def SpaceFault.message : SpaceFault → String
  | .base b => s!"base {b} is not a power of two in 2..=16"
  | .noDigits => "length must be at least one digit"
  | .tooWide b l n => s!"{b}^{l} needs {n} bits, at most 128 are supported"
  | .overflow .. => "attempt to multiply with overflow"
  | .stated reason => reason

/-- A ring of `radix.base ^ length` positions that fit in a word. -/
structure Space where
  radix : Radix
  length : Nat
  length_pos : 0 < length := by decide
  fits : radix.bits * length ≤ 128 := by decide
  deriving DecidableEq

namespace Space

/-- The space of a base and a length. The base is judged before the length, and the length before
the width of the ring, which is multiplied out in a 64-bit register. -/
def ofBase (base length : Nat) : Except SpaceFault Space :=
  match Radix.ofBase? base with
  | none => .error (.base base)
  | some radix =>
    if length_pos : 0 < length then
      if 2 ^ (64 : Nat) ≤ radix.bits * length then
        .error (.overflow base length)
      else if fits : radix.bits * length ≤ 128 then
        .ok { radix, length, length_pos, fits }
      else
        .error (.tooWide base length (radix.bits * length))
    else
      .error .noDigits

/-- Thirty-two hexadecimal digits, the full ring of `2 ^ 128` positions. -/
def canonical : Space := { radix := .hexadecimal, length := 32 }

def base (s : Space) : Nat := s.radix.base

def digitBits (s : Space) : Nat := s.radix.bits

def bits (s : Space) : Nat := s.digitBits * s.length

def size (s : Space) : Nat := 2 ^ s.bits

/-- Bits of a word that no identifier of the space uses. -/
def unusedBits (s : Space) : Nat := 128 - s.bits

/-- Number of positions as a word, or `none` on the full ring, whose size no word can hold. -/
def size? (s : Space) : Option Word :=
  if s.bits < 128 then some (1#128 <<< s.bits) else none

/-- The largest position: every used bit is set. -/
def maxValue (s : Space) : Word :=
  match s.size? with
  | some size => size - 1#128
  | none => BitVec.allOnes 128

def reduce (s : Space) (value : Word) : Word := value &&& s.maxValue

/-- Steps walked towards larger positions, around the ring if need be, from one position to
another. -/
def clockwise (s : Space) (start stop : Word) : Word := s.reduce (stop - start)

def text (s : Space) : String := s!"{s.base}^{s.length}"

theorem digitBits_pos (s : Space) : 0 < s.digitBits := by
  unfold digitBits
  cases s.radix <;> decide

theorem bits_le (s : Space) : s.bits ≤ 128 := s.fits

theorem bits_pos (s : Space) : 0 < s.bits := Nat.mul_pos s.digitBits_pos s.length_pos

theorem toNat_maxValue (s : Space) : s.maxValue.toNat = 2 ^ s.bits - 1 := by
  unfold maxValue size?
  by_cases h : s.bits < 128
  · have hlt : 2 ^ s.bits < 2 ^ 128 := Nat.pow_lt_pow_right (by decide) h
    have hpos : 0 < 2 ^ s.bits := Nat.pow_pos (by decide)
    simp only [h, if_true, BitVec.toNat_sub, BitVec.toNat_shiftLeft, BitVec.toNat_ofNat,
      Nat.one_shiftLeft, Nat.one_mod_two_pow (by decide : 0 < 128), Nat.mod_eq_of_lt hlt]
    omega
  · have heq : s.bits = 128 := Nat.le_antisymm s.bits_le (by omega)
    simp [heq]

/-- Masking a word is the remainder modulo the number of positions. -/
theorem toNat_reduce (s : Space) (value : Word) :
    (s.reduce value).toNat = value.toNat % 2 ^ s.bits := by
  rw [reduce, BitVec.toNat_and, toNat_maxValue, Nat.and_two_pow_sub_one_eq_mod]

theorem toNat_reduce_lt (s : Space) (value : Word) : (s.reduce value).toNat < 2 ^ s.bits := by
  rw [toNat_reduce]
  exact Nat.mod_lt _ (Nat.pow_pos (by decide))

end Space

end Overlay.Keyspace
