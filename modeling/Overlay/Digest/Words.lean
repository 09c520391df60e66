/-!
Rotation of 32-bit words and the sixteen-word state that the digest and the random stream mix.
-/

namespace Overlay.Digest

-- Zero is that of the core library, whatever else is imported.
attribute [local instance (high)] Zero.ofOfNat0

/-- Sixteen words, mixed four at a time. -/
abbrev Block := Vector UInt32 16

/-- Rotation towards the low bits, for `0 < n < 32`. -/
def rotateRight (w n : UInt32) : UInt32 := (w >>> n) ||| (w <<< (32 - n))

/-- Rotation towards the high bits, for `0 < n < 32`. -/
def rotateLeft (w n : UInt32) : UInt32 := (w <<< n) ||| (w >>> (32 - n))

instance neZero_sixteen : NeZero 16 := ⟨by decide⟩

theorem index_lt (i : Fin 16) : i.val < 16 := i.isLt

/-- Four word indices: the columns of a state, then its diagonals. -/
abbrev Quarter := Fin 16 × Fin 16 × Fin 16 × Fin 16

/-- The eight quarters of a double round, in the order in which they are mixed. -/
def quarters : List Quarter :=
  [(0, 4, 8, 12), (1, 5, 9, 13), (2, 6, 10, 14), (3, 7, 11, 15),
   (0, 5, 10, 15), (1, 6, 11, 12), (2, 7, 8, 13), (3, 4, 9, 14)]

end Overlay.Digest
