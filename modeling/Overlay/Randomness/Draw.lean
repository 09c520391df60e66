import Overlay.Randomness.ChaCha
import Overlay.Keyspace.Space

/-!
Draws from a stream of words. A draw starts at a place of the stream and tells, with its result, the
place behind the last word it used. Nothing here depends on where the words come from.
-/

namespace Overlay.Randomness

-- Powers are those of the core library, whatever else is imported.
attribute [local instance (high)] instPowNat

/-- Two words as one of 64 bits, the low half first. -/
def double (w : Stream) (place : Nat) : Nat :=
  (w place).toNat + (w (place + 1)).toNat * 2 ^ (32 : Nat)

/-- Four words as one of 128 bits, the low half first. -/
def quadruple (w : Stream) (place : Nat) : Keyspace.Word :=
  BitVec.ofNat 128 (double w place + double w (place + 2) * 2 ^ (64 : Nat))

/-- One of `2 ^ 52` equal steps, from the high bits of two words. -/
def fraction (w : Stream) (place : Nat) : Nat := double w place / 2 ^ (12 : Nat)

/-- The largest low half of a product of a word and `n` that is accepted, so that every index is
drawn from equally many words. -/
def zone (n : Nat) : Nat := n * 2 ^ (31 - n.log2) - 1

/-- An index below `n`: the high half of the product of a word and `n`. Words with a low half
outside the zone are passed over; the first argument bounds how many are tried. -/
def index? (w : Stream) (n : Nat) : Nat → Nat → Option (Nat × Nat)
  | 0, _ => none
  | tries + 1, place =>
    let product := (w place).toNat * n
    if product % 2 ^ (32 : Nat) ≤ zone n then some (product / 2 ^ (32 : Nat), place + 1)
    else index? w n tries (place + 1)

end Overlay.Randomness
