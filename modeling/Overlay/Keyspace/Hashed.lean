import Overlay.Digest.Blake3
import Overlay.Keyspace.Id

/-!
Identifiers derived from arbitrary bytes, such as a public key: the leading bits of their digest.
-/

namespace Overlay.Keyspace

/-- The first sixteen bytes of a digest as a word, most significant first. -/
def leadingWord (digest : List UInt8) : Word :=
  (digest.take 16).foldl (fun w b => w <<< 8 ||| BitVec.ofNat 128 b.toNat) 0#128

namespace Id

/-- The identifier that the leading bits of a digest spell. -/
def ofDigest (digest : List UInt8) (space : Space) : Id where
  space
  value := leadingWord digest >>> space.unusedBits
  value_lt := by
    rw [BitVec.toNat_ushiftRight, Nat.shiftRight_eq_div_pow]
    apply Nat.div_lt_of_lt_mul
    rw [← Nat.pow_add, show space.unusedBits + space.bits = 128 from
      Nat.sub_add_cancel space.bits_le]
    exact (leadingWord digest).isLt

def hash (bytes : List UInt8) (space : Space) : Id :=
  ofDigest (Digest.Blake3.digest bytes) space

end Id

end Overlay.Keyspace
