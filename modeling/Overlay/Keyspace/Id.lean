import Overlay.Keyspace.Fault

/-!
Identifiers: a position on the ring of a space. Prefix and distance questions are answered on the
word itself. Two identifiers of different spaces are never equal, yet all identifiers together are
ordered by position, then length, then base, so that sorting is canonical.
-/

namespace Overlay.Keyspace

-- Powers are those of the core library, whatever else is imported.
attribute [local instance (high)] instPowNat

/-- A position on the ring of `space`. -/
structure Id where
  space : Space
  value : Word
  value_lt : value.toNat < 2 ^ space.bits
  deriving DecidableEq

namespace Id

def ofWord (value : Word) (space : Space) : Id :=
  { space, value := space.reduce value, value_lt := space.toNat_reduce_lt value }

def length (a : Id) : Nat := a.space.length

/-- Distance of the lowest bit of the digit at `index` from the end of the word. -/
def digitShift (space : Space) (index : Nat) : Nat :=
  space.digitBits * (space.length - 1 - index)

/-- The digit at an index counted from the most significant one; the last one for any index past
the end. -/
def digit (a : Id) (index : Nat) : Nat :=
  ((a.value >>> digitShift a.space index) &&& BitVec.ofNat 128 (a.space.base - 1)).toNat

def digit? (a : Id) (index : Nat) : Option Nat :=
  if index < a.length then some (a.digit index) else none

theorem digit_lt (a : Id) (index : Nat) : a.digit index < a.space.base := by
  have hbase : 0 < a.space.base := Nat.pow_pos (by decide)
  have hle : a.digit index ≤ (BitVec.ofNat 128 (a.space.base - 1)).toNat := by
    rw [digit, BitVec.toNat_and]
    exact Nat.and_le_right
  have hmod : (BitVec.ofNat 128 (a.space.base - 1)).toNat ≤ a.space.base - 1 := by
    rw [BitVec.toNat_ofNat]
    exact Nat.mod_le _ _
  omega

def digits (a : Id) : List Nat := (List.range a.length).map a.digit

/-- Bits of a word above its highest set bit; all of them if none is set. -/
def leadingZeros (w : Word) : Nat := if w = 0#128 then 128 else 127 - w.toNat.log2

/-- Number of leading digits two identifiers share: the bits in which they agree before their
highest difference, less those outside the ring, in whole digits. Different spaces share nothing. -/
def sharedPrefix (a b : Id) : Nat :=
  if a.space = b.space then
    let difference := a.value ^^^ b.value
    if difference = 0#128 then a.length
    else (leadingZeros difference - a.space.unusedBits) / a.space.digitBits
  else 0

/-- Steps walked clockwise, towards larger positions, to reach `b` on the ring of `a`. -/
def clockwise (a b : Id) : Nat := (a.space.clockwise a.value b.value).toNat

def distance (a b : Id) : Nat := min (a.clockwise b) (b.clockwise a)

def order (a b : Id) : Ordering :=
  (compare a.value.toNat b.value.toNat).then
    ((compare a.length b.length).then (compare a.space.base b.space.base))

def precedes (a b : Id) : Bool := (a.order b).isLT

def sort (ids : List Id) : List Id := ids.mergeSort fun a b => (a.order b).isLE

end Id

end Overlay.Keyspace
