import Overlay.Digest.Words

/-!
The random stream of a seed: the ChaCha key stream of twelve rounds as 32-bit words. A word is a
function of the seed and of its place in the stream, so that whoever draws carries nothing but the
place reached.
-/

namespace Overlay.Randomness

-- Powers are those of the core library, whatever else is imported.
attribute [local instance (high)] instPowNat

/-- An endless sequence of words. -/
abbrev Stream := Nat → UInt32

/-- Words after which the stream of a seed repeats: sixteen in each of `2 ^ 64` blocks. -/
def period : Nat := 2 ^ (68 : Nat)

namespace ChaCha

open Digest

abbrev Key := Vector UInt32 8

/-- Key words from a linear congruential state, each rotated by the topmost bits of its state. -/
def keyWords : Nat → UInt64 → List UInt32
  | 0, _ => []
  | n + 1, state =>
    let next := state * 6364136223846793005 + 11634580027462260723
    let mixed := (((next >>> 18) ^^^ next) >>> 27).toUInt32
    let turn := (next >>> 59).toUInt32
    let word := if turn = 0 then mixed else rotateRight mixed turn
    word :: keyWords n next

/-- The key that a seed is expanded to. -/
def key (seed : UInt64) : Key :=
  let words := (keyWords 8 seed).toArray
  Vector.ofFn fun (i : Fin 8) => words.getD i 0

def mix (v : Block) (q : Quarter) : Block :=
  let (i, j, k, l) := q
  let a := v.get i + v.get j
  let d := rotateLeft (v.get l ^^^ a) 16
  let c := v.get k + d
  let b := rotateLeft (v.get j ^^^ c) 12
  let a := a + b
  let d := rotateLeft (d ^^^ a) 8
  let c := c + d
  let b := rotateLeft (b ^^^ c) 7
  (((v.set i a (index_lt i)).set j b (index_lt j)).set k c (index_lt k)).set l d (index_lt l)

def rounds : Nat → Block → Block
  | 0, v => v
  | n + 1, v => rounds n (quarters.foldl mix v)

/-- The sixteen words of a block: twelve rounds, added to the state they began with. -/
def block (key : Key) (counter : Nat) : Block :=
  let start : Block :=
    (#v[0x61707865, 0x3320646e, 0x79622d32, 0x6b206574] : Vector UInt32 4) ++ key ++
      #v[UInt32.ofNat counter, UInt32.ofNat (counter / 2 ^ (32 : Nat)), 0, 0]
  let mixed := rounds 6 start
  Vector.ofFn fun (i : Fin 16) => start.get i + mixed.get i

def stream (seed : UInt64) : Stream :=
  let key := key seed
  fun place => (block key (place / 16)).getD (place % 16) 0

end ChaCha

end Overlay.Randomness
