import Overlay.Digest.Words

/-!
The BLAKE3 digest, unkeyed, of 32 bytes. A message is cut into chunks of 1024 bytes and a chunk into
blocks of 64; the chunks are the leaves of a binary tree whose left side always holds a power of two
of them. Every node is one compression, and the topmost one alone carries the root flag.
-/

namespace Overlay.Digest.Blake3

-- Powers are those of the core library, whatever else is imported.
attribute [local instance (high)] instPowNat

/-- Eight words handed from one compression to the next. -/
abbrev Chaining := Vector UInt32 8

/-- The chaining words that a chunk and a parent begin with. -/
def initial : Chaining :=
  #v[0x6a09e667, 0xbb67ae85, 0x3c6ef372, 0xa54ff53a, 0x510e527f, 0x9b05688c, 0x1f83d9ab, 0x5be0cd19]

def chunkStart : UInt32 := 1
def chunkEnd : UInt32 := 2
def parent : UInt32 := 4
def root : UInt32 := 8

def mix (v : Block) (q : Quarter) (x y : UInt32) : Block :=
  let (i, j, k, l) := q
  let a := v[i] + v[j] + x
  let d := rotateRight (v[l] ^^^ a) 16
  let c := v[k] + d
  let b := rotateRight (v[j] ^^^ c) 12
  let a := a + b + y
  let d := rotateRight (d ^^^ a) 8
  let c := c + d
  let b := rotateRight (b ^^^ c) 7
  (((v.set i a).set j b).set k c).set l d

/-- Where each message word of the next round is taken from. -/
def schedule : Vector (Fin 16) 16 := #v[2, 6, 3, 10, 7, 0, 4, 13, 1, 11, 12, 5, 9, 14, 15, 8]

/-- One round mixes each message word once, two to a quarter. -/
def round (message v : Block) : Block :=
  quarters.zipIdx.foldl
    (fun v (q, n) => mix v q (message.getD (2 * n) 0) (message.getD (2 * n + 1) 0)) v

def rounds : Nat → Block → Block → Block
  | 0, _, v => v
  | n + 1, message, v => rounds n (schedule.map fun i => message[i]) (round message v)

/-- Seven rounds on the chaining words and the block, folded back onto the chaining words. -/
def compress (chaining : Chaining) (message : Block) (counter length : Nat) (flags : UInt32) :
    Chaining :=
  let start : Block := chaining ++ #v[initial[0], initial[1], initial[2], initial[3],
    UInt32.ofNat counter, UInt32.ofNat (counter / 2 ^ (32 : Nat)), UInt32.ofNat length, flags]
  let v := rounds 7 message start
  Vector.ofFn fun (i : Fin 8) => v[i.val] ^^^ v[i.val + 8]

/-- A word from at most four bytes, lowest first, missing ones being zero. -/
def wordOf (bytes : List UInt8) : UInt32 :=
  bytes.foldr (fun b w => w <<< 8 ||| b.toUInt32) 0

/-- A block from at most sixty-four bytes, filled up with zeros. -/
def blockOf (bytes : List UInt8) : Block :=
  let packed := bytes.toArray
  Vector.ofFn fun (i : Fin 16) => wordOf (packed.extract (4 * i) (4 * i + 4)).toList

/-- The chaining words of one chunk. `start` marks the block that opens it, `top` the root. -/
def chunk (counter : Nat) (top : UInt32) (chaining : Chaining) (start : UInt32)
    (bytes : List UInt8) : Chaining :=
  if bytes.length ≤ 64 then
    compress chaining (blockOf bytes) counter bytes.length (start ||| chunkEnd ||| top)
  else
    let next := compress chaining (blockOf (bytes.take 64)) counter 64 start
    chunk counter top next 0 (bytes.drop 64)
  termination_by bytes.length
  decreasing_by simp only [List.length_drop]; omega

/-- Bytes on the left side of a tree over `n > 1024` bytes: the largest power of two of chunks that
leaves something for the right side. -/
def leftLength (n : Nat) : Nat := 1024 * 2 ^ ((n - 1) / 1024).log2

theorem leftLength_pos (n : Nat) : 0 < leftLength n :=
  Nat.mul_pos (by decide) (Nat.pow_pos (by decide))

theorem leftLength_lt {n : Nat} (h : 1024 < n) : leftLength n < n := by
  have hpow : 2 ^ ((n - 1) / 1024).log2 ≤ (n - 1) / 1024 := Nat.log2_self_le (by omega)
  unfold leftLength
  omega

/-- The chaining words of a subtree whose first chunk has number `counter`. -/
def tree (counter : Nat) (top : UInt32) (bytes : List UInt8) : Chaining :=
  if _single : bytes.length ≤ 1024 then chunk counter top initial chunkStart bytes
  else
    let cut := leftLength bytes.length
    let left := tree counter 0 (bytes.take cut)
    let right := tree (counter + cut / 1024) 0 (bytes.drop cut)
    compress initial (left ++ right) 0 64 (parent ||| top)
  termination_by bytes.length
  decreasing_by
    · have := leftLength_lt (n := bytes.length) (by omega)
      simp only [List.length_take]
      omega
    · have := leftLength_pos bytes.length
      simp only [List.length_drop]
      omega

def bytesOf (w : UInt32) : List UInt8 :=
  [w.toUInt8, (w >>> 8).toUInt8, (w >>> 16).toUInt8, (w >>> 24).toUInt8]

def digest (bytes : List UInt8) : List UInt8 := (tree 0 root bytes).toList.flatMap bytesOf

end Overlay.Digest.Blake3
