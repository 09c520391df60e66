import Mathlib
import Overlay.Proofs.Keyspace.Hashed

/-!
Ring arithmetic as a machine carries it out. Some steps have no result there: a shift by the width
of the word or more, a difference below zero, a product that is too wide for its register, a
quotient by zero. Here every computation on a ring is written once more in a form that has no value
when it meets such a step, and on every space that is accepted, the full ring included, it has the
value of the definition that runs. So what is checked when a space is built is all that has to be
checked.
-/

namespace Overlay.Keyspace

/-- Trailing zeros of a byte, all eight if no bit is set. -/
def trailingZeros (byte : BitVec 8) : Nat := byte.ctz.toNat

theorem Radix.ofBase?_eq_some {base : Nat} {radix : Radix} :
    Radix.ofBase? base = some radix ↔ radix.base = base := by
  constructor
  · unfold Radix.ofBase?
    split <;> rintro ⟨⟩ <;> rfl
  · rintro rfl
    cases radix <;> rfl

theorem Radix.exists_base_iff {base : Nat} :
    (∃ radix : Radix, radix.base = base) ↔ base ∈ [2, 4, 8, 16] := by
  constructor
  · rintro ⟨radix, rfl⟩
    cases radix <;> decide
  · intro hbase
    fin_cases hbase
    exacts [⟨.binary, rfl⟩, ⟨.quaternary, rfl⟩, ⟨.octal, rfl⟩, ⟨.hexadecimal, rfl⟩]

/-- The bits of a digit are the zeros behind the one bit of the base. -/
theorem Radix.trailingZeros_base (radix : Radix) :
    trailingZeros (BitVec.ofNat 8 radix.base) = radix.bits := by
  cases radix <;> decide

namespace Space

theorem ofBase_eq_ok {base length : Nat} {s : Space} :
    ofBase base length = .ok s ↔ s.base = base ∧ s.length = length := by
  constructor
  · unfold ofBase
    split
    case h_1 => rintro ⟨⟩
    case h_2 radix hradix =>
      intro h
      split at h
      case isTrue =>
        split at h
        case isTrue => cases h
        case isFalse =>
          split at h
          case isTrue =>
            cases h
            exact ⟨Radix.ofBase?_eq_some.mp hradix, rfl⟩
          case isFalse => cases h
      case isFalse => cases h
  · rintro ⟨rfl, rfl⟩
    have hradix : Radix.ofBase? s.base = some s.radix := Radix.ofBase?_eq_some.mpr rfl
    have hwidth : ¬ 2 ^ 64 ≤ s.radix.bits * s.length :=
      Nat.not_le.mpr (Nat.lt_of_le_of_lt s.fits (by decide))
    rw [ofBase, hradix]
    exact (dif_pos s.length_pos).trans ((if_neg hwidth).trans (dif_pos s.fits))

theorem ofBase_overflow {base length : Nat} {radix : Radix}
    (hradix : Radix.ofBase? base = some radix) (hpos : 0 < length)
    (hwidth : 2 ^ 64 ≤ radix.bits * length) :
    ofBase base length = .error (.overflow base length) := by
  rw [ofBase, hradix]
  exact (dif_pos hpos).trans (if_pos hwidth)

theorem ofBase_tooWide {base length : Nat} {radix : Radix}
    (hradix : Radix.ofBase? base = some radix) (hpos : 0 < length)
    (hwidth : radix.bits * length < 2 ^ 64) (hwide : ¬ radix.bits * length ≤ 128) :
    ofBase base length = .error (.tooWide base length (radix.bits * length)) := by
  rw [ofBase, hradix]
  exact (dif_pos hpos).trans ((if_neg (Nat.not_le.mpr hwidth)).trans (dif_neg hwide))

theorem exists_ofBase_iff {base length : Nat} :
    (∃ s, ofBase base length = .ok s) ↔
      base ∈ [2, 4, 8, 16] ∧ 1 ≤ length ∧ base ^ length ≤ 2 ^ 128 := by
  simp only [ofBase_eq_ok]
  constructor
  · rintro ⟨s, rfl, rfl⟩
    refine ⟨Radix.exists_base_iff.mp ⟨s.radix, rfl⟩, s.length_pos, ?_⟩
    rw [s.base_pow_length]
    exact Nat.pow_le_pow_right (by decide) s.bits_le
  · rintro ⟨hbase, hlength, hsize⟩
    obtain ⟨radix, rfl⟩ := Radix.exists_base_iff.mpr hbase
    rw [Radix.base, ← Nat.pow_mul] at hsize
    have hfits : radix.bits * length ≤ 128 := (Nat.pow_le_pow_iff_right (by decide)).mp hsize
    exact ⟨{ radix, length, length_pos := hlength, fits := hfits }, rfl, rfl⟩

theorem digitBits_le (s : Space) : s.digitBits ≤ 4 := by
  unfold digitBits
  cases s.radix <;> decide

theorem length_le (s : Space) : s.length ≤ 128 :=
  Nat.le_trans (Nat.le_mul_of_pos_left _ s.digitBits_pos) s.bits_le

theorem size?_eq_none_iff (s : Space) : s.size? = none ↔ s.bits = 128 := by
  have hle := s.bits_le
  rw [size?]
  split <;> simp <;> omega

theorem size?_eq_some_iff (s : Space) {n : Word} :
    s.size? = some n ↔ s.bits < 128 ∧ n.toNat = 2 ^ s.bits := by
  rw [size?]
  split
  case isTrue hlt =>
    have hword : 2 ^ s.bits < 2 ^ 128 := Nat.pow_lt_pow_right (by decide) hlt
    have hsize : (1#128 <<< s.bits).toNat = 2 ^ s.bits := by
      rw [BitVec.toNat_shiftLeft, BitVec.toNat_ofNat, Nat.one_mod_two_pow (by decide),
        Nat.one_shiftLeft, Nat.mod_eq_of_lt hword]
    rw [Option.some_inj, ← BitVec.toNat_inj, hsize, eq_comm]
    exact (and_iff_right hlt).symm
  case isFalse hfull => simp [hfull]

end Space

namespace Machine

/-- A difference, if it is not below zero. -/
def sub? {α : Type} [LE α] [DecidableLE α] [Sub α] (m n : α) : Option α :=
  if n ≤ m then some (m - n) else none

/-- A product, if a register of the given width can hold it. -/
def mul? (width m n : Nat) : Option Nat := if m * n < 2 ^ width then some (m * n) else none

/-- A quotient, if the divisor is not zero. -/
def div? (m n : Nat) : Option Nat := if n = 0 then none else some (m / n)

/-- A word shifted up, if the amount is below its width. -/
def shiftLeft? (w : Word) (amount : Nat) : Option Word :=
  if amount < 128 then some (w <<< amount) else none

/-- A word shifted down, if the amount is below its width. -/
def shiftRight? (w : Word) (amount : Nat) : Option Word :=
  if amount < 128 then some (w >>> amount) else none

/-- The low 32 bits of a number. -/
def low32 (n : Nat) : Nat := n % 2 ^ 32

def digitBits (s : Space) : Nat := trailingZeros (BitVec.ofNat 8 s.base)

def bits? (s : Space) : Option Nat := mul? 32 (digitBits s) (low32 s.length)

/-- The validation of a space: its width is the one product in it, and is computed only for a base
and a length that are not refused before. -/
def ofBase? (base : BitVec 8) (length : Nat) : Option (Except SpaceFault Space) := do
  if Radix.ofBase? base.toNat = none then return .error (.base base.toNat)
  if length = 0 then return .error .noDigits
  let bits ← mul? 64 (trailingZeros base) length
  if 128 < bits then return .error (.tooWide base.toNat length bits)
  return Space.ofBase base.toNat length

def size? (s : Space) : Option (Option Word) := do
  let bits ← bits? s
  if 128 ≤ bits then return none
  let size ← shiftLeft? 1#128 bits
  return some size

def maxValue? (s : Space) : Option Word := do
  match ← size? s with
  | some size => sub? size 1#128
  | none => return BitVec.allOnes 128

def reduce? (s : Space) (value : Word) : Option Word := do
  return value &&& (← maxValue? s)

def clockwise? (s : Space) (start stop : Word) : Option Word := reduce? s (stop - start)

def digit? (a : Id) (index : Nat) : Option (Option Nat) := do
  if a.length ≤ index then return none
  let last ← sub? a.length 1
  let behind ← sub? last index
  let shift ← mul? 32 (digitBits a.space) (low32 behind)
  let mask ← sub? a.space.base 1
  let shifted ← shiftRight? a.value shift
  return some (shifted &&& BitVec.ofNat 128 mask).toNat

def sharedPrefix? (a b : Id) : Option Nat := do
  if a.space ≠ b.space then return 0
  let difference := a.value ^^^ b.value
  if difference = 0#128 then return a.length
  let unused ← sub? 128 (← bits? a.space)
  -- What is left of the zeros is never below zero: this difference stops there.
  div? (Id.leadingZeros difference - unused) (digitBits a.space)

def ofDigest? (digest : List UInt8) (s : Space) : Option Word := do
  let unused ← sub? 128 (← bits? s)
  shiftRight? (leadingWord digest) unused

def appendDigits? (s : Space) : Nat → Word → List Nat → Option (Except Fault Word)
  | _, value, [] => some (.ok value)
  | position, value, d :: ds =>
    if s.base ≤ d then some (.error (.digit position d s.base))
    else do
      let shifted ← shiftLeft? value (digitBits s)
      appendDigits? s (position + 1) (shifted ||| BitVec.ofNat 128 d) ds

def ofDigits? (digits : List Nat) (s : Space) : Option (Except Fault Word) :=
  if digits.length ≠ s.length then some (.error (.length s.length digits.length))
  else appendDigits? s 0 0#128 digits

/-- The space of a base and a length is the verdict of the machine, if it comes to one. -/
theorem ofBase_eq_getD (base : BitVec 8) (length : Nat) :
    Space.ofBase base.toNat length =
      (ofBase? base length).getD (.error (.overflow base.toNat length)) := by
  cases hradix : Radix.ofBase? base.toNat with
  | none => simp [ofBase?, Space.ofBase, hradix]
  | some radix =>
    have hbase : base = BitVec.ofNat 8 radix.base := by
      rw [Radix.ofBase?_eq_some.mp hradix, BitVec.ofNat_toNat, BitVec.setWidth_eq]
    have hbits : trailingZeros base = radix.bits := hbase ▸ radix.trailingZeros_base
    by_cases hlength : length = 0
    · simp [ofBase?, Space.ofBase, hradix, hlength]
    have hpos : 0 < length := Nat.pos_of_ne_zero hlength
    simp only [ofBase?, hradix, hlength, hbits, mul?, reduceCtorEq, if_false]
    by_cases hwidth : radix.bits * length < 2 ^ 64
    · by_cases hfits : radix.bits * length ≤ 128
      · simp only [if_pos hwidth, Option.bind_eq_bind, Option.bind_some,
          if_neg (Nat.not_lt.mpr hfits)]
        rfl
      · rw [Space.ofBase_tooWide hradix hpos hwidth hfits]
        simp only [if_pos hwidth, Option.bind_eq_bind, Option.bind_some,
          if_pos (Nat.not_le.mp hfits)]
        rfl
    · rw [Space.ofBase_overflow hradix hpos (Nat.not_lt.mp hwidth), if_neg hwidth]
      rfl

theorem ofBase?_eq {base : BitVec 8} {length : Nat}
    (hwidth : trailingZeros base * length < 2 ^ 64) :
    ofBase? base length = some (Space.ofBase base.toNat length) := by
  have hproduct : mul? 64 (trailingZeros base) length = some (trailingZeros base * length) :=
    if_pos hwidth
  have hverdict : (ofBase? base length).isSome = true := by
    simp only [ofBase?, hproduct, Option.bind_eq_bind, Option.bind_some]
    split
    · rfl
    · split
      · rfl
      · split <;> rfl
  obtain ⟨verdict, h⟩ := Option.isSome_iff_exists.mp hverdict
  rw [ofBase_eq_getD, h, Option.getD_some]

/-- A width that no register can hold has no verdict. -/
example : ofBase? 16#8 (2 ^ 62) = none := by decide

section

variable (s : Space)

theorem digitBits_eq : digitBits s = s.digitBits := s.radix.trailingZeros_base

theorem mul?_digitBits {count : Nat} (hcount : count ≤ s.length) :
    mul? 32 (digitBits s) (low32 count) = some (s.digitBits * count) := by
  have hlow : low32 count = count := Nat.mod_eq_of_lt (by have := s.length_le; omega)
  have hproduct : s.digitBits * count ≤ 128 :=
    Nat.le_trans (Nat.mul_le_mul_left _ hcount) s.bits_le
  rw [digitBits_eq, hlow]
  exact if_pos (by omega)

theorem bits?_eq : bits? s = some s.bits := mul?_digitBits s (Nat.le_refl _)

theorem sub?_bits : sub? 128 s.bits = some s.unusedBits := if_pos s.bits_le

theorem size?_eq : size? s = some s.size? := by
  simp only [size?, bits?_eq, Option.bind_eq_bind, Option.bind_some, Space.size?]
  split
  case isTrue hfull => rw [if_neg (Nat.not_lt.mpr hfull)]; rfl
  case isFalse hlt =>
    rw [shiftLeft?, if_pos (Nat.not_le.mp hlt), Option.bind_some]
    rfl

theorem maxValue?_eq : maxValue? s = some s.maxValue := by
  simp only [maxValue?, size?_eq, Option.bind_eq_bind, Option.bind_some, Space.maxValue]
  cases hsize : s.size? with
  | none => rfl
  | some size =>
    have hpos : 1#128 ≤ size := by
      rw [BitVec.le_def, (s.size?_eq_some_iff.mp hsize).2]
      exact Nat.one_le_two_pow
    exact if_pos hpos

theorem reduce?_eq (value : Word) : reduce? s value = some (s.reduce value) := by
  simp only [reduce?, maxValue?_eq]
  rfl

end

theorem digit?_eq (a : Id) (index : Nat) : digit? a index = some (a.digit? index) := by
  by_cases hindex : index < a.length
  · have hpos : 1 ≤ a.length := by omega
    have hbase : 1 ≤ a.space.base := a.space.one_lt_base.le
    have hlast : index ≤ a.length - 1 := by omega
    have hfewer : a.length - 1 - index + 1 ≤ a.space.length := by
      show _ ≤ a.length
      omega
    have hshift := mul?_digitBits a.space (Nat.le_of_succ_le hfewer)
    have hword : a.space.digitBits * (a.length - 1 - index) < 128 := by
      calc a.space.digitBits * (a.length - 1 - index)
          < a.space.digitBits * (a.length - 1 - index + 1) :=
            Nat.mul_lt_mul_of_pos_left (Nat.lt_succ_self _) a.space.digitBits_pos
        _ ≤ a.space.bits := Nat.mul_le_mul_left _ hfewer
        _ ≤ 128 := a.space.bits_le
    simp only [digit?, if_neg (Nat.not_le.mpr hindex), sub?, if_pos hpos, if_pos hlast, hshift,
      if_pos hbase, shiftRight?, if_pos hword, Option.bind_eq_bind, Option.bind_some, Id.digit?,
      if_pos hindex]
    rfl
  · simp only [digit?, if_pos (Nat.not_lt.mp hindex), Id.digit?, if_neg hindex]
    rfl

theorem sharedPrefix?_eq (a b : Id) : sharedPrefix? a b = some (a.sharedPrefix b) := by
  have hdivisor : b.space.digitBits ≠ 0 := b.space.digitBits_pos.ne'
  unfold sharedPrefix? Id.sharedPrefix
  by_cases hspace : a.space = b.space
  · by_cases hequal : a.value ^^^ b.value = 0#128
    · simp [hspace, hequal]
    · simp [hspace, hequal, bits?_eq, sub?_bits, div?, hdivisor, digitBits_eq]
  · simp [hspace]

theorem ofDigest?_eq (digest : List UInt8) (s : Space) :
    ofDigest? digest s = some (Id.ofDigest digest s).value := by
  simp only [ofDigest?, bits?_eq, sub?_bits, Option.bind_eq_bind, Option.bind_some, shiftRight?,
    if_pos s.unusedBits_lt, Id.ofDigest]

theorem appendDigits?_eq (s : Space) (position : Nat) (value : Word) (ds : List Nat) :
    appendDigits? s position value ds = some (Id.appendDigits s position value ds) := by
  induction ds generalizing position value with
  | nil => rfl
  | cons d ds ih =>
    have hword : digitBits s < 128 := by
      have hle := s.digitBits_le
      rw [digitBits_eq]
      omega
    rw [appendDigits?, Id.appendDigits]
    by_cases hd : d < s.base
    · rw [if_neg (Nat.not_le.mpr hd), if_pos hd, shiftLeft?, if_pos hword, Option.bind_eq_bind,
        Option.bind_some, ih, digitBits_eq]
    · rw [if_pos (Nat.not_lt.mp hd), if_neg hd]

theorem ofDigits?_eq (ds : List Nat) (s : Space) :
    (ofDigits? ds s).map (fun read => read.map (Id.ofWord · s)) = some (Id.ofDigits ds s) := by
  unfold ofDigits? Id.ofDigits
  by_cases hlength : ds.length = s.length
  · simp [hlength, appendDigits?_eq]
  · simp [hlength, Except.map]

/-- Every computation on a ring has a result on a machine, and it is the one of the definition that
runs. -/
structure Faultless (s : Space) : Prop where
  bits : bits? s = some s.bits
  size : size? s = some s.size?
  maxValue : maxValue? s = some s.maxValue
  reduce : ∀ value, reduce? s value = some (s.reduce value)
  clockwise : ∀ start stop, clockwise? s start stop = some (s.clockwise start stop)
  digit : ∀ a : Id, a.space = s → ∀ index, digit? a index = some (a.digit? index)
  sharedPrefix : ∀ a b : Id, a.space = s → sharedPrefix? a b = some (a.sharedPrefix b)
  ofDigest : ∀ digest, ofDigest? digest s = some (Id.ofDigest digest s).value
  ofDigits : ∀ ds, (ofDigits? ds s).map (fun read => read.map (Id.ofWord · s)) =
    some (Id.ofDigits ds s)

theorem faultless (s : Space) : Faultless s where
  bits := bits?_eq s
  size := size?_eq s
  maxValue := maxValue?_eq s
  reduce := reduce?_eq s
  clockwise := fun start stop => reduce?_eq s (stop - start)
  digit := fun a _ index => digit?_eq a index
  sharedPrefix := fun a b _ => sharedPrefix?_eq a b
  ofDigest := fun digest => ofDigest?_eq digest s
  ofDigits := fun ds => ofDigits?_eq ds s

end Machine

/-- A space is accepted just if its base is supported, it has a digit, and its ring has at most `2 ^
128` positions; where the width fits in 64 bits, a machine that multiplies it out comes to the same
verdict. Every accepted space then has from 1 to 128 bits, the logarithm of the number of positions.
That number is given unless it is `2 ^ 128` itself, the largest position is one below it, and a word
is brought onto the ring by the remainder modulo it. No computation on the ring meets a step that a
machine has no result for. -/
theorem Space.accepted_rings_fit_word (base : BitVec 8) (length : Nat) :
    (trailingZeros base * length < 2 ^ 64 →
        Machine.ofBase? base length = some (ofBase base.toNat length)) ∧
      ((∃ s, ofBase base.toNat length = .ok s) ↔
        base.toNat ∈ [2, 4, 8, 16] ∧ 1 ≤ length ∧ base.toNat ^ length ≤ 2 ^ 128) ∧
      ∀ s, ofBase base.toNat length = .ok s →
        let positions := base.toNat ^ length
        s.base = base.toNat ∧ s.length = length ∧
          s.bits = Nat.log 2 positions ∧ 1 ≤ s.bits ∧ s.bits ≤ 128 ∧
          (∀ n, s.size? = some n ↔ positions < 2 ^ 128 ∧ n.toNat = positions) ∧
          (s.size? = none ↔ positions = 2 ^ 128) ∧
          s.maxValue.toNat = positions - 1 ∧
          (∀ value, (s.reduce value).toNat = value.toNat % positions) ∧
          Machine.Faultless s := by
  refine ⟨Machine.ofBase?_eq, exists_ofBase_iff, ?_⟩
  intro s hs positions
  obtain ⟨hbase, rfl⟩ := ofBase_eq_ok.mp hs
  have hpositions : positions = 2 ^ s.bits := by
    rw [← s.base_pow_length, hbase]
  rw [hpositions]
  refine ⟨hbase, rfl, (Nat.log_pow (by decide) _).symm, s.bits_pos, s.bits_le, ?_, ?_,
    s.toNat_maxValue, s.toNat_reduce, Machine.faultless s⟩
  · intro n
    rw [Nat.pow_lt_pow_iff_right (by decide)]
    exact s.size?_eq_some_iff
  · rw [size?_eq_none_iff]
    exact (Nat.pow_right_injective (Nat.le_refl 2)).eq_iff.symm

/-- The full ring: its size is no word, and still no shift leaves the word. -/
theorem Space.full_ring_fits_word :
    trailingZeros 16#8 * 32 < 2 ^ 64 ∧
      Machine.ofBase? 16#8 32 = some (ofBase 16 32) ∧
      ofBase 16 32 = .ok canonical ∧ canonical.size? = none ∧
      canonical.maxValue.toNat = 16 ^ 32 - 1 ∧ Machine.Faultless canonical := by
  have hwidth : trailingZeros 16#8 * 32 < 2 ^ 64 := by decide
  have hcanonical : ofBase 16 32 = .ok canonical := ofBase_eq_ok.mpr ⟨rfl, rfl⟩
  obtain ⟨hmachine, -, haccepted⟩ := accepted_rings_fit_word 16#8 32
  obtain ⟨-, -, -, -, -, -, hsize, hlargest, -, hfaultless⟩ := haccepted canonical hcanonical
  exact ⟨hwidth, hmachine hwidth, hcanonical, hsize.mpr (by decide), hlargest, hfaultless⟩

end Overlay.Keyspace
