import Mathlib
import Overlay.Keyspace.Hashed
import Overlay.Proofs.Keyspace.Digits

/-!
Identifiers from digests. The leading bytes of a digest spell one number, and an identifier keeps as
many of its leading bits as the space has. So what a narrower space keeps is the beginning of what a
wider one does, whatever function computes the digests.
-/

namespace Overlay.Keyspace

/-- Bytes are read, like digits of base 256, to the number that they spell behind those already
read. -/
theorem toNat_foldl_bytes {bytes : List UInt8} {word : Word} {count : Nat}
    (hword : word.toNat < 256 ^ count) (hcount : count + bytes.length ≤ 16) :
    (bytes.foldl (fun (w : Word) b => w <<< 8 ||| BitVec.ofNat 128 b.toNat) word).toNat =
      word.toNat * 256 ^ bytes.length + positional 256 (bytes.map UInt8.toNat) := by
  induction bytes generalizing word count with
  | nil => simp [positional]
  | cons b bytes ih =>
    rw [List.length_cons] at hcount
    have hb : b.toNat < 2 ^ 8 := b.toNat_lt
    have hwhole : b.toNat < 2 ^ 128 := Nat.lt_trans hb (by decide)
    have hshifted : word.toNat * 2 ^ 8 < 256 ^ (count + 1) := by
      rw [Nat.pow_succ]
      exact Nat.mul_lt_mul_of_pos_right hword (by decide)
    have hroom : 256 ^ (count + 1) ≤ 2 ^ 128 := by
      calc 256 ^ (count + 1) ≤ 256 ^ 16 := Nat.pow_le_pow_right (by decide) (by omega)
        _ = 2 ^ 128 := by norm_num
    have hfirst : (word <<< 8 ||| BitVec.ofNat 128 b.toNat).toNat = word.toNat * 256 + b.toNat :=
      toNat_shiftLeft_or hb hwhole (Nat.lt_of_lt_of_le hshifted hroom)
    have hlt : (word <<< 8 ||| BitVec.ofNat 128 b.toNat).toNat < 256 ^ (count + 1) :=
      hfirst ▸ mul_add_lt_pow_succ hword hb
    rw [List.foldl_cons, ih hlt (by omega), hfirst, List.map_cons, positional_cons,
      List.length_map, List.length_cons, Nat.pow_succ]
    ring

theorem toNat_leadingWord (digest : List UInt8) :
    (leadingWord digest).toNat = positional 256 ((digest.take 16).map UInt8.toNat) := by
  have hlength : (digest.take 16).length ≤ 16 := List.length_take_le _ _
  have hread := @toNat_foldl_bytes (digest.take 16) 0#128 0 (by decide) (by omega)
  rw [leadingWord, hread, BitVec.toNat_zero, Nat.zero_mul, Nat.zero_add]

theorem Space.unusedBits_lt (s : Space) : s.unusedBits < 128 := by
  have hpos := s.bits_pos
  rw [unusedBits]
  omega

theorem Space.radix_eq_of_base {s t : Space} (hbase : s.base = t.base) : s.radix = t.radix :=
  Radix.base_injective hbase

/-- In a common base the narrower ring has fewer digits. -/
theorem Space.length_le_of_bits {s t : Space} (hbase : s.base = t.base) (hbits : s.bits ≤ t.bits) :
    s.length ≤ t.length := by
  rw [bits, bits, digitBits, radix_eq_of_base hbase] at hbits
  exact Nat.le_of_mul_le_mul_left hbits t.digitBits_pos

namespace Id

theorem value_le_maxValue (a : Id) : a.value ≤ a.space.maxValue := by
  rw [BitVec.le_def, Space.toNat_maxValue]
  exact Nat.le_sub_one_of_lt a.value_lt

/-- Digits follow bits: what is cut off of a position to get another one of the same base are whole
digits. -/
theorem digits_prefix_of_value {a b : Id} (hbits : a.space.bits ≤ b.space.bits)
    (hbase : a.space.base = b.space.base)
    (hvalue : a.value = b.value >>> (b.space.bits - a.space.bits)) : a.digits <+: b.digits := by
  have hdigitBits : a.space.digitBits = b.space.digitBits :=
    congrArg Radix.bits (Space.radix_eq_of_base hbase)
  have hcut : b.space.bits - a.space.bits = b.space.digitBits * (b.length - a.length) := by
    rw [Space.bits, Space.bits, hdigitBits, Nat.mul_sub]
    rfl
  have hleading : a.leading a.length = b.leading a.length := by
    rw [leading_length, hvalue, BitVec.toNat_ushiftRight, hcut, leading]
  have hshorter : a.length ≤ b.length := Space.length_le_of_bits hbase hbits
  have htake := (take_digits_eq_iff hbase (Nat.le_refl _) hshorter).mpr hleading
  have hwhole : a.digits.take a.length = a.digits := List.take_of_length_le a.length_digits.le
  rw [← hwhole, htake]
  exact List.take_prefix _ _

theorem text_prefix_of_digits {a b : Id} (h : a.digits <+: b.digits) :
    a.text.toList <+: b.text.toList := by
  rw [text, text, String.toList_ofList, String.toList_ofList]
  exact h.map Nat.digitChar

theorem toNat_value_ofDigest (digest : List UInt8) (s : Space) :
    (ofDigest digest s).value.toNat =
      positional 256 ((digest.take 16).map UInt8.toNat) / 2 ^ s.unusedBits := by
  rw [ofDigest, BitVec.toNat_ushiftRight, Nat.shiftRight_eq_div_pow, toNat_leadingWord]

/-- What a narrower space drops are the bits that a wider one drops and those by which it is
narrower. -/
theorem ofDigest_value_eq (digest : List UInt8) {s t : Space} (hbits : s.bits ≤ t.bits) :
    (ofDigest digest s).value = (ofDigest digest t).value >>> (t.bits - s.bits) := by
  have hdropped : s.unusedBits = t.unusedBits + (t.bits - s.bits) := by
    have hfits := t.bits_le
    rw [Space.unusedBits, Space.unusedBits]
    omega
  calc leadingWord digest >>> s.unusedBits
      = leadingWord digest >>> (t.unusedBits + (t.bits - s.bits)) := by rw [← hdropped]
    _ = leadingWord digest >>> t.unusedBits >>> (t.bits - s.bits) := BitVec.shiftRight_add _ _ _

/-- How the identifiers that one source gives in the various spaces lie within one another: a
narrower space has the leading bits, and with the same base the leading digits, of what a wider one
has. -/
structure Nested (derive : Space → Id) : Prop where
  space_eq : ∀ s, (derive s).space = s
  value_le : ∀ s, (derive s).value ≤ s.maxValue
  value_eq : ∀ s t : Space, s.bits ≤ t.bits →
    (derive s).value = (derive t).value >>> (t.bits - s.bits)
  digits_prefix : ∀ s t : Space, s.bits ≤ t.bits → s.base = t.base →
    (derive s).digits <+: (derive t).digits
  text_prefix : ∀ s t : Space, s.bits ≤ t.bits → s.base = t.base →
    (derive s).text.toList <+: (derive t).text.toList

theorem nested_ofDigest (digest : List UInt8) : Nested (ofDigest digest) := by
  have hvalue {s t : Space} (hbits : s.bits ≤ t.bits) := ofDigest_value_eq digest hbits
  have hdigits (s t : Space) (hbits : s.bits ≤ t.bits) (hbase : s.base = t.base) :
      (ofDigest digest s).digits <+: (ofDigest digest t).digits :=
    digits_prefix_of_value hbits hbase (hvalue hbits)
  exact {
    space_eq := fun _ => rfl
    value_le := fun s => (ofDigest digest s).value_le_maxValue
    value_eq := fun s t => hvalue
    digits_prefix := hdigits
    text_prefix := fun s t hbits hbase => text_prefix_of_digits (hdigits s t hbits hbase) }

/-- An identifier keeps the leading bits of the digest: of the number that the first sixteen bytes
spell, as many bits as the space has, and the shift that drops the others is within the word. So the
identifiers of the same bytes in all spaces are nested. Nothing here depends on how the digest is
computed. -/
theorem hash_keeps_leading_bits :
    (∀ s : Space, s.bits ≤ 128 ∧ s.unusedBits < 128) ∧
      (∀ digest s, (ofDigest digest s).value.toNat =
        positional 256 ((digest.take 16).map UInt8.toNat) / 2 ^ s.unusedBits) ∧
      (∀ digest : List UInt8 → List UInt8, ∀ bytes, Nested (ofDigest (digest bytes))) ∧
      ∀ bytes, Nested (hash bytes) :=
  ⟨fun s => ⟨s.bits_le, s.unusedBits_lt⟩, toNat_value_ofDigest,
    fun digest bytes => nested_ofDigest (digest bytes),
    fun bytes => nested_ofDigest (Digest.Blake3.digest bytes)⟩

/-- The same nine leading bits are other digits in another base. -/
example :
    let digest : List UInt8 := List.replicate 32 0xab
    (ofDigest digest { radix := .octal, length := 3 }).text = "527" ∧
      (ofDigest digest { radix := .binary, length := 9 }).text = "101010111" := by
  decide +kernel

end Id

end Overlay.Keyspace
