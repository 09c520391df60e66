import Mathlib
import Overlay.Keyspace.Digits
import Overlay.Proofs.Keyspace.Prefix

/-!
Digits and positions. The digits of an identifier spell its position in positional notation, and a
list of digits is the list of exactly one identifier: reading shifts the earlier digits up, and in a
space of their number none of them leaves the word.
-/

namespace Overlay.Keyspace

theorem Space.one_lt_base (s : Space) : 1 < s.base := by
  unfold Space.base
  cases s.radix <;> decide

theorem Space.base_pow_length (s : Space) : s.base ^ s.length = 2 ^ s.bits :=
  (Nat.pow_mul 2 s.digitBits s.length).symm

/-- Every digit of a space is the value of one hexadecimal character. -/
theorem Space.base_le (s : Space) : s.base ≤ 16 := by
  unfold Space.base
  cases s.radix <;> decide

/-- The number that digits spell, the first one weighing most. -/
def positional (base : Nat) (digits : List Nat) : Nat := Nat.ofDigits base digits.reverse

theorem positional_append (base : Nat) (ds more : List Nat) :
    positional base (ds ++ more) =
      positional base ds * base ^ more.length + positional base more := by
  rw [positional, List.reverse_append, Nat.ofDigits_append, List.length_reverse, Nat.add_comm,
    Nat.mul_comm]
  rfl

theorem positional_singleton (base d : Nat) : positional base [d] = d := Nat.ofDigits_singleton

theorem positional_cons (base d : Nat) (ds : List Nat) :
    positional base (d :: ds) = d * base ^ ds.length + positional base ds := by
  rw [← List.singleton_append, positional_append, positional_singleton]

theorem positional_lt {base : Nat} (hbase : 1 < base) {ds : List Nat} (hds : ∀ d ∈ ds, d < base) :
    positional base ds < base ^ ds.length := by
  rw [← List.length_reverse]
  exact Nat.ofDigits_lt_base_pow_length hbase fun d hd => hds d (List.mem_reverse.mp hd)

/-- Digits are determined by their number and by what they spell. -/
theorem eq_of_positional_eq {base : Nat} (hbase : 1 < base) {ds es : List Nat}
    (hlength : ds.length = es.length) (hds : ∀ d ∈ ds, d < base) (hes : ∀ d ∈ es, d < base)
    (h : positional base ds = positional base es) : ds = es := by
  apply List.reverse_injective
  apply Nat.ofDigits_inj_of_len_eq hbase
  · rw [List.length_reverse, List.length_reverse, hlength]
  · exact fun d hd => hds d (List.mem_reverse.mp hd)
  · exact fun d hd => hes d (List.mem_reverse.mp hd)
  · exact h

/-- One more digit behind a number of `count` digits. -/
theorem mul_add_lt_pow_succ {base count n d : Nat} (hn : n < base ^ count) (hd : d < base) :
    n * base + d < base ^ (count + 1) := by
  calc n * base + d < (n + 1) * base := by
        rw [Nat.succ_mul]
        omega
    _ ≤ base ^ count * base := Nat.mul_le_mul_right _ hn

/-- A number of few bits is put behind a word that has room for it, and neither touches the
other. -/
theorem toNat_shiftLeft_or {word : Word} {bits d : Nat} (hd : d < 2 ^ bits) (hword : d < 2 ^ 128)
    (hroom : word.toNat * 2 ^ bits < 2 ^ 128) :
    (word <<< bits ||| BitVec.ofNat 128 d).toNat = word.toNat * 2 ^ bits + d := by
  have hshift : word.toNat <<< bits = word.toNat * 2 ^ bits := Nat.shiftLeft_eq _ _
  have hadd : word.toNat <<< bits + d = word.toNat <<< bits ||| d :=
    Nat.shiftLeft_add_eq_or_of_lt hd _
  rw [BitVec.toNat_or, BitVec.toNat_shiftLeft, BitVec.toNat_ofNat, Nat.mod_eq_of_lt hword, hshift,
    Nat.mod_eq_of_lt hroom, ← hshift, hadd]

namespace Id

@[simp]
theorem length_digits (a : Id) : a.digits.length = a.space.length := by
  rw [digits, List.length_map, List.length_range]
  rfl

theorem digits_lt (a : Id) : ∀ d ∈ a.digits, d < a.space.base := by
  intro d hd
  obtain ⟨index, -, rfl⟩ := List.mem_map.mp hd
  exact a.digit_lt index

theorem leading_zero (a : Id) : a.leading 0 = 0 := by
  have hlt := a.leading_lt (Nat.zero_le _)
  rwa [Nat.mul_zero, Nat.pow_zero, Nat.lt_one_iff] at hlt

theorem leading_length (a : Id) : a.leading a.length = a.value.toNat := by
  rw [leading, Nat.sub_self, Nat.mul_zero, Nat.shiftRight_zero]

theorem positional_leading (a : Id) {count : Nat} (hcount : count ≤ a.length) :
    positional a.space.base ((List.range count).map a.digit) = a.leading count := by
  induction count with
  | zero => exact a.leading_zero.symm
  | succ count ih =>
    rw [List.range_succ, List.map_append, positional_append, ih (by omega), List.map_singleton,
      positional_singleton, List.length_singleton, Nat.pow_one, leading_succ a hcount]

/-- The digits of an identifier spell its position. -/
theorem positional_digits (a : Id) : positional a.space.base a.digits = a.value.toNat :=
  (a.positional_leading (Nat.le_refl _)).trans a.leading_length

theorem take_digits (a : Id) {count : Nat} (hcount : count ≤ a.length) :
    a.digits.take count = (List.range count).map a.digit := by
  rw [digits, ← List.map_take, List.take_range, Nat.min_eq_left hcount]

/-- The first digits of identifiers agree just if they agree as numbers, in one base and also where
the identifiers differ in length. -/
theorem take_digits_eq_iff {a b : Id} (hbase : a.space.base = b.space.base) {count : Nat}
    (ha : count ≤ a.length) (hb : count ≤ b.length) :
    a.digits.take count = b.digits.take count ↔ a.leading count = b.leading count := by
  have hleading := positional_leading a ha
  have hleading' := positional_leading b hb
  rw [take_digits a ha, take_digits b hb]
  constructor
  · intro hdigits
    rw [← hleading, ← hleading', hdigits, hbase]
  · intro hequal
    apply eq_of_positional_eq a.space.one_lt_base
    · rw [List.length_map, List.length_map]
    · exact fun d hd => a.digits_lt d (List.mem_of_mem_take (take_digits a ha ▸ hd))
    · rw [hbase]
      exact fun d hd => b.digits_lt d (List.mem_of_mem_take (take_digits b hb ▸ hd))
    · rw [hleading, hequal, hbase, hleading']

/-- One more digit, if there is room for it, is read without loss. -/
theorem toNat_appendDigit {space : Space} {word : Word} {count d : Nat}
    (hword : word.toNat < space.base ^ count) (hcount : count < space.length)
    (hd : d < space.base) :
    (word <<< space.digitBits ||| BitVec.ofNat 128 d).toNat = word.toNat * space.base + d := by
  have hfits : space.base ^ (count + 1) ≤ 2 ^ 128 := by
    calc space.base ^ (count + 1) ≤ space.base ^ space.length :=
          Nat.pow_le_pow_right (Nat.zero_lt_of_lt hd) hcount
      _ = 2 ^ space.bits := space.base_pow_length
      _ ≤ 2 ^ 128 := Nat.pow_le_pow_right (by decide) space.bits_le
  have hshifted : word.toNat * space.base < space.base ^ (count + 1) :=
    Nat.mul_lt_mul_of_pos_right hword (Nat.zero_lt_of_lt hd)
  have hdigit : d < 2 ^ 128 := by
    have hbase := space.base_le
    omega
  exact toNat_shiftLeft_or hd hdigit (Nat.lt_of_lt_of_le hshifted hfits)

/-- Digits of the space are read to the number that they spell behind those already read. -/
theorem exists_appendDigits {space : Space} {position count : Nat} {word : Word} {ds : List Nat}
    (hword : word.toNat < space.base ^ count) (hcount : count + ds.length ≤ space.length)
    (hds : ∀ d ∈ ds, d < space.base) :
    ∃ result, appendDigits space position word ds = .ok result ∧
      result.toNat = word.toNat * space.base ^ ds.length + positional space.base ds := by
  induction ds generalizing position count word with
  | nil => exact ⟨word, rfl, by simp [positional]⟩
  | cons d ds ih =>
    have hd := hds d List.mem_cons_self
    rw [List.length_cons] at hcount
    have hfirst := toNat_appendDigit hword (by omega) hd
    have hlt : (word <<< space.digitBits ||| BitVec.ofNat 128 d).toNat <
        space.base ^ (count + 1) :=
      hfirst ▸ mul_add_lt_pow_succ hword hd
    have hrest : ∀ d ∈ ds, d < space.base := fun d hd => hds d (List.mem_cons_of_mem _ hd)
    obtain ⟨result, hresult, hvalue⟩ := @ih (position + 1) _ _ hlt (by omega) hrest
    refine ⟨result, ?_, ?_⟩
    · rw [appendDigits, if_pos hd, hresult]
    · rw [hvalue, hfirst, positional_cons, List.length_cons, Nat.pow_succ]
      ring

/-- What is read are digits of the space. -/
theorem lt_base_of_appendDigits {space : Space} {position : Nat} {word result : Word}
    {ds : List Nat} (h : appendDigits space position word ds = .ok result) :
    ∀ d ∈ ds, d < space.base := by
  induction ds generalizing position word with
  | nil => simp
  | cons d ds ih =>
    rw [appendDigits] at h
    split at h
    case isTrue hd => exact List.forall_mem_cons.mpr ⟨hd, ih h⟩
    case isFalse => cases h

/-- Reading fails at the first digit that is too large. -/
theorem appendDigits_eq_error {space : Space} {position : Nat} {word : Word} {ds : List Nat}
    {fault : Fault} :
    appendDigits space position word ds = .error fault ↔
      ∃ before d after, ds = before ++ d :: after ∧ (∀ b ∈ before, b < space.base) ∧
        space.base ≤ d ∧ fault = .digit (position + before.length) d space.base := by
  induction ds generalizing position word with
  | nil =>
    constructor
    · intro h
      cases h
    · rintro ⟨before, d, after, hsplit, -⟩
      simp at hsplit
  | cons d ds ih =>
    rw [appendDigits]
    by_cases hd : d < space.base
    · rw [if_pos hd, ih]
      constructor
      · rintro ⟨before, e, after, rfl, hbefore, he, rfl⟩
        refine ⟨d :: before, e, after, rfl, List.forall_mem_cons.mpr ⟨hd, hbefore⟩, he, ?_⟩
        rw [List.length_cons, Nat.add_right_comm, Nat.add_assoc]
      · rintro ⟨before, e, after, hsplit, hbefore, he, rfl⟩
        cases before with
        | nil =>
          cases hsplit
          omega
        | cons b before =>
          cases hsplit
          refine ⟨before, e, after, rfl, (List.forall_mem_cons.mp hbefore).2, he, ?_⟩
          rw [List.length_cons, Nat.add_right_comm, Nat.add_assoc]
    · rw [if_neg hd]
      constructor
      · intro h
        cases h
        exact ⟨[], d, ds, rfl, by simp, Nat.not_lt.mp hd, rfl⟩
      · rintro ⟨before, e, after, hsplit, hbefore, -, rfl⟩
        cases before with
        | nil =>
          cases hsplit
          rfl
        | cons b before =>
          cases hsplit
          exact absurd (hbefore d List.mem_cons_self) hd

/-- A list of digits that is too long, too short or has a digit too large spells no identifier. -/
theorem ofDigits_eq_error {space : Space} {ds : List Nat} {fault : Fault} :
    ofDigits ds space = .error fault ↔
      ds.length ≠ space.length ∧ fault = .length space.length ds.length ∨
        ds.length = space.length ∧
          ∃ before d after, ds = before ++ d :: after ∧ (∀ b ∈ before, b < space.base) ∧
            space.base ≤ d ∧ fault = .digit before.length d space.base := by
  rw [ofDigits]
  by_cases hlength : ds.length = space.length
  · have hread := @appendDigits_eq_error space 0 0#128 ds fault
    simp only [Nat.zero_add] at hread
    rw [if_pos hlength, ← hread]
    cases appendDigits space 0 0#128 ds <;> simp [Except.map, hlength]
  · simp [hlength, eq_comm]

/-- The digits of an identifier read back as the identifier, and no other digits do. -/
theorem ofDigits_eq_ok {space : Space} {ds : List Nat} {a : Id} :
    ofDigits ds space = .ok a ↔ a.space = space ∧ a.digits = ds := by
  -- Digits of the space in the right number spell a position within the ring.
  have hread (hlength : ds.length = space.length) (hds : ∀ d ∈ ds, d < space.base) :
      ∃ word, ofDigits ds space = .ok (ofWord word space) ∧
        (ofWord word space).value.toNat = positional space.base ds := by
    obtain ⟨word, hword, hvalue⟩ :=
      @exists_appendDigits space 0 0 0#128 ds (by simp) (by omega) hds
    have hspelled : word.toNat = positional space.base ds := by
      simpa using hvalue
    have hwithin := positional_lt space.one_lt_base hds
    rw [hlength, space.base_pow_length, ← hspelled] at hwithin
    refine ⟨word, by rw [ofDigits, if_pos hlength, hword]; rfl, ?_⟩
    rw [ofWord, Space.toNat_reduce, Nat.mod_eq_of_lt hwithin, hspelled]
  constructor
  · intro h
    have hlength : ds.length = space.length := by
      by_contra hlength
      rw [ofDigits, if_neg hlength] at h
      cases h
    have hds : ∀ d ∈ ds, d < space.base := by
      rw [ofDigits, if_pos hlength] at h
      cases hword : appendDigits space 0 0#128 ds with
      | ok word => exact lt_base_of_appendDigits hword
      | error fault =>
        rw [hword] at h
        cases h
    obtain ⟨word, hword, hvalue⟩ := hread hlength hds
    cases hword.symm.trans h
    refine ⟨rfl, eq_of_positional_eq space.one_lt_base ?_ (digits_lt _) hds ?_⟩
    · rw [length_digits, hlength]
      rfl
    · exact (positional_digits (ofWord word space)).trans hvalue
  · rintro ⟨rfl, rfl⟩
    obtain ⟨word, hword, hvalue⟩ := hread a.length_digits a.digits_lt
    rw [positional_digits] at hvalue
    rw [hword, eq_of_value_space (BitVec.eq_of_toNat_eq hvalue) rfl]

end Id

end Overlay.Keyspace
