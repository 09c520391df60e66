import Mathlib
import Overlay.Keyspace.Hashed
import Overlay.Proofs.Keyspace.Text

/-!
Digits and position are two views of one identifier. A list of digits is accepted if it has the
length of the space and every digit is below the base, and it is then the list of digits of the
identifier at the position that it spells. The word in which the digits are collected has room for
all of them, on the full ring as well, so it need not be reduced. A word that is no position is
brought onto the ring by its remainder.
-/

namespace Overlay.Keyspace

/-- The number that digits spell as a sum, in which the last digit counts once and every other one
the base times as often as the one behind it. -/
theorem positional_eq_sum (base : Nat) (ds : List Nat) :
    positional base ds = ∑ i : Fin ds.length, ds[i] * base ^ (ds.length - 1 - i) := by
  induction ds with
  | nil => rfl
  | cons d ds ih =>
    have hweight (i : Fin ds.length) : ds.length - 1 - i.val = ds.length + 1 - 1 - i.succ.val := by
      rw [Fin.val_succ]
      omega
    rw [positional_cons, ih]
    refine Eq.trans ?_ (Fin.sum_univ_succ _).symm
    refine congrArg₂ (· + ·) rfl (Finset.sum_congr rfl fun i _ => ?_)
    rw [hweight i]
    rfl

namespace Id

/-- Digits spell an identifier if there are as many as the space has and the base has them all. -/
theorem exists_ofDigits_iff {space : Space} {ds : List Nat} :
    (∃ a, ofDigits ds space = .ok a) ↔
      ds.length = space.length ∧ ∀ d ∈ ds, d < space.base := by
  constructor
  · rintro ⟨a, ha⟩
    obtain ⟨rfl, rfl⟩ := ofDigits_eq_ok.mp ha
    exact ⟨a.length_digits, a.digits_lt⟩
  · rintro ⟨hlength, hds⟩
    cases hread : ofDigits ds space with
    | ok a => exact ⟨a, rfl⟩
    | error fault =>
      rcases ofDigits_eq_error.mp hread with ⟨hwrong, -⟩ | ⟨-, before, d, after, rfl, -, hlarge, -⟩
      · exact absurd hlength hwrong
      · exact absurd (hds d (by simp)) (Nat.not_lt.mpr hlarge)

theorem toNat_value_of_ofDigits {space : Space} {ds : List Nat} {a : Id}
    (h : ofDigits ds space = .ok a) : a.value.toNat = positional space.base ds := by
  obtain ⟨rfl, rfl⟩ := ofDigits_eq_ok.mp h
  exact a.positional_digits.symm

/-- The word that the digits are read into is the position itself: nothing is cut off. -/
theorem appendDigits_of_ofDigits {space : Space} {ds : List Nat} {a : Id}
    (h : ofDigits ds space = .ok a) : appendDigits space 0 0#128 ds = .ok a.value := by
  obtain ⟨hlength, hds⟩ := exists_ofDigits_iff.mp ⟨a, h⟩
  obtain ⟨word, hword, hvalue⟩ :=
    @exists_appendDigits space 0 0 0#128 ds (by simp) (by omega) hds
  have hspelled : word.toNat = a.value.toNat := by
    rw [hvalue, toNat_value_of_ofDigits h]
    simp
  rw [hword, BitVec.eq_of_toNat_eq hspelled]

theorem getElem?_digits (a : Id) (index : Nat) : a.digits[index]? = a.digit? index := by
  rw [digits, List.getElem?_map]
  by_cases hindex : index < a.length
  · rw [digit?_of_lt hindex, List.getElem?_range hindex, Option.map_some]
  · rw [digit?, if_neg hindex, List.getElem?_eq_none (by simpa using hindex), Option.map_none]

theorem digit?_eq_none_iff (a : Id) (index : Nat) :
    a.digit? index = none ↔ a.space.length ≤ index := by
  rw [← getElem?_digits, List.getElem?_eq_none_iff, length_digits]

theorem toNat_ofWord (word : Word) (space : Space) :
    (ofWord word space).value.toNat = word.toNat % space.base ^ space.length := by
  rw [ofWord, Space.toNat_reduce, Space.base_pow_length]

/-- A space has one identifier for every position. -/
theorem card_of_space (s : Space) : Nat.card {a : Id // a.space = s} = s.size := by
  have hlt (a : {a : Id // a.space = s}) : a.1.value.toNat < s.size := by
    have hlt := a.1.value_lt
    rwa [a.2] at hlt
  have hread (n : Fin s.size) : (ofWord (BitVec.ofNat 128 n) s).value.toNat = n := by
    have hword : n.val < 2 ^ 128 :=
      Nat.lt_of_lt_of_le n.isLt (Nat.pow_le_pow_right (by decide) s.bits_le)
    rw [toNat_ofWord, BitVec.toNat_ofNat, Nat.mod_eq_of_lt hword, Space.base_pow_length]
    exact Nat.mod_eq_of_lt n.isLt
  let position : {a : Id // a.space = s} ≃ Fin s.size :=
    { toFun := fun a => ⟨a.1.value.toNat, hlt a⟩
      invFun := fun n => ⟨ofWord (BitVec.ofNat 128 n) s, rfl⟩
      left_inv := fun a => Subtype.ext
        (eq_of_value_space (BitVec.eq_of_toNat_eq (hread ⟨a.1.value.toNat, hlt a⟩)) a.2.symm)
      right_inv := fun n => Fin.ext (hread n) }
  rw [Nat.card_congr position, Nat.card_fin]

/-- The ways in which an identifier of a space comes about. -/
inductive Built (space : Space) : Id → Prop where
  | text {text : String} {a : Id} (h : parse text space = .ok a) : Built space a
  | digits {ds : List Nat} {a : Id} (h : ofDigits ds space = .ok a) : Built space a
  | word (word : Word) : Built space (ofWord word space)
  | hash (bytes : List UInt8) : Built space (hash bytes space)

theorem Built.space_eq {space : Space} {a : Id} (h : Built space a) : a.space = space := by
  cases h with
  | text h => exact (parse_eq_ok.mp h).1
  | digits h => exact (ofDigits_eq_ok.mp h).1
  | word word => rfl
  | hash bytes => rfl

/-- However an identifier comes about, its position lies on the ring. -/
theorem Built.value_lt {space : Space} {a : Id} (h : Built space a) :
    a.value.toNat < space.base ^ space.length := by
  have hlt := a.value_lt
  rwa [h.space_eq, ← space.base_pow_length] at hlt

/-- A list of digits is accepted just if the space has as many and the base has each of them. The
identifier then has just these digits, and its position is the sum that they spell, collected in a
word without loss and without reduction. Every identifier is read back from its digits, of which
there are as many as the space has. A word stands for the identifier at its remainder, and a text
for the one of the digits in it. So the position of every identifier lies on the ring, whether it
comes from a text, from digits, from a word or from hashed bytes. -/
theorem digits_spell_position (space : Space) :
    (∀ ds, (∃ a, ofDigits ds space = .ok a) ↔
        ds.length = space.length ∧ ∀ d ∈ ds, d < space.base) ∧
      (∀ ds a, ofDigits ds space = .ok a →
        a.space = space ∧ a.digits = ds ∧ appendDigits space 0 0#128 ds = .ok a.value ∧
          a.value.toNat = ∑ i : Fin ds.length, ds[i] * space.base ^ (space.length - 1 - i)) ∧
      (∀ a : Id, a.space = space → ofDigits a.digits space = .ok a) ∧
      (∀ a : Id, a.space = space → ∀ index, a.digits[index]? = a.digit? index ∧
        (a.digit? index = none ↔ space.length ≤ index)) ∧
      (∀ word, (ofWord word space).space = space ∧
        (ofWord word space).value.toNat = word.toNat % space.base ^ space.length) ∧
      (∀ text a, parse text space = .ok a → List.Forall₂ Denotes text.toList a.digits) ∧
      ∀ a, Built space a → a.space = space ∧ a.value.toNat < space.base ^ space.length := by
  refine ⟨fun ds => exists_ofDigits_iff, ?_, fun a ha => ofDigits_eq_ok.mpr ⟨ha, rfl⟩, ?_,
    fun word => ⟨rfl, toNat_ofWord word space⟩,
    fun text a h => text_eq_toLower_iff.mp (parse_eq_ok.mp h).2,
    fun a h => ⟨h.space_eq, h.value_lt⟩⟩
  · intro ds a h
    obtain ⟨hspace, hdigits⟩ := ofDigits_eq_ok.mp h
    have hlength : ds.length = space.length := (exists_ofDigits_iff.mp ⟨a, h⟩).1
    refine ⟨hspace, hdigits, appendDigits_of_ofDigits h, ?_⟩
    rw [toNat_value_of_ofDigits h, positional_eq_sum, ← hlength]
  · rintro a rfl index
    exact ⟨a.getElem?_digits index, a.digit?_eq_none_iff index⟩

/-- On the full ring the largest digits fill the word. -/
example :
    (ofDigits (List.replicate 32 15) .canonical).map (·.value) = .ok (BitVec.allOnes 128) := by
  decide +kernel

end Id

end Overlay.Keyspace
