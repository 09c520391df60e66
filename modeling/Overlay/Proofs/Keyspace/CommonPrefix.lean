import Mathlib
import Overlay.Proofs.Keyspace.Digits

/-!
Shared prefixes digit by digit. The number of shared digits, found from the highest bit in which two
words differ, is the length of the longest list of digits with which both identifiers begin. Like
any length of common prefixes it is an ultrametric in reverse: of the three numbers for three
identifiers the two smaller ones are equal.
-/

namespace Overlay.Keyspace.Id

variable {a b c : Id}

theorem sharedPrefix_le_length (a b : Id) : a.sharedPrefix b ≤ a.length := by
  by_cases hab : a = b
  · rw [← hab, sharedPrefix_self]
  · by_cases hspace : a.space = b.space
    · exact (sharedPrefix_lt hspace hab).le
    · rw [sharedPrefix, if_neg hspace]
      exact Nat.zero_le _

theorem sharedPrefix_eq_length_iff (hspace : a.space = b.space) :
    a.sharedPrefix b = a.length ↔ a = b := by
  constructor
  · intro hall
    by_contra hne
    exact absurd hall (sharedPrefix_lt hspace hne).ne
  · rintro rfl
    exact sharedPrefix_self a

/-- The lengths of the lists of digits with which both identifiers begin. -/
def commonLengths (a b : Id) : Set Nat :=
  {count | ∃ ds : List Nat, ds <+: a.digits ∧ ds <+: b.digits ∧ ds.length = count}

theorem sharedPrefix_isGreatest (hspace : a.space = b.space) :
    IsGreatest (commonLengths a b) (a.sharedPrefix b) := by
  have hbase : a.space.base = b.space.base := congrArg Space.base hspace
  have hlengths : a.length = b.length := congrArg Space.length hspace
  constructor
  · have hshared := sharedPrefix_le_length a b
    have hsame := (take_digits_eq_iff hbase hshared (hlengths ▸ hshared)).mpr
      ((le_sharedPrefix_iff hspace hshared).mp (Nat.le_refl _))
    refine ⟨a.digits.take (a.sharedPrefix b), List.take_prefix _ _, ?_, ?_⟩
    · rw [hsame]
      exact List.take_prefix _ _
    · apply List.length_take_of_le
      rwa [length_digits]
  · rintro _ ⟨ds, ha, hb, rfl⟩
    have hlength : ds.length ≤ a.length := by
      have hle := ha.length_le
      rwa [length_digits] at hle
    rw [le_sharedPrefix_iff hspace hlength,
      ← take_digits_eq_iff hbase hlength (hlengths ▸ hlength)]
    exact (List.prefix_iff_eq_take.mp ha).symm.trans (List.prefix_iff_eq_take.mp hb)

theorem sharedPrefix_comm (hspace : a.space = b.space) : a.sharedPrefix b = b.sharedPrefix a := by
  have hswap : commonLengths b a = commonLengths a b := by
    ext count
    exact exists_congr fun ds => and_left_comm
  have hba := sharedPrefix_isGreatest hspace.symm
  rw [hswap] at hba
  exact (sharedPrefix_isGreatest hspace).unique hba

/-- What `a` shares with `b` and `b` with `c`, `a` shares with `c`. -/
theorem min_sharedPrefix_le (hab : a.space = b.space) (hbc : b.space = c.space) :
    min (a.sharedPrefix b) (b.sharedPrefix c) ≤ a.sharedPrefix c := by
  have ha : min (a.sharedPrefix b) (b.sharedPrefix c) ≤ a.length :=
    (Nat.min_le_left _ _).trans (sharedPrefix_le_length a b)
  have hb : min (a.sharedPrefix b) (b.sharedPrefix c) ≤ b.length :=
    (Nat.min_le_right _ _).trans (sharedPrefix_le_length b c)
  rw [le_sharedPrefix_iff (hab.trans hbc) ha]
  calc a.leading _ = b.leading _ := (le_sharedPrefix_iff hab ha).mp (Nat.min_le_left _ _)
    _ = c.leading _ := (le_sharedPrefix_iff hbc hb).mp (Nat.min_le_right _ _)

/-- Where `b` shares more with one of the others than with the other one, the others part where the
second one leaves `b`. -/
theorem sharedPrefix_eq_min_of_ne (hab : a.space = b.space) (hbc : b.space = c.space)
    (hne : a.sharedPrefix b ≠ b.sharedPrefix c) :
    a.sharedPrefix c = min (a.sharedPrefix b) (b.sharedPrefix c) := by
  have hac := min_sharedPrefix_le hab hbc
  have hab' := min_sharedPrefix_le (hab.trans hbc) hbc.symm
  have hbc' := min_sharedPrefix_le hab.symm (hab.trans hbc)
  rw [sharedPrefix_comm hbc.symm] at hab'
  rw [sharedPrefix_comm hab.symm] at hbc'
  omega

/-- Found from a single word, the number of shared digits of two identifiers is the length of the
longest list of digits with which both begin. It is that of all digits only for equal identifiers,
it does not depend on their order, and two identifiers share at least as many digits as both share
with a third one, and no more if the third one shares more with one of them than with the other. -/
theorem sharedPrefix_is_longest_common {space : Space} {a b c : Id} (ha : a.space = space)
    (hb : b.space = space) (hc : c.space = space) :
    IsGreatest (commonLengths a b) (a.sharedPrefix b) ∧
      (a.sharedPrefix b = space.length ↔ a = b) ∧
      a.sharedPrefix b = b.sharedPrefix a ∧
      min (a.sharedPrefix b) (b.sharedPrefix c) ≤ a.sharedPrefix c ∧
      (a.sharedPrefix b ≠ b.sharedPrefix c →
        a.sharedPrefix c = min (a.sharedPrefix b) (b.sharedPrefix c)) := by
  have hab : a.space = b.space := ha.trans hb.symm
  have hbc : b.space = c.space := hb.trans hc.symm
  have hall := sharedPrefix_eq_length_iff hab
  rw [length, ha] at hall
  exact ⟨sharedPrefix_isGreatest hab, hall, sharedPrefix_comm hab, min_sharedPrefix_le hab hbc,
    sharedPrefix_eq_min_of_ne hab hbc⟩

/-- Forty-two octal digits, two bits short of a word. Identifiers that differ within a digit share
the digits before it, whichever of its bits it is. -/
theorem octal_prefixes :
    let space : Space := { radix := .octal, length := 42 }
    let a : Id := ofWord 0#128 space
    let b : Id := ofWord (2#128 <<< 60) space
    let c : Id := ofWord (4#128 <<< 120) space
    a.space = space ∧ b.space = space ∧ c.space = space ∧ IsGreatest (commonLengths a b) 21 ∧
      b.sharedPrefix c = 1 ∧ a.sharedPrefix c = 1 := by
  intro space a b c
  obtain ⟨hlongest, -, -, -, hpart⟩ :=
    @sharedPrefix_is_longest_common space a b c rfl rfl rfl
  have hab : a.sharedPrefix b = 21 := by decide +kernel
  have hbc : b.sharedPrefix c = 1 := by decide +kernel
  rw [hab] at hlongest
  rw [hab, hbc] at hpart
  exact ⟨rfl, rfl, rfl, hlongest, hbc, hpart (by decide)⟩

end Overlay.Keyspace.Id
