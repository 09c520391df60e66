import Mathlib
import Overlay.Number.Natural
import Overlay.Number.Decimal

/-!
Which texts are numbers. A natural is a row of digits behind an optional plus sign, below a bound. A
decimal has an optional sign, digits with at most one point among or around them and an optional
exponent, or it is one of the names of infinity and of no number. Both readers accept just the texts
of these grammars, each of which stands for one number, and name the fault of every other text.
-/

namespace Overlay.Number

def digitValue (c : Char) : Nat := c.toNat - '0'.toNat

/-- The number that digits spell, the first one weighing most. -/
def spelled (digits : List Char) : Nat := Nat.ofDigits 10 (digits.reverse.map digitValue)

def AllDigits (cs : List Char) : Prop := ∀ c ∈ cs, c.isDigit = true

theorem spelled_append_singleton (digits : List Char) (c : Char) :
    spelled (digits ++ [c]) = 10 * spelled digits + digitValue c := by
  rw [spelled, List.reverse_append, List.reverse_singleton, List.singleton_append, List.map_cons,
    Nat.ofDigits_cons, Nat.add_comm]
  rfl

theorem spelled_le_append (digits more : List Char) :
    spelled digits ≤ spelled (digits ++ more) := by
  induction more using List.reverseRecOn with
  | nil => rw [List.append_nil]
  | append_singleton more c ih =>
    rw [← List.append_assoc, spelled_append_singleton]
    omega

def Numeral (limit : Nat) (text : String) (n : Nat) : Prop :=
  ∃ digits, digits ≠ [] ∧ AllDigits digits ∧
    (text.toList = digits ∨ text.toList = '+' :: digits) ∧ n = spelled digits ∧ n < limit

/-- Digits are read behind others just if the number that all of them spell is below the bound. -/
theorem appendDecimals_eq_ok {limit n : Nat} {read digits : List Char}
    (hread : spelled read < limit) :
    appendDecimals limit (spelled read) digits = .ok n ↔
      AllDigits digits ∧ n = spelled (read ++ digits) ∧ n < limit := by
  induction digits generalizing read with
  | nil =>
    rw [appendDecimals, List.append_nil, Except.ok.injEq]
    constructor
    · rintro rfl
      exact ⟨by simp [AllDigits], rfl, hread⟩
    · rintro ⟨-, rfl, -⟩
      rfl
  | cons c digits ih =>
    have hnext : 10 * spelled read + (c.toNat - '0'.toNat) = spelled (read ++ [c]) :=
      (spelled_append_singleton read c).symm
    have hall : AllDigits (c :: digits) ↔ c.isDigit = true ∧ AllDigits digits :=
      List.forall_mem_cons
    have hrow : read ++ c :: digits = read ++ [c] ++ digits := (List.append_cons read c digits)
    rw [appendDecimals, hnext, hall, hrow]
    by_cases hc : c.isDigit = true
    · by_cases hlt : spelled (read ++ [c]) < limit
      · simp only [hc, hlt, if_true, ih hlt, true_and]
      · have hlarge := spelled_le_append (read ++ [c]) digits
        simp only [hc, hlt, if_true, if_false, reduceCtorEq, false_iff]
        rintro ⟨-, rfl, hn⟩
        omega
    · simp [hc]

/-- Why a text is no natural below a bound. Behind an optional sign it is read up to the first
character that is no digit or makes the number too large; a lone sign is no digit. -/
inductive NoNumeral (limit : Nat) (text : String) : NaturalFault → Prop where
  | empty (h : text = "") : NoNumeral limit text .empty
  | stuck {before after : List Char} {c : Char}
      (hsplit : withoutPlus text.toList = before ++ c :: after) (hbefore : AllDigits before)
      (hsmall : spelled before < limit)
      (hc : ¬(c.isDigit = true ∧ spelled (before ++ [c]) < limit)) :
      NoNumeral limit text (if c.isDigit then .tooLarge else .digit)

theorem withoutPlus_cases (cs : List Char) :
    cs = withoutPlus cs ∨ cs = '+' :: withoutPlus cs ∧ withoutPlus cs ≠ [] := by
  unfold withoutPlus
  split <;> simp

theorem withoutPlus_digits {digits : List Char} (h : AllDigits digits) :
    withoutPlus digits = digits := by
  unfold withoutPlus
  split
  case h_1 c cs =>
    have hplus := h '+' List.mem_cons_self
    simp at hplus
  case h_2 => rfl

theorem readNatural_eq_ok {limit n : Nat} {text : String} (hlimit : 0 < limit) :
    readNatural limit text = .ok n ↔ Numeral limit text n := by
  have hread (digits : List Char) : appendDecimals limit 0 digits = .ok n ↔
      AllDigits digits ∧ n = spelled digits ∧ n < limit :=
    @appendDecimals_eq_ok limit n [] digits hlimit
  simp only [readNatural, String.isEmpty_iff, ← String.toList_eq_nil_iff]
  constructor
  · intro h
    split at h
    case isTrue => cases h
    case isFalse hempty =>
      obtain ⟨hdigits, hn, hlt⟩ := (hread _).mp h
      rcases withoutPlus_cases text.toList with heq | ⟨heq, hne⟩
      · exact ⟨_, heq ▸ hempty, hdigits, .inl heq, hn, hlt⟩
      · exact ⟨_, hne, hdigits, .inr heq, hn, hlt⟩
  · rintro ⟨digits, hne, hdigits, htext, hn, hlt⟩
    have hwithout : withoutPlus text.toList = digits := by
      rcases htext with htext | htext <;> rw [htext]
      · exact withoutPlus_digits hdigits
      · obtain ⟨d, ds, rfl⟩ := List.exists_cons_of_ne_nil hne
        rfl
    have hempty : text.toList ≠ [] := by
      rcases htext with htext | htext <;> simp [htext, hne]
    rw [if_neg hempty, hwithout]
    exact (hread digits).mpr ⟨hdigits, hn, hlt⟩

namespace Binary64

/-- The sign in front of a number: whether there is a minus. -/
inductive Sign : List Char → Bool → Prop where
  | none : Sign [] false
  | plus : Sign ['+'] false
  | minus : Sign ['-'] true

inductive Exponent : List Char → Int → Prop where
  | none : Exponent [] 0
  | digits {e : Char} {sign digits : List Char} {negative : Bool} (he : e = 'e' ∨ e = 'E')
      (hsign : Sign sign negative) (hne : digits ≠ []) (hdigits : AllDigits digits) :
      Exponent (e :: (sign ++ digits))
        (if negative then -(spelled digits : Int) else spelled digits)

/-- Digits around or on one side of a point, or without one, then an exponent. -/
inductive Decimal : List Char → Binary64 → Prop where
  | intro {whole point fraction tail : List Char} {exponent : Int} (hwhole : AllDigits whole)
      (hpoint : point = ['.'] ∨ point = [] ∧ fraction = []) (hfraction : AllDigits fraction)
      (hne : ¬(whole = [] ∧ fraction = [])) (hexponent : Exponent tail exponent) :
      Decimal (whole ++ (point ++ (fraction ++ tail)))
        (ofDecimal (spelled (whole ++ fraction)) (exponent - fraction.length))

/-- A number without sign: infinity and no number by their names, in any case, or a decimal. -/
inductive Magnitude : List Char → Binary64 → Prop where
  | infinity {name : List Char} (hname : name.map Char.toLower = "inf".toList ∨
      name.map Char.toLower = "infinity".toList) : Magnitude name infinity
  | notANumber {name : List Char} (hname : name.map Char.toLower = "nan".toList) :
      Magnitude name notANumber
  | decimal {cs : List Char} {x : Binary64} (h : Decimal cs x) : Magnitude cs x

/-- The text of a binary64 number. -/
def Spells (text : String) (x : Binary64) : Prop :=
  ∃ sign negative magnitude y, text.toList = sign ++ magnitude ∧ Sign sign negative ∧
    Magnitude magnitude y ∧ x = if negative then y.neg else y

theorem digitsValue_eq_spelled (digits : List Char) : digitsValue digits = spelled digits := by
  rw [digitsValue, spelled, Nat.ofDigits_eq_foldr, List.foldr_map, List.foldl_eq_foldr_reverse]
  simp only [digitValue, Nat.cast_id, Nat.add_comm]

/-- A row of characters that no digit opens. -/
def NoDigitFirst (cs : List Char) : Prop := ∀ c ∈ cs.head?, c.isDigit = false

theorem span_digits {digits rest : List Char} (hdigits : AllDigits digits)
    (hrest : NoDigitFirst rest) :
    (digits ++ rest).span Char.isDigit = (digits, rest) := by
  rw [List.span_eq_takeWhile_dropWhile, List.takeWhile_append_of_pos hdigits,
    List.dropWhile_append_of_pos hdigits]
  cases rest with
  | nil => simp
  | cons c rest => simp [hrest c rfl]

theorem span_spec (cs : List Char) :
    AllDigits (cs.span Char.isDigit).1 ∧
      cs = (cs.span Char.isDigit).1 ++ (cs.span Char.isDigit).2 := by
  rw [List.span_eq_takeWhile_dropWhile]
  exact ⟨fun c hc => List.mem_takeWhile_imp hc, List.takeWhile_append_dropWhile.symm⟩

theorem splitSign_append {sign rest : List Char} {negative : Bool} (hsign : Sign sign negative)
    (hplus : rest.head? ≠ some '+') (hminus : rest.head? ≠ some '-') :
    splitSign (sign ++ rest) = (negative, rest) := by
  cases hsign with
  | none =>
    rw [List.nil_append]
    unfold splitSign
    split <;> simp_all
  | plus => rfl
  | minus => rfl

theorem splitSign_spec (cs : List Char) :
    ∃ sign, Sign sign (splitSign cs).1 ∧ cs = sign ++ (splitSign cs).2 := by
  unfold splitSign
  split
  · exact ⟨_, .minus, rfl⟩
  · exact ⟨_, .plus, rfl⟩
  · exact ⟨_, .none, rfl⟩

/-- Digits carry no sign of their own. -/
theorem splitSign_digits {sign digits : List Char} {negative : Bool} (hsign : Sign sign negative)
    (hdigits : AllDigits digits) : splitSign (sign ++ digits) = (negative, digits) := by
  have hfirst {c : Char} (hc : c.isDigit = false) : digits.head? ≠ some c := by
    intro hhead
    have := hdigits c (List.mem_of_head? hhead)
    rw [hc] at this
    cases this
  exact splitSign_append hsign (hfirst rfl) (hfirst rfl)

theorem readExponent?_eq_some {cs : List Char} {exponent : Int} :
    readExponent? cs = some exponent ↔ Exponent cs exponent := by
  constructor
  · intro h
    cases cs with
    | nil =>
      cases h
      exact .none
    | cons e rest =>
      obtain ⟨sign, hsign, hrest⟩ := splitSign_spec rest
      simp only [readExponent?, digitsValue_eq_spelled] at h
      split at h
      case isTrue hshape =>
        obtain ⟨he, hne, hdigits⟩ := hshape
        cases h
        have hexponent := Exponent.digits he hsign hne (List.all_eq_true.mp hdigits)
        rwa [← hrest] at hexponent
      case isFalse => cases h
  · rintro (_ | ⟨he, hsign, hne, hdigits⟩)
    · rfl
    · have hall : List.all _ Char.isDigit = true := List.all_eq_true.mpr hdigits
      simp only [readExponent?, splitSign_digits hsign hdigits, digitsValue_eq_spelled]
      rw [if_pos ⟨he, hne, hall⟩]

theorem Exponent.noDigitFirst {cs : List Char} {exponent : Int} (h : Exponent cs exponent) :
    NoDigitFirst cs ∧ cs.head? ≠ some '.' := by
  cases h with
  | none => simp [NoDigitFirst]
  | digits he => rcases he with rfl | rfl <;> simp [NoDigitFirst]

theorem noDigitFirst_behind_whole {point fraction tail : List Char}
    (hpoint : point = ['.'] ∨ point = [] ∧ fraction = []) (htail : NoDigitFirst tail) :
    NoDigitFirst (point ++ (fraction ++ tail)) := by
  rcases hpoint with rfl | ⟨rfl, rfl⟩
  · simp [NoDigitFirst]
  · exact htail

theorem splitFraction_append {point fraction tail : List Char}
    (hpoint : point = ['.'] ∨ point = [] ∧ fraction = []) (hfraction : AllDigits fraction)
    (htail : NoDigitFirst tail) (hdot : tail.head? ≠ some '.') :
    splitFraction (point ++ (fraction ++ tail)) = (fraction, tail) := by
  rcases hpoint with rfl | ⟨rfl, rfl⟩
  · exact span_digits hfraction htail
  · rw [List.nil_append, List.nil_append]
    unfold splitFraction
    split
    · simp at hdot
    · rfl

theorem splitFraction_spec (cs : List Char) :
    ∃ point, (point = ['.'] ∨ point = [] ∧ (splitFraction cs).1 = []) ∧
      AllDigits (splitFraction cs).1 ∧
        cs = point ++ ((splitFraction cs).1 ++ (splitFraction cs).2) := by
  unfold splitFraction
  split
  case h_1 cs =>
    obtain ⟨hdigits, hcs⟩ := span_spec cs
    exact ⟨['.'], .inl rfl, hdigits, congrArg ('.' :: ·) hcs⟩
  case h_2 => exact ⟨[], .inr ⟨rfl, rfl⟩, by simp [AllDigits], rfl⟩

theorem readDecimal?_eq_some {cs : List Char} {x : Binary64} :
    readDecimal? cs = some x ↔ Decimal cs x := by
  simp only [readDecimal?, digitsValue_eq_spelled]
  constructor
  · intro h
    obtain ⟨hwhole, hcs⟩ := span_spec cs
    obtain ⟨point, hpoint, hfraction, hrest⟩ := splitFraction_spec (cs.span Char.isDigit).2
    split at h
    case isTrue => cases h
    case isFalse hne =>
      obtain ⟨exponent, hexponent, rfl⟩ := Option.map_eq_some_iff.mp h
      have hdecimal :=
        Decimal.intro hwhole hpoint hfraction hne (readExponent?_eq_some.mp hexponent)
      rwa [← hrest, ← hcs] at hdecimal
  · rintro ⟨hwhole, hpoint, hfraction, hne, hexponent⟩
    obtain ⟨htail, hdot⟩ := hexponent.noDigitFirst
    have hrest : NoDigitFirst (_ ++ (_ ++ _)) := noDigitFirst_behind_whole hpoint htail
    simp only [span_digits hwhole hrest, splitFraction_append hpoint hfraction htail hdot,
      if_neg hne, readExponent?_eq_some.mpr hexponent, Option.map_some]

/-- A decimal begins with a digit or with its point. -/
theorem Decimal.first {cs : List Char} {x : Binary64} (h : Decimal cs x) :
    ∃ c, cs.head? = some c ∧ (c.isDigit = true ∨ c = '.') := by
  obtain @⟨whole, point, fraction, tail, exponent, hwhole, hpoint, -, hne, -⟩ := h
  cases whole with
  | cons c whole => exact ⟨c, rfl, .inl (hwhole c List.mem_cons_self)⟩
  | nil =>
    rcases hpoint with rfl | ⟨rfl, rfl⟩
    · exact ⟨'.', rfl, .inr rfl⟩
    · exact absurd ⟨rfl, rfl⟩ hne

theorem toLower_of_decimal {c : Char} (h : c.isDigit = true ∨ c = '.') : c.toLower = c := by
  rcases h with h | rfl
  · have hdigit : c.val.toNat ≤ 57 := by
      simp only [Char.isDigit, ge_iff_le, Bool.and_eq_true, decide_eq_true_eq] at h
      exact h.2
    unfold Char.toLower
    split
    case isTrue hupper =>
      have hletter : 65 ≤ c.val.toNat := hupper.1
      omega
    case isFalse => rfl
  · rfl

theorem head?_of_map_toLower {cs name : List Char} (h : cs.map Char.toLower = name) :
    name.head? = cs.head?.map Char.toLower := by
  rw [← h, List.head?_map]

theorem Decimal.not_name {cs : List Char} {x : Binary64} (h : Decimal cs x) {name : List Char}
    (hname : name.head? = some 'i' ∨ name.head? = some 'n') : cs.map Char.toLower ≠ name := by
  intro hcs
  obtain ⟨c, hhead, hc⟩ := h.first
  have hfirst := head?_of_map_toLower hcs
  rw [hhead, Option.map_some, toLower_of_decimal hc] at hfirst
  rw [hfirst] at hname
  rcases hname with hname | hname <;> cases hname <;> simp at hc

/-- A number without sign is not empty, and no sign opens it. -/
theorem Magnitude.first {cs : List Char} {x : Binary64} (h : Magnitude cs x) :
    ∃ c, cs.head? = some c ∧ c ≠ '+' ∧ c ≠ '-' := by
  have hletter {name : List Char} {letter : Char} (hcs : cs.map Char.toLower = letter :: name)
      (hplus : '+'.toLower ≠ letter) (hminus : '-'.toLower ≠ letter) :
      ∃ c, cs.head? = some c ∧ c ≠ '+' ∧ c ≠ '-' := by
    obtain ⟨c, hc, rfl⟩ := Option.map_eq_some_iff.mp (head?_of_map_toLower hcs).symm
    refine ⟨c, hc, ?_, ?_⟩ <;> rintro rfl
    · exact hplus rfl
    · exact hminus rfl
  cases h with
  | infinity hname =>
    rcases hname with hname | hname <;> exact hletter hname (by decide) (by decide)
  | notANumber hname => exact hletter hname (by decide) (by decide)
  | decimal h =>
    obtain ⟨c, hc, hdigit⟩ := h.first
    refine ⟨c, hc, ?_, ?_⟩ <;> rintro rfl <;> simp at hdigit

theorem readMagnitude?_eq_some {cs : List Char} {x : Binary64} :
    readMagnitude? cs = some x ↔ Magnitude cs x := by
  have hlower (name : String) : String.ofList (cs.map Char.toLower) = name ↔
      cs.map Char.toLower = name.toList := by
    rw [← String.toList_inj, String.toList_ofList]
  simp only [readMagnitude?, hlower]
  constructor
  · intro h
    split at h
    case isTrue hname =>
      cases h
      exact .infinity hname
    case isFalse =>
      split at h
      case isTrue hname =>
        cases h
        exact .notANumber hname
      case isFalse => exact .decimal (readDecimal?_eq_some.mp h)
  · rintro (hname | hname | hdecimal)
    · rw [if_pos hname]
    · rw [hname, if_neg (by decide), if_pos rfl]
    · have hinfinity : ¬(cs.map Char.toLower = "inf".toList ∨
          cs.map Char.toLower = "infinity".toList) := by
        rintro (hname | hname) <;> exact hdecimal.not_name (.inl rfl) hname
      rw [if_neg hinfinity, if_neg (hdecimal.not_name (.inr rfl)),
        readDecimal?_eq_some.mpr hdecimal]

inductive NoSpelling (text : String) : ReadFault → Prop where
  | empty (h : text = "") : NoSpelling text .empty
  | invalid (hne : text ≠ "") (h : ∀ x, ¬Spells text x) : NoSpelling text .invalid

theorem read_eq_ok {text : String} {x : Binary64} : read text = .ok x ↔ Spells text x := by
  simp only [read, String.isEmpty_iff, ← String.toList_eq_nil_iff]
  constructor
  · intro h
    split at h
    case isTrue => cases h
    case isFalse =>
      obtain ⟨sign, hsign, htext⟩ := splitSign_spec text.toList
      split at h
      case h_1 y hmagnitude =>
        cases h
        exact ⟨sign, _, _, y, htext, hsign, readMagnitude?_eq_some.mp hmagnitude, rfl⟩
      case h_2 => cases h
  · rintro ⟨sign, negative, magnitude, y, htext, hsign, hmagnitude, rfl⟩
    obtain ⟨c, hc, hplus, hminus⟩ := hmagnitude.first
    have hempty : sign ++ magnitude ≠ [] := by
      rintro h
      rw [(List.append_eq_nil_iff.mp h).2] at hc
      cases hc
    have hunsigned {d : Char} (hd : c ≠ d) : magnitude.head? ≠ some d := by
      rw [hc]
      exact fun h => hd (Option.some_inj.mp h)
    simp only [htext, if_neg hempty, splitSign_append hsign (hunsigned hplus) (hunsigned hminus),
      readMagnitude?_eq_some.mpr hmagnitude]

end Binary64

end Overlay.Number
