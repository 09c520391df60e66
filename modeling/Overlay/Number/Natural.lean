/-!
Reading of bounded naturals from text: decimal digits behind an optional plus sign. The text is
read from the left and the first fault met is reported, so that a value already too large hides a
wrong character behind it.
-/

namespace Overlay.Number

/-- Why a text is no natural number within a bound. -/
inductive NaturalFault where
  | empty
  | digit
  | tooLarge
  deriving DecidableEq

def NaturalFault.message : NaturalFault → String
  | .empty => "cannot parse integer from empty string"
  | .digit => "invalid digit found in string"
  | .tooLarge => "number too large to fit in target type"

/-- Reads digits behind a value already read. -/
def appendDecimals (limit : Nat) : Nat → List Char → Except NaturalFault Nat
  | value, [] => .ok value
  | value, c :: cs =>
    if c.isDigit then
      let next := 10 * value + (c.toNat - '0'.toNat)
      if next < limit then appendDecimals limit next cs else .error .tooLarge
    else .error .digit

/-- The digits of a text: a plus sign in front of others is no digit and is passed over. -/
def withoutPlus : List Char → List Char
  | '+' :: c :: cs => c :: cs
  | cs => cs

def readNatural (limit : Nat) (text : String) : Except NaturalFault Nat :=
  if text.isEmpty then .error .empty
  else appendDecimals limit 0 (withoutPlus text.toList)

end Overlay.Number
