import Overlay.Number.Decimal

/-!
Lengths of time in whole nanoseconds, and the two ways in which messages give them: as a number of
seconds, and with the largest unit of which there is at least one.
-/

namespace Overlay.Number

/-- A length of time in nanoseconds. -/
structure Duration where
  nanoseconds : Nat
  deriving DecidableEq

namespace Duration

def ofMilliseconds (n : Nat) : Duration := ⟨n * 1000000⟩

def milliseconds (d : Duration) : Nat := d.nanoseconds / 1000000

/-- Whole seconds plus the rest, each rounded to a binary64 number before they are added. -/
def seconds (d : Duration) : Binary64 :=
  (Binary64.ofNat (d.nanoseconds / 1000000000)).add
    (Binary64.ofQuotient (d.nanoseconds % 1000000000) 1000000000)

/-- Drops zeros at the end of a fraction, and the point if nothing is left of it. -/
def withoutTrailingZeros (text : String) : String :=
  let kept := text.toList.reverse.dropWhile (· = '0')
  String.ofList (if kept.head? = some '.' then kept.tail else kept).reverse

/-- The exact text of a length of time in the given decimal unit. -/
def inUnit (d : Duration) (places : Nat) (unit : String) : String :=
  (if places = 0 then toString d.nanoseconds
   else withoutTrailingZeros (fixedPoint d.nanoseconds places)) ++ unit

/-- The exact text with the largest unit of which there is at least one. -/
def text (d : Duration) : String :=
  if 1000000000 ≤ d.nanoseconds then d.inUnit 9 "s"
  else if 1000000 ≤ d.nanoseconds then d.inUnit 6 "ms"
  else if 1000 ≤ d.nanoseconds then d.inUnit 3 "µs"
  else d.inUnit 0 "ns"

end Duration

end Overlay.Number
