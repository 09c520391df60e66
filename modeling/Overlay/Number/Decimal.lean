import Overlay.Number.Binary64

/-!
Decimal text of binary64 numbers. A number is printed positionally, never with an exponent, by the
fewest digits that read back as the same number and among those by the nearest. A decimal text is
read exactly, as a quotient of naturals, and rounded once.
-/

namespace Overlay.Number

-- Powers are those of the core library, whatever else is imported.
attribute [local instance (high)] instPowNat

def fixedPoint (value places : Nat) : String :=
  if places = 0 then toString value
  else
    let digits := Nat.toDigits 10 value
    let padded := List.replicate (places + 1 - digits.length) '0' ++ digits
    let whole := padded.length - places
    String.ofList (padded.take whole ++ '.' :: padded.drop whole)

namespace Binary64

/-- The numbers that round to `value`, between two bounds that belong to them if `closed` holds. -/
structure Neighbourhood where
  low : Nat
  value : Nat
  high : Nat
  closed : Bool

/-- The neighbourhood of a finite number above zero, in quarters of a unit. The lower half is
narrower where a power of two begins. -/
def neighbourhood (x : Binary64) : Neighbourhood :=
  let value := 4 * x.units
  let gap := spacing x.magnitude
  let narrow := x.magnitude % 2 ^ (52 : Nat) = 0 ∧ 2 ^ (53 : Nat) ≤ x.magnitude
  { low := if narrow then value - gap else value - 2 * gap
    value
    high := value + 2 * gap
    closed := x.magnitude % 2 = 0 }

/-- The multiple of `step / scale` inside a neighbourhood that is nearest to its value. -/
def Neighbourhood.multiple? (i : Neighbourhood) (scale step : Nat) : Option Nat :=
  let low := i.low * scale
  let value := i.value * scale
  let high := i.high * scale
  let inside (m : Nat) : Bool :=
    if i.closed then decide (low ≤ m * step ∧ m * step ≤ high)
    else decide (low < m * step ∧ m * step < high)
  let below := value / step
  if inside below ∧ (¬ inside (below + 1) ∨ 2 * value < (2 * below + 1) * step) then some below
  else if inside (below + 1) then some (below + 1)
  else none

/-- The largest power of ten that is tried as the place of the last digit. -/
def firstPlace : Nat := 309

/-- Steps down from that power within which every number has a short decimal. -/
def placesTried : Nat := 1400

/-- The shortest decimal of a finite number above zero: its digits as a number, and how many places
below `firstPlace` the last of them stands. -/
def shortest (x : Binary64) : Nat × Nat :=
  let i := x.neighbourhood
  let step := 4 * unitsPerOne * 10 ^ firstPlace
  ((List.range placesTried).findSome? fun place =>
    (i.multiple? (10 ^ place) step).map fun digits => (digits, place)).getD (0, 0)

def magnitudeText (x : Binary64) : String :=
  if x.units = 0 then "0"
  else
    let (digits, place) := x.shortest
    if place ≤ firstPlace then toString (digits * 10 ^ (firstPlace - place))
    else fixedPoint digits (place - firstPlace)

def text (x : Binary64) : String :=
  if x.isNaN then "NaN"
  else (if x.isNegative then "-" else "") ++ (if x.isFinite then x.magnitudeText else "inf")

/-- A finite number without sign, rounded to a number of places, a tie going to the even digit. -/
def roundedText (x : Binary64) (places : Nat) : String :=
  fixedPoint (roundHalfEven (x.units * 10 ^ places) unitsPerOne) places

inductive ReadFault where
  | empty
  | invalid
  deriving DecidableEq

def ReadFault.message : ReadFault → String
  | .empty => "cannot parse float from empty string"
  | .invalid => "invalid float literal"

/-- The number nearest to `digits * 10 ^ exponent`. Exponents far outside the range of the format
are decided by the count of digits alone. -/
def ofDecimal (digits : Nat) (exponent : Int) : Binary64 :=
  let leading := (Nat.toDigits 10 digits).length + exponent
  if digits = 0 ∨ leading < -330 then ofMagnitude false 0
  else if 310 < leading then infinity
  else if 0 ≤ exponent then ofNat (digits * 10 ^ exponent.toNat)
  else ofQuotient digits (10 ^ (-exponent).toNat)

def digitsValue (cs : List Char) : Nat :=
  cs.foldl (fun n c => 10 * n + (c.toNat - '0'.toNat)) 0

def splitSign : List Char → Bool × List Char
  | '-' :: cs => (true, cs)
  | '+' :: cs => (false, cs)
  | cs => (false, cs)

def readExponent? : List Char → Option Int
  | [] => some 0
  | e :: cs =>
    let (negative, digits) := splitSign cs
    if (e = 'e' ∨ e = 'E') ∧ digits ≠ [] ∧ digits.all Char.isDigit then
      some (if negative then -(digitsValue digits : Int) else digitsValue digits)
    else none

/-- The digits of a fraction, if a point opens the text, and what follows. -/
def splitFraction : List Char → List Char × List Char
  | '.' :: cs => cs.span Char.isDigit
  | cs => ([], cs)

/-- A decimal without sign: digits with at most one point, then an optional exponent. -/
def readDecimal? (cs : List Char) : Option Binary64 :=
  let (whole, rest) := cs.span Char.isDigit
  let (fraction, rest) := splitFraction rest
  if whole = [] ∧ fraction = [] then none
  else (readExponent? rest).map fun exponent =>
    ofDecimal (digitsValue (whole ++ fraction)) (exponent - fraction.length)

/-- A number without sign: the names of infinity and of no number in any case, or a decimal. -/
def readMagnitude? (cs : List Char) : Option Binary64 :=
  let name := String.ofList (cs.map Char.toLower)
  if name = "inf" ∨ name = "infinity" then some infinity
  else if name = "nan" then some notANumber
  else readDecimal? cs

def read (text : String) : Except ReadFault Binary64 :=
  if text.isEmpty then .error .empty
  else
    let (negative, cs) := splitSign text.toList
    match readMagnitude? cs with
    | some x => .ok (if negative then x.neg else x)
    | none => .error .invalid

end Binary64

end Overlay.Number
