import Overlay.Keyspace.Id

/-!
Identifiers from digits and from text. Digits are read into the word one after the other, each
shifting the earlier ones up. A text has one hexadecimal character per digit, in either case; its
length is judged first, then its characters, then its digits, so a character that is no digit at all
is reported even behind a digit that is too large.
-/

namespace Overlay.Keyspace.Id

/-- Reads digits behind those already in `value`; `position` counts the digits read so far. -/
def appendDigits (space : Space) : Nat → Word → List Nat → Except Fault Word
  | _, value, [] => .ok value
  | position, value, d :: ds =>
    if d < space.base then
      appendDigits space (position + 1) (value <<< space.digitBits ||| BitVec.ofNat 128 d) ds
    else .error (.digit position d space.base)

/-- The identifier with the given digits, most significant first. -/
def ofDigits (digits : List Nat) (space : Space) : Except Fault Id :=
  if digits.length = space.length then
    (appendDigits space 0 0#128 digits).map fun value => ofWord value space
  else .error (.length space.length digits.length)

/-- The value of a hexadecimal character of either case. -/
def hexValue? (c : Char) : Option Nat :=
  if '0' ≤ c ∧ c ≤ '9' then some (c.toNat - '0'.toNat)
  else if 'a' ≤ c ∧ c ≤ 'f' then some (c.toNat - 'a'.toNat + 10)
  else if 'A' ≤ c ∧ c ≤ 'F' then some (c.toNat - 'A'.toNat + 10)
  else none

/-- The values of hexadecimal characters, or the first character that is none. -/
def readCharacters : Nat → List Char → Except Fault (List Nat)
  | _, [] => .ok []
  | position, c :: cs =>
    match hexValue? c with
    | some d => (readCharacters (position + 1) cs).map (d :: ·)
    | none => .error (.character position c)

def parse (text : String) (space : Space) : Except Fault Id :=
  if text.length = space.length then
    readCharacters 0 text.toList >>= fun digits => ofDigits digits space
  else .error (.length space.length text.length)

/-- One lowercase hexadecimal character per digit. -/
def text (a : Id) : String := String.ofList (a.digits.map Nat.digitChar)

def inspect (a : Id) : String := s!"NodeId({a.text})"

end Overlay.Keyspace.Id
