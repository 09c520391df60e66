import Overlay.Keyspace.Space
import Overlay.Text.Quoted

/-!
Faults found while an identifier or a space is built. A fault is a cause with the data that explain
it; its wording is one function, and so is the constructor form that a program prints when it ends
on the fault.
-/

namespace Overlay.Keyspace

/-- Why an identifier is refused. Positions count digits from zero. -/
inductive Fault where
  | length (expected actual : Nat)
  | digit (position digit base : Nat)
  | character (position : Nat) (found : Char)
  | otherSpace (expected actual : Space)
  | space (cause : SpaceFault)
  deriving DecidableEq

def Space.inspect (s : Space) : String :=
  s!"IdSpace \x7b base: {s.base}, length: {s.length} \x7d"

namespace Fault

def message : Fault → String
  | .length expected actual => s!"invalid node id: expected {expected} digits, got {actual}"
  | .digit position value base =>
    s!"invalid node id: digit {value} at position {position} is out of range for base {base}"
  | .character position found =>
    s!"invalid node id: {Text.quotedChar found} at position {position} is not a hex digit"
  | .otherSpace expected actual =>
    s!"invalid node id: belongs to space {actual.text}, expected {expected.text}"
  | .space cause => s!"invalid id space: {cause.message}"

def inspect : Fault → String
  | .length expected actual =>
    s!"InvalidLength \x7b expected: {expected}, actual: {actual} \x7d"
  | .digit position value base =>
    s!"InvalidDigit \x7b position: {position}, digit: {value}, base: {base} \x7d"
  | .character position found =>
    s!"InvalidCharacter \x7b position: {position}, character: {Text.quotedChar found} \x7d"
  | .otherSpace expected actual =>
    s!"SpaceMismatch \x7b expected: {expected.inspect}, actual: {actual.inspect} \x7d"
  | .space cause => s!"InvalidSpace({Text.quoted cause.message})"

end Fault

end Overlay.Keyspace
