/-!
White space as the Unicode character database lists it, which is wider than the blanks of ASCII.
-/

namespace Overlay.Text

/-- The code points of white space outside the ranges of `isBlank`. -/
def blankCodes : List Nat := [0x20, 0x85, 0xa0, 0x1680, 0x2028, 0x2029, 0x202f, 0x205f, 0x3000]

def isBlank (c : Char) : Bool :=
  (9 ≤ c.toNat && c.toNat ≤ 13) || (0x2000 ≤ c.toNat && c.toNat ≤ 0x200a) ||
    blankCodes.contains c.toNat

def trimmed (text : String) : String :=
  String.ofList ((text.toList.dropWhile isBlank).reverse.dropWhile isBlank).reverse

end Overlay.Text
