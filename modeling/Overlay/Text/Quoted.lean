import Overlay.Text.Printable

/-!
Quoted characters and texts, as error messages show them. The delimiter and the backslash are
escaped, four controls have short names, and every other hidden character is written by its code
point, so that the quotation is one visible line whatever the text holds.
-/

namespace Overlay.Text

def hexadecimal (code : Nat) : String := String.ofList (Nat.toDigits 16 code)

def escaped (delimiter c : Char) : String :=
  if c = '\x00' then "\\0"
  else if c = '\t' then "\\t"
  else if c = '\n' then "\\n"
  else if c = '\r' then "\\r"
  else if c = delimiter ∨ c = '\\' then "\\" ++ c.toString
  else if isShown c then c.toString
  else "\\u\x7b" ++ hexadecimal c.toNat ++ "\x7d"

/-- A text between double quotation marks; single ones inside stand for themselves. -/
def quoted (text : String) : String :=
  "\"" ++ String.join (text.toList.map (escaped '\x22')) ++ "\""

/-- A character between single quotation marks; a double one stands for itself. -/
def quotedChar (c : Char) : String := "'" ++ escaped '\x27' c ++ "'"

end Overlay.Text
