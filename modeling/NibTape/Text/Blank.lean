import NibTape.Text.Ranges

/-!
# Blank characters

Two sets of blanks are told apart. White space is the Unicode property of that name.
The blanks around a setting also include the four information separators, which the
reader of a bare integer does not skip.
-/

namespace NibTape.Text

def whiteSpace : Ranges := [
  (0x9, 0xD), (0x20, 0x20), (0x85, 0x85), (0xA0, 0xA0), (0x1680, 0x1680), (0x2000, 0x200A),
  (0x2028, 0x2029), (0x202F, 0x202F), (0x205F, 0x205F), (0x3000, 0x3000)]

def isWhiteSpace (c : Char) : Bool := whiteSpace.has c.toNat

/-- Whether a character is white space or an information separator. -/
def isBlank (c : Char) : Bool := isWhiteSpace c || (0x1C ≤ c.toNat && c.toNat ≤ 0x1F)

def trim (skip : Char → Bool) (text : List Char) : List Char :=
  ((text.dropWhile skip).reverse.dropWhile skip).reverse

end NibTape.Text
