import CellMachine.Text.Alphabetic
import CellMachine.Text.Numeric

/-!
# Characters of words

Which characters are letters, which may go on a word, and which are blank.
-/

namespace CellMachine.Text

/-- Whether a character is a letter. -/
def isLetter (c : Char) : Bool := alphabetic.contains c.toNat

/-- Whether a character is a letter or a numeral. -/
def isLetterOrNumeral (c : Char) : Bool := isLetter c || numeric.contains c.toNat

/-- The ranges of blank characters, in order. -/
def blank : Ranges :=
  [(0x9, 0xd), (0x20, 0x20), (0x85, 0x85), (0xa0, 0xa0), (0x1680, 0x1680), (0x2000, 0x200a),
   (0x2028, 0x2029), (0x202f, 0x202f), (0x205f, 0x205f), (0x3000, 0x3000)]

/-- Whether a character is blank. -/
def isBlank (c : Char) : Bool := blank.contains c.toNat

/-- Whether a character is one of the digits `0` to `9`. -/
def isDigit (c : Char) : Bool := '0' ≤ c && c ≤ '9'

/-- Whether a character is a hexadecimal digit of either case. -/
def isHexDigit (c : Char) : Bool :=
  isDigit c || ('a' ≤ c && c ≤ 'f') || ('A' ≤ c && c ≤ 'F')

end CellMachine.Text
