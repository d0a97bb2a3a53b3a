import CellMachine.Bytes
import CellMachine.Text.Extender
import CellMachine.Text.Ignorable
import CellMachine.Text.Unprintable

/-!
# Quoted text

Text between quotes, in which every character can be told from every other : control
characters, the quote itself and the backslash are escaped, and so is each character without a
form of its own.
-/

namespace CellMachine.Text

/-- Whether a character shows as itself : it has a visible form and stands alone. -/
def isVisible (c : Char) : Bool :=
  !(extender.contains c.toNat || unprintable.contains c.toNat || ignorable.contains c.toNat)

/-- A character between quotes of the given kind. -/
def escape (quote c : Char) : String :=
  if c == '\x00' then "\\0"
  else if c == '\t' then "\\t"
  else if c == '\r' then "\\r"
  else if c == '\n' then "\\n"
  else if c == '\\' then "\\\\"
  else if c == quote then String.ofList ['\\', c]
  else if isVisible c then c.toString
  else "\\u\x7b" ++ hex c.toNat ++ "\x7d"

/-- A character between single quotes. -/
def quotedChar (c : Char) : String := "'" ++ escape '\'' c ++ "'"

/-- Text between double quotes. -/
def quoted (s : String) : String := "\"" ++ String.join (s.toList.map (escape '"')) ++ "\""

end CellMachine.Text
