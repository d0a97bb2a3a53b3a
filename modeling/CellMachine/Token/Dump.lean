import CellMachine.Bytes
import CellMachine.Text.Quoted
import CellMachine.Token.Basic

/-!
# Dumps of tokens

A dump has one line per token : its place, its kind and its text, with or without colours. The
text is quoted, or in the plain form as it stands in the source.
-/

namespace CellMachine

/-- How tokens are dumped. -/
structure DumpStyle where
  /-- Whether the lines are coloured. -/
  color : Bool
  /-- Whether the text is shown as it stands in the source, and not quoted. -/
  plain : Bool
  deriving DecidableEq, Repr

/-- The name of a kind in a dump. -/
def TokenKind.tag : TokenKind → String
  | newline => "NEWLINE"
  | endOfCode => "EOC"
  | integer => "INT"
  | float => "FLOAT"
  | string => "STRING"
  | name => "NAME"
  | dot | colon => "SEP"
  | deref | frame | register => "OP"
  | directive => "DIRECTIVE"

/-- The terminal's escape sequence with a number. -/
def sgr (n : Nat) : String := "\x1b[" ++ toString n ++ "m"

/-- The colour of a kind in a dump. -/
def TokenKind.color : TokenKind → String
  | newline | endOfCode => sgr 2
  | string => sgr 32
  | integer | float => sgr 36
  | name => sgr 33
  | deref | frame | register | directive => sgr 35
  | dot | colon => sgr 0

/-- The text of a token as it stands in the source. -/
def Token.plainText (t : Token) : String :=
  match t.kind with
  | .newline => "NEWLINE"
  | .endOfCode => "EOC"
  | .string => "\"" ++ t.text ++ "\""
  | _ => t.text

namespace DumpStyle

/-- The line of a token. -/
def line (style : DumpStyle) (t : Token) : String :=
  let place := padLeft 2 '0' (toString t.position.line) ++ ":" ++
    padLeft 2 '0' (toString t.position.column)
  let shown := if style.plain then t.plainText else Text.quoted t.text
  "[" ++ place ++ "] " ++ (if style.color then t.kind.color else "") ++
    padRight 9 ' ' t.kind.tag ++ " " ++ shown ++ (if style.color then sgr 0 else "") ++ "\n"

/-- The lines of a list of tokens. -/
def dump (style : DumpStyle) (tokens : Array Token) : String :=
  String.join (tokens.toList.map style.line)

end DumpStyle

end CellMachine
