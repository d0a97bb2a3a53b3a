/-!
# Tokens

Source text is a sequence of tokens, each with the place where it starts. A token keeps its
spelling; a string token keeps what stands between its quotes.
-/

namespace CellMachine

/-- A place in source text. Lines and columns count from 1, columns in characters. -/
structure Position where
  line : Nat
  column : Nat
  deriving DecidableEq, Repr, Inhabited

/-- The place behind a character. -/
def Position.advance (p : Position) (c : Char) : Position :=
  if c == '\n' then ⟨p.line + 1, 1⟩ else ⟨p.line, p.column + 1⟩

/-- The place where a text starts. -/
def Position.start : Position := ⟨1, 1⟩

/-- The text of a place in front of a message. -/
def Position.text (p : Position) : String := toString p.line ++ ":" ++ toString p.column ++ ": "

/-- What a token is. -/
inductive TokenKind where
  | endOfCode
  | dot | colon | newline
  | deref | frame | register | directive
  | integer | float | string
  | name
  deriving DecidableEq, Repr, Inhabited

namespace TokenKind

/-- The name of a kind in messages. -/
def describe : TokenKind → String
  | endOfCode => "end of code"
  | dot => "'.'"
  | colon => "':'"
  | newline => "newline"
  | deref => "'@'"
  | frame => "'~'"
  | register => "'$'"
  | directive => "'#'"
  | integer => "integer literal"
  | float => "float literal"
  | string => "string literal"
  | name => "name"

/-- The kind of token a single character makes. -/
def ofChar? (c : Char) : Option TokenKind :=
  if c == '.' then some dot
  else if c == ':' then some colon
  else if c == '\n' then some newline
  else if c == '@' then some deref
  else if c == '~' then some frame
  else if c == '$' then some register
  else if c == '#' then some directive
  else none

end TokenKind

/-- A piece of source text. -/
structure Token where
  kind : TokenKind
  text : String
  position : Position
  deriving DecidableEq, Repr, Inhabited

namespace Token

/-- The token behind the last one. -/
def endOfCode (p : Position) : Token := ⟨.endOfCode, "", p⟩

/-- Whether this token stands behind the last one. -/
def isEnd (t : Token) : Bool := t.kind == .endOfCode

/-- Whether a statement ends in front of this token. -/
def endsStatement (t : Token) : Bool := t.kind == .newline || t.kind == .endOfCode

end Token

end CellMachine
