import CellMachine.Assembly.Error
import CellMachine.Datatype
import CellMachine.Token.Cursor

/-!
# Taking tokens

A `Parser` takes tokens from a cursor and may fail; it gives the cursor behind it in either
case. It knows nothing of what has been assembled, so that what it gives depends on the tokens
alone. The parsers of this file take single tokens, names and datatypes.
-/

namespace CellMachine

namespace Cursor

/-- Moves behind the current token and goes on with `rest`, if the token satisfies `p`. -/
def skipWhileRound (p : Token → Bool) (rest : Cursor → Cursor) (c : Cursor) : Cursor :=
  if p c.current then rest c.next else c

/-- Moves forward while the tokens satisfy `p`, at most `n` times. -/
def skipWhile (p : Token → Bool) : Nat → Cursor → Cursor
  | 0 => id
  | n + 1 => skipWhileRound p (skipWhile p n)

/-- Moves behind the ends of lines. -/
def skipNewlines (c : Cursor) : Cursor := skipWhile (·.kind == .newline) c.remaining c

/-- Moves to the end of the statement. -/
def skipLine (c : Cursor) : Cursor := skipWhile (!·.endsStatement) c.remaining c

end Cursor

/-- An action that takes tokens. -/
abbrev Parser := EStateM AssemblyError Cursor

namespace Parser

/-- The token under the cursor. -/
def current : Parser Token := do return (← get).current

/-- The token behind the current one. -/
def peek : Parser Token := do return (← get).peek

/-- Moves to the next token. -/
def next : Parser Unit := modify Cursor.next

/-- How many tokens are left. -/
def remaining : Parser Nat := do return (← get).remaining

/-- Fails at a token. -/
def failAt {α : Type} (t : Token) (kind : AssemblyErrorKind) : Parser α := throw ⟨kind, t.position⟩

/-- Fails at the current token. -/
def failHere {α : Type} (kind : AssemblyErrorKind) : Parser α := do failAt (← current) kind

/-- Fails because another token was expected. -/
def unexpected {α : Type} (t : Token) (expected : String) : Parser α :=
  failAt t (.unexpectedToken expected t.describe)

/-- Whether the current token is of a kind. -/
def at? (kind : TokenKind) : Parser Bool := do return (← current).kind == kind

/-- Takes the current token if it is of a kind. -/
def take? (kind : TokenKind) : Parser Bool := do
  if ← at? kind then
    next
    return true
  else return false

/-- Takes a token of a kind. -/
def expect (kind : TokenKind) (expected : String) : Parser Token := do
  let t ← current
  if t.kind == kind then
    next
    return t
  else unexpected t expected

/-- Takes a colon. -/
def expectColon : Parser Unit := do
  let _ ← expect .colon "':'"

/-- Takes a name. -/
def expectName : Parser String := do return (← expect .name "a name").text

/-- Takes one more part of a dotted name and goes on with `rest`, if there is one. -/
def dottedRestRound (rest : String → Parser String) (name : String) : Parser String := do
  if (← current).kind == .dot && (← peek).kind == .name then
    next
    let t ← current
    next
    rest (name ++ "." ++ t.text)
  else return name

/-- Goes on with a dotted name, for at most `n` parts. -/
def dottedRest (name : String) : Nat → Parser String
  | 0 => return name
  | n + 1 => dottedRestRound (dottedRest · n) name

/-- Takes names with dots between them. -/
def dottedName : Parser String := do
  let name ← expectName
  dottedRest name (← remaining)

/-- Takes a dot and a datatype. -/
def datatypeSuffix : Parser Datatype := do
  let _ ← expect .dot "'.'"
  let t ← expect .name "a datatype"
  match Datatype.ofName? t.text with
  | some dt => return dt
  | none => failAt t (.unknownDatatype t.text)

/-- Takes a dot and a datatype that has values. -/
def storedDatatype : Parser Datatype := do
  let t ← peek
  let dt ← datatypeSuffix
  if dt = .none then failAt t (.unknownDatatype t.text) else return dt

/-- Takes a name and its datatype. -/
def declaration : Parser (String × Datatype) := do
  let name ← expectName
  return (name, ← storedDatatype)

/-- Moves behind the ends of lines. -/
def skipNewlines : Parser Unit := modify Cursor.skipNewlines

/-- Fails unless the statement ends here. -/
def expectEnd : Parser Unit := do
  let t ← current
  if t.endsStatement then return () else unexpected t "end of statement"

end Parser

end CellMachine
