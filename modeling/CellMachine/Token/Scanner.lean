import CellMachine.Text.Letter
import CellMachine.Text.Quoted
import CellMachine.Token.Basic

/-!
# Scanning

Text becomes tokens one character at a time. `Lexing` is what is known behind a character :
the tokens so far, the place, and the token that has begun (`Mode`). `Lexing.step` takes the
next character and `Lexing.finish` the end of the text.

A `Scanner` scans text that arrives in pieces. Each scan goes on where the last one stopped,
keeps the tokens it found, and puts a token behind them for the end of the text. A scan that
fails stops in front of the offending character. `Scanner.backup` remembers a state by the sizes
of what is only added to, and `Scanner.recover` returns to it.
-/

namespace CellMachine

/-- What is wrong with a text. -/
inductive LexErrorKind where
  | unexpectedChar (c : Char)
  | unterminatedString
  deriving DecidableEq, Repr

/-- What is wrong with a text, and where. -/
structure LexError where
  kind : LexErrorKind
  position : Position
  deriving DecidableEq, Repr

/-- The text of a scanning error. -/
def LexError.message (e : LexError) : String :=
  e.position.text ++
    match e.kind with
    | .unexpectedChar c => "unexpected character " ++ Text.quotedChar c
    | .unterminatedString => "unterminated string literal"

/-! ## Characters -/

/-- Whether a character ends the token in front of it. -/
def isDelimiter (c : Char) : Bool :=
  Text.isBlank c || c == '"' || c == '/' || (TokenKind.ofChar? c).isSome

/-- Whether a character can stand in a name. -/
def isWordChar (c : Char) : Bool := Text.isLetterOrNumeral c || c == '_'

/-- Whether a character can start a name. -/
def isWordStart (c : Char) : Bool := Text.isLetter c || c == '_'

/-- Whether a character is the sign of a number. -/
def isSign (c : Char) : Bool := c == '+' || c == '-'

/-- Whether a character can start a number. -/
def isNumberStart (c : Char) : Bool := Text.isDigit c || isSign c

/-- The characters of a number behind its sign. -/
def unsignedPart (text : String) : List Char := text.toList.dropWhile isSign

/-! ## One character at a time -/

/-- The token that has begun, with its start and its characters so far. -/
inductive Mode where
  | between
  | string (start : Position) (text : String)
  | comment
  | integer (start : Position) (text : String) (isHex : Bool)
  | float (start : Position) (text : String)
  | name (start : Position) (text : String)
  deriving DecidableEq, Repr

/-- What is known behind a character. -/
structure Lexing where
  mode : Mode
  position : Position
  tokens : Array Token
  deriving DecidableEq, Repr

namespace Lexing

/-- Moves behind a character. -/
def advance (s : Lexing) (c : Char) (mode : Mode) : Lexing :=
  { s with position := s.position.advance c, mode := mode }

/-- Completes a token. -/
def emit (s : Lexing) (kind : TokenKind) (text : String) (start : Position) : Lexing :=
  { s with tokens := s.tokens.push ⟨kind, text, start⟩, mode := .between }

/-- A failed step : the error, and the state in front of the character. -/
abbrev Failure := LexError × Lexing

/-- The error of a character that cannot stand where it does. -/
def unexpected (s : Lexing) (c : Char) : Except Failure Lexing :=
  .error (⟨.unexpectedChar c, s.position⟩, s)

/-- Takes a character between two tokens. -/
def begin (s : Lexing) (c : Char) : Except Failure Lexing :=
  if c == ' ' || c == '\t' || c == '\r' then .ok (s.advance c .between)
  else if c == '"' then .ok (s.advance c (.string s.position ""))
  else if c == '/' then .ok (s.advance c .comment)
  else if isNumberStart c then .ok (s.advance c (.integer s.position c.toString false))
  else if isWordStart c then .ok (s.advance c (.name s.position c.toString))
  else
    match TokenKind.ofChar? c with
    | some kind => .ok ((s.emit kind c.toString s.position).advance c .between)
    | none => s.unexpected c

/-- Completes an integer. A sign alone and a hexadecimal mark alone are none. -/
def emitInteger (s : Lexing) (start : Position) (text : String) (isHex : Bool) :
    Except Failure Lexing :=
  let digits := (unsignedPart text).length
  if (if isHex then 2 else 0) < digits then .ok (s.emit .integer text start)
  else .error (⟨.unexpectedChar (text.toList.getLastD '-'), start⟩, s)

/-- Takes the next character. -/
def step (s : Lexing) (c : Char) : Except Failure Lexing :=
  match s.mode with
  | .between => s.begin c
  | .string start text =>
    if c == '"' then .ok ((s.emit .string text start).advance c .between)
    else if c == '\n' then .error (⟨.unterminatedString, start⟩, s)
    else .ok (s.advance c (.string start (text.push c)))
  | .comment =>
    if c == '\n' then { s with mode := .between }.begin c else .ok (s.advance c .comment)
  | .integer start text isHex =>
    let digits := unsignedPart text
    if Text.isDigit c || (isHex && Text.isHexDigit c) then
      .ok (s.advance c (.integer start (text.push c) isHex))
    else if (c == 'x' || c == 'X') && digits == ['0'] && !isHex then
      .ok (s.advance c (.integer start (text.push c) true))
    else if c == '.' && !isHex && !digits.isEmpty then
      .ok (s.advance c (.float start (text.push c)))
    else if !isDelimiter c then s.unexpected c
    else
      match s.emitInteger start text isHex with
      | .ok s => s.begin c
      | .error e => .error e
  | .float start text =>
    if Text.isDigit c then .ok (s.advance c (.float start (text.push c)))
    else if !isDelimiter c || c == '.' then s.unexpected c
    else (s.emit .float text start).begin c
  | .name start text =>
    if isWordChar c then .ok (s.advance c (.name start (text.push c)))
    else if !isDelimiter c then s.unexpected c
    else (s.emit .name text start).begin c

/-- Takes the end of the text. -/
def finish (s : Lexing) : Except Failure Lexing :=
  match s.mode with
  | .between | .comment => .ok { s with mode := .between }
  | .string start _ => .error (⟨.unterminatedString, start⟩, s)
  | .integer start text isHex => s.emitInteger start text isHex
  | .float start text => .ok (s.emit .float text start)
  | .name start text => .ok (s.emit .name text start)

/-- Takes a whole text. Gives the state behind it, or the error with the state in front of the
offending character and the text from there on. -/
def run (s : Lexing) : List Char → Except (Failure × List Char) Lexing
  | [] =>
    match s.finish with
    | .ok s => .ok s
    | .error f => .error (f, [])
  | c :: rest =>
    match s.step c with
    | .ok s => s.run rest
    | .error f => .error (f, c :: rest)

end Lexing

/-! ## Text in pieces -/

/-- Tokens without the one for the end of the text. -/
def withoutEnd (tokens : Array Token) : Array Token :=
  match tokens.back? with
  | some t => if t.isEnd then tokens.pop else tokens
  | none => tokens

/-- The token for the end of the text, if there is one. -/
def endToken? (tokens : Array Token) : Option Token := tokens.back?.filter (·.isEnd)

/-- What is kept of a scanner to come back to a state : how much text and how many tokens there
are, the place in the text, and the token for its end. -/
structure Checkpoint where
  source : Nat
  pos : Nat
  position : Position
  /-- The number of tokens without the one for the end of the text. -/
  tokens : Nat
  ending : Option Token
  deriving DecidableEq, Repr

/-- A scan of text that arrives in pieces. -/
structure Scanner where
  /-- The text so far. -/
  source : List Char
  /-- How many characters of it have been scanned. -/
  pos : Nat
  /-- The place behind them. -/
  position : Position
  /-- The tokens found so far, behind a successful scan with one for the end of the text. -/
  tokens : Array Token
  checkpoint : Option Checkpoint
  deriving DecidableEq, Repr

namespace Scanner

/-- The scanner that has seen no text. -/
def empty : Scanner := ⟨[], 0, .start, #[], none⟩

/-- The text that has not been scanned. -/
def pending (s : Scanner) : List Char := s.source.drop s.pos

/-- Adds text behind the text so far. -/
def push (s : Scanner) (text : String) : Scanner := { s with source := s.source ++ text.toList }

/-- Remembers the state. -/
def backup (s : Scanner) : Scanner :=
  { s with checkpoint := some {
      source := s.source.length
      pos := s.pos
      position := s.position
      tokens := (withoutEnd s.tokens).size
      ending := endToken? s.tokens } }

/-- Returns to the remembered state, if there is one, by cutting off what was added behind it. -/
def recover (s : Scanner) : Bool × Scanner :=
  match s.checkpoint with
  | none => (false, s)
  | some c =>
    (true, { s with
      source := s.source.take c.source
      pos := c.pos
      position := c.position
      tokens := s.tokens.take c.tokens ++ c.ending.toArray })

/-- Scans the pending text. -/
def scan (s : Scanner) : Except LexError (Array Token) × Scanner :=
  match Lexing.run ⟨.between, s.position, withoutEnd s.tokens⟩ s.pending with
  | .ok r =>
    let tokens := r.tokens.push (.endOfCode r.position)
    (.ok tokens, { s with pos := s.source.length, position := r.position, tokens := tokens })
  | .error ((e, r), rest) =>
    let pos := s.source.length - rest.length
    (.error e, { s with pos := pos, position := r.position, tokens := r.tokens })

end Scanner

/-- The tokens of a text. -/
def tokenize (text : String) : Except LexError (Array Token) := (Scanner.empty.push text).scan.1

end CellMachine
