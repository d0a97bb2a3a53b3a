import CellMachine.Token.Basic

/-!
# Cursors

A cursor is a place in a list of tokens. Beyond the end of the list it keeps standing on the
token for the end of the text.
-/

namespace CellMachine

/-- A place in a list of tokens. -/
structure Cursor where
  tokens : Array Token
  pos : Nat
  deriving DecidableEq, Repr, Inhabited

namespace Cursor

/-- The cursor on a list that has only the end of a text. -/
def empty : Cursor := ⟨#[.endOfCode ⟨0, 0⟩], 0⟩

/-- What stands beyond the end of the list : its last token, if that is the end of a text. -/
def fallback (c : Cursor) : Token :=
  match c.tokens.back? with
  | some t => if t.isEnd then t else .endOfCode ⟨0, 0⟩
  | none => .endOfCode ⟨0, 0⟩

/-- The token at a place of the list. -/
def tokenAt (c : Cursor) (i : Nat) : Token := c.tokens[i]?.getD c.fallback

/-- The token under the cursor. -/
def current (c : Cursor) : Token := c.tokenAt c.pos

/-- The token behind the current one. -/
def peek (c : Cursor) : Token := c.tokenAt (c.pos + 1)

/-- Moves one token forward. -/
def next (c : Cursor) : Cursor :=
  if c.pos < c.tokens.size then { c with pos := c.pos + 1 } else c

/-- Whether the text ends here. -/
def atEnd (c : Cursor) : Bool := c.current.isEnd

/-- How many tokens are left. -/
def remaining (c : Cursor) : Nat := c.tokens.size - c.pos

theorem remaining_next (c : Cursor) : c.next.remaining = c.remaining - 1 := by
  unfold next remaining
  split
  · next h => simp only []; omega
  · next h => omega

end Cursor

end CellMachine
