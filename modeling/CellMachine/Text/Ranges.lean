/-!
# Sets of code points

A property of characters is given as the ranges of code points that have it, in order.
-/

namespace CellMachine.Text

/-- Ranges of code points with both ends included, in ascending order. -/
abbrev Ranges := List (Nat × Nat)

/-- Whether a code point lies in one of the ranges. -/
def Ranges.contains (n : Nat) : Ranges → Bool
  | [] => false
  | (lo, hi) :: rest => if n < lo then false else n ≤ hi || Ranges.contains n rest

end CellMachine.Text
