import CellMachine.Binary.Format

/-!
# Floating-point arithmetic

The four operations, negation, order and change of format on the words of a format. Each
operation rounds its exact result once (`Format.ofRatio`), so it is the nearest word there is.
-/

namespace CellMachine.Binary.Format

/-- The word of one. -/
def one (f : Format) : Nat := f.ofRatio 1 1

/-- The same magnitude with the other sign. -/
def neg (f : Format) (a : Nat) : Nat :=
  if a / f.signBit % 2 == 1 then a - f.signBit else a + f.signBit

/-- A mantissa with its sign, in units of `2 ^ low`. -/
def aligned (negative : Bool) (mantissa : Nat) (exponent low : Int) : Int :=
  let m : Int := (mantissa * Nat.pow 2 (exponent - low).toNat : Nat)
  if negative then -m else m

/-- The sum. Opposite numbers add up to plus zero; infinities of opposite sign have no sum. -/
def add (f : Format) (a b : Nat) : Nat :=
  match f.decode a, f.decode b with
  | .nan, _ => f.quietNaN
  | _, .nan => f.quietNaN
  | .infinite s, .infinite t => if s == t then a else f.quietNaN
  | .infinite _, .finite _ _ _ => a
  | .finite _ _ _, .infinite _ => b
  | .finite s m e, .finite t n k =>
    let low := min e k
    let sum := aligned s m e low + aligned t n k low
    if sum == 0 then f.withSign (s && t) 0
    else f.withSign (sum < 0) (f.ofScaled sum.natAbs low)

/-- The difference. -/
def sub (f : Format) (a b : Nat) : Nat := f.add a (f.neg b)

/-- The product. Zero times infinity has none. -/
def mul (f : Format) (a b : Nat) : Nat :=
  match f.decode a, f.decode b with
  | .nan, _ => f.quietNaN
  | _, .nan => f.quietNaN
  | .infinite s, .infinite t => f.withSign (s != t) f.infinity
  | .infinite s, .finite t n _ => if n == 0 then f.quietNaN else f.withSign (s != t) f.infinity
  | .finite s m _, .infinite t => if m == 0 then f.quietNaN else f.withSign (s != t) f.infinity
  | .finite s m e, .finite t n k => f.withSign (s != t) (f.ofScaled (m * n) (e + k))

/-- The quotient. A nonzero number divided by zero is infinite; zero divided by zero and
infinity divided by infinity have no quotient. -/
def div (f : Format) (a b : Nat) : Nat :=
  match f.decode a, f.decode b with
  | .nan, _ => f.quietNaN
  | _, .nan => f.quietNaN
  | .infinite _, .infinite _ => f.quietNaN
  | .infinite s, .finite t _ _ => f.withSign (s != t) f.infinity
  | .finite s _ _, .infinite t => f.withSign (s != t) 0
  | .finite s m e, .finite t n k =>
    if n == 0 then if m == 0 then f.quietNaN else f.withSign (s != t) f.infinity
    else
      let low := min e k
      f.withSign (s != t)
        (f.ofRatio (m * Nat.pow 2 (e - low).toNat) (n * Nat.pow 2 (k - low).toNat))

/-- The order of two words as numbers; the two zeros are equal, and what is no number is not
ordered. -/
def compare? (f : Format) (a b : Nat) : Option Ordering :=
  match f.decode a, f.decode b with
  | .nan, _ => none
  | _, .nan => none
  | .infinite s, .infinite t => some (compare (!s) (!t))
  | .infinite s, .finite _ _ _ => some (if s then .lt else .gt)
  | .finite _ _ _, .infinite t => some (if t then .gt else .lt)
  | .finite s m e, .finite t n k =>
    let low := min e k
    some (compare (aligned s m e low) (aligned t n k low))

/-- The word of `target` nearest to a word of `f`. -/
def convert (f target : Format) (a : Nat) : Nat :=
  match f.decode a with
  | .nan => target.quietNaN
  | .infinite s => target.withSign s target.infinity
  | .finite s m e => target.withSign s (target.ofScaled m e)

end CellMachine.Binary.Format
