import CellMachine.Binary.Format

/-!
# Decimal text of floating-point numbers

`Format.shortest` finds the fewest decimal digits that read back as the same word, and of
those the ones nearest to the number; of two that are equally near it takes the larger.
`Format.text` writes them positionally, never with an exponent. `Format.ofDecimal` reads
digits with a point.
-/

namespace CellMachine.Binary

/-- A decimal number `digits * 10 ^ exponent`. -/
structure Decimal where
  /-- The digits, as one number. -/
  digits : Nat
  /-- The power of ten of the last digit. -/
  exponent : Int
  deriving DecidableEq, Repr

/-- A range of fractions `low / den` to `high / den`, with or without its ends. -/
structure Interval where
  low : Nat
  high : Nat
  den : Nat
  closed : Bool

/-- Whether the fraction `num / scale` lies in the interval. -/
def Interval.contains (i : Interval) (num scale : Nat) : Bool :=
  if i.closed then i.low * scale ≤ num * i.den && num * i.den ≤ i.high * scale
  else i.low * scale < num * i.den && num * i.den < i.high * scale

/-- How many decimal digits `n` has. -/
def digitCount (n : Nat) : Nat := (Nat.toDigits 10 n).length

/-- The greatest `d` with `10 ^ d ≤ num / den`, for a positive fraction. -/
def decimalExponent (num den : Nat) : Int :=
  let e : Int := (digitCount num : Int) - digitCount den
  let reached := if 0 ≤ e then den * Nat.pow 10 e.toNat ≤ num else den ≤ num * Nat.pow 10 (-e).toNat
  if reached then e else e - 1

/-- The decimal in `interval` with the last digit at `10 ^ place` that is nearest to
`num / den`, if there is one. -/
def nearestAt (interval : Interval) (num den : Nat) (place : Int) : Option Decimal :=
  let up := Nat.pow 10 place.toNat
  let down := Nat.pow 10 (-place).toNat
  -- In units of the last place the number is `num * down / (den * up)`.
  let below := num * down / (den * up)
  let rest := num * down % (den * up)
  let inside (n : Nat) := interval.contains (n * up) down
  match inside below, inside (below + 1) with
  | true, true => some ⟨if 2 * rest < den * up then below else below + 1, place⟩
  | true, false => some ⟨below, place⟩
  | false, true => some ⟨below + 1, place⟩
  | false, false => none

/-- Tries one place after the other, from coarse to fine. -/
def searchPlaces (interval : Interval) (num den : Nat) (place : Int) : Nat → Option Decimal
  | 0 => none
  | n + 1 =>
    match nearestAt interval num den place with
    | some d => some d
    | none => searchPlaces interval num den (place - 1) n

namespace Format

/-- The numbers that read as `mantissa * 2 ^ exponent` : up to half the distance to each
neighbour. Below a power of two the neighbour is half as far. An end belongs to the even
mantissa. -/
def roundingInterval (f : Format) (mantissa : Nat) (exponent : Int) : Interval :=
  let scale := Nat.pow 2 exponent.toNat
  let below := if mantissa == Nat.pow 2 f.fractionBits && f.minExponent < exponent then 1 else 2
  ⟨(4 * mantissa - below) * scale, (4 * mantissa + 2) * scale, 4 * Nat.pow 2 (-exponent).toNat,
    mantissa % 2 == 0⟩

/-- The shortest decimal that reads back as the positive number `mantissa * 2 ^ exponent`. It may
be the power of ten above the number. Seventeen digits tell the words of both formats apart. -/
def shortest (f : Format) (mantissa : Nat) (exponent : Int) : Decimal :=
  let num := mantissa * Nat.pow 2 exponent.toNat
  let den := Nat.pow 2 (-exponent).toNat
  let first := decimalExponent num den + 1
  (searchPlaces (f.roundingInterval mantissa exponent) num den first 18).getD ⟨0, 0⟩

end Format

/-- Digits with a point where the last place calls for one, padded with zeros. -/
def Decimal.positional (d : Decimal) : String :=
  let digits := Nat.toDigits 10 d.digits
  if 0 ≤ d.exponent then String.ofList (digits ++ List.replicate d.exponent.toNat '0')
  else
    let places := (-d.exponent).toNat
    let padded := List.replicate (places + 1 - digits.length) '0' ++ digits
    let whole := padded.length - places
    String.ofList (padded.take whole ++ '.' :: padded.drop whole)

namespace Format

/-- The text of a word : the shortest decimal that reads back, without an exponent, with `inf`
and `NaN` for what is not finite. -/
def text (f : Format) (word : Nat) : String :=
  match f.decode word with
  | .nan => "NaN"
  | .infinite negative => if negative then "-inf" else "inf"
  | .finite negative m e =>
    let magnitude := if m == 0 then "0" else (f.shortest m e).positional
    if negative then "-" ++ magnitude else magnitude

/-- The word nearest to the decimal `digits / 10 ^ places`. -/
def ofDecimal (f : Format) (negative : Bool) (digits places : Nat) : Nat :=
  f.withSign negative (f.ofRatio digits (Nat.pow 10 places))

end Format

end CellMachine.Binary
