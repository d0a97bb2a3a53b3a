/-!
# Binary floating-point formats

A format has a fraction and an exponent field; a word of it is a sign, a biased exponent and a
fraction. `Format.decode` gives the number a word stands for as `mantissa * 2 ^ exponent`, and
`Format.ofRatio` rounds a fraction of two natural numbers to the nearest word, to the even one
of two that are equally near. Everything is exact arithmetic on natural numbers.
-/

namespace CellMachine.Binary

/-- The widths of the two fields below the sign. -/
structure Format where
  /-- Bits of the fraction. -/
  fractionBits : Nat
  /-- Bits of the biased exponent. -/
  exponentBits : Nat
  deriving DecidableEq, Repr

/-- What a word of a format stands for. A finite number is `mantissa * 2 ^ exponent`. -/
inductive Number where
  | nan
  | infinite (negative : Bool)
  | finite (negative : Bool) (mantissa : Nat) (exponent : Int)
  deriving DecidableEq, Repr, Inhabited

namespace Format

/-- The 32-bit format. -/
def single : Format := ⟨23, 8⟩

/-- The 64-bit format. -/
def double : Format := ⟨52, 11⟩

/-- The word of plus zero with the sign bit set. -/
def signBit (f : Format) : Nat := Nat.pow 2 (f.fractionBits + f.exponentBits)

/-- The word of plus infinity. -/
def infinity (f : Format) : Nat := (Nat.pow 2 f.exponentBits - 1) * Nat.pow 2 f.fractionBits

/-- A word that is no number. -/
def quietNaN (f : Format) : Nat := f.infinity + Nat.pow 2 (f.fractionBits - 1)

/-- The exponent of the last place of the smallest numbers. -/
def minExponent (f : Format) : Int :=
  3 - (Nat.pow 2 (f.exponentBits - 1) : Nat) - (f.fractionBits + 1 : Nat)

/-- The number a word stands for. -/
def decode (f : Format) (word : Nat) : Number :=
  let negative := word / f.signBit % 2 == 1
  let biased := word / Nat.pow 2 f.fractionBits % Nat.pow 2 f.exponentBits
  let fraction := word % Nat.pow 2 f.fractionBits
  if biased == Nat.pow 2 f.exponentBits - 1 then
    if fraction == 0 then .infinite negative else .nan
  else if biased == 0 then .finite negative fraction f.minExponent
  else .finite negative (Nat.pow 2 f.fractionBits + fraction) (f.minExponent + (biased - 1 : Nat))

/-- The word of a magnitude with a sign in front. -/
def withSign (f : Format) (negative : Bool) (word : Nat) : Nat :=
  if negative then f.signBit + word else word

/-- `a / b` rounded to the nearest natural number, a half to the even one. -/
def roundEven (a b : Nat) : Nat :=
  let q := a / b
  let r := a % b
  if 2 * r < b then q
  else if b < 2 * r then q + 1
  else if q % 2 == 0 then q else q + 1

/-- The exponent of the leading bit of `num / den` : the greatest `e` with `2 ^ e * den ≤ num`. -/
def leadingExponent (num den : Nat) : Int :=
  let e : Int := (num.log2 : Int) - den.log2
  let reached := if 0 ≤ e then den * Nat.pow 2 e.toNat ≤ num else den ≤ num * Nat.pow 2 (-e).toNat
  if reached then e else e - 1

/-- The word nearest to `num / den`. Magnitudes beyond the largest finite one give infinity. -/
def ofRatio (f : Format) (num den : Nat) : Nat :=
  if num == 0 then 0
  else
    let e := max f.minExponent (leadingExponent num den - f.fractionBits)
    let mantissa :=
      if 0 ≤ e then roundEven num (den * Nat.pow 2 e.toNat)
      else roundEven (num * Nat.pow 2 (-e).toNat) den
    -- A mantissa that rounds up to the next power of two carries into the exponent field.
    min f.infinity ((e - f.minExponent).toNat * Nat.pow 2 f.fractionBits + mantissa)

/-- The word nearest to `mantissa * 2 ^ exponent`. -/
def ofScaled (f : Format) (mantissa : Nat) (exponent : Int) : Nat :=
  if 0 ≤ exponent then f.ofRatio (mantissa * Nat.pow 2 exponent.toNat) 1
  else f.ofRatio mantissa (Nat.pow 2 (-exponent).toNat)

/-- The word nearest to an integer. -/
def ofInt (f : Format) (n : Int) : Nat :=
  f.withSign (n < 0) (f.ofRatio n.natAbs 1)

/-- The remainder of `a / b` with the quotient cut toward zero. It has the sign of `a` and is
exact; there is none for an infinite `a` or a zero `b`. -/
def remainder (f : Format) (a b : Nat) : Nat :=
  match f.decode a, f.decode b with
  | .finite negative m e, .finite _ m' e' =>
    if m' == 0 then f.quietNaN
    else
      let low := min e e'
      let rest := m * Nat.pow 2 (e - low).toNat % (m' * Nat.pow 2 (e' - low).toNat)
      f.withSign negative (f.ofScaled rest low)
  | .finite _ _ _, .infinite _ => a
  | _, _ => f.quietNaN

end Format

namespace Number

/-- The integer part of a number, cut toward zero and limited to the range from `lo` to `hi`.
What is no number counts as zero. -/
def truncateInto (lo hi : Int) : Number → Int
  | .nan => 0
  | .infinite negative => if negative then lo else hi
  | .finite negative m e =>
    let magnitude : Int :=
      if 0 ≤ e then (m * Nat.pow 2 e.toNat : Nat) else (m / Nat.pow 2 (-e).toNat : Nat)
    max lo (min hi (if negative then -magnitude else magnitude))

/-- Whether a number differs from zero; what is no number does. -/
def isNonzero : Number → Bool
  | .finite _ m _ => m != 0
  | _ => true

/-- Whether a number is neither infinite nor missing. -/
def isFinite : Number → Bool
  | .finite _ _ _ => true
  | _ => false

end Number

end CellMachine.Binary
