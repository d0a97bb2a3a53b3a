import CellMachine.Text.Letter
import CellMachine.Value

/-!
# Numeric literals

An integer literal is a sign and a magnitude of at most 64 bits, in decimal or, behind `0x`,
in hexadecimal digits. It gets its size only where it is used. A float literal is read as a
64-bit number.
-/

namespace CellMachine

open Binary (Format)

/-- An integer as it is written. -/
structure IntLiteral where
  negative : Bool
  magnitude : Nat
  deriving DecidableEq, Repr

/-- The value of a hexadecimal digit. -/
def digitValue (c : Char) : Nat :=
  if Text.isDigit c then c.toNat - '0'.toNat
  else if 'a' ≤ c && c ≤ 'f' then c.toNat - 'a'.toNat + 10
  else c.toNat - 'A'.toNat + 10

/-- The number that digits spell in a base. -/
def digitsValue (base : Nat) (digits : List Char) : Nat :=
  digits.foldl (fun n c => base * n + digitValue c) 0

/-- Digits of a base as a number of 64 bits. -/
def readDigits? (base : Nat) (isDigit : Char → Bool) (digits : List Char) : Option Nat :=
  if !digits.isEmpty && digits.all isDigit && digitsValue base digits < UInt64.size then
    some (digitsValue base digits)
  else none

/-- A sign in front of digits, if there is one, and the digits. -/
def splitSign : List Char → Bool × List Char
  | '-' :: rest => (true, rest)
  | '+' :: rest => (false, rest)
  | digits => (false, digits)

namespace IntLiteral

/-- The magnitude that digits spell. -/
def magnitude? : List Char → Option Nat
  | '0' :: 'x' :: digits => readDigits? 16 Text.isHexDigit digits
  | '0' :: 'X' :: digits => readDigits? 16 Text.isHexDigit digits
  | digits => readDigits? 10 Text.isDigit digits

/-- Reads an integer literal. -/
def ofText? (text : String) : Option IntLiteral :=
  let (negative, digits) := splitSign text.toList
  (magnitude? digits).map fun magnitude => ⟨negative, magnitude⟩

/-- The integer of a literal. -/
def toInt (l : IntLiteral) : Int := if l.negative then -(l.magnitude : Int) else l.magnitude

/-- A literal as a value of a datatype, if it is in range. -/
def toValue? (l : IntLiteral) (dt : Datatype) : Option Value := Value.ofInt? l.toInt dt

end IntLiteral

/-- Reads a float literal : digits, a point, and perhaps more digits. -/
def floatLiteral? (text : String) : Option UInt64 :=
  let (negative, digits) := splitSign text.toList
  let whole := digits.takeWhile (· != '.')
  match digits.dropWhile (· != '.') with
  | '.' :: fraction =>
    if (whole ++ fraction).all Text.isDigit && !(whole ++ fraction).isEmpty then
      some (UInt64.ofNat
        (Format.double.ofDecimal negative (digitsValue 10 (whole ++ fraction)) fraction.length))
    else none
  | _ => none

end CellMachine
