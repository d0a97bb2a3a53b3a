import CellMachine.Binary.Arithmetic
import CellMachine.Binary.Decimal
import CellMachine.Cell

/-!
# Tagged values

A value is a scalar together with its datatype : symbols, disassembled operands and the
arguments of foreign functions are values, while the machine itself works on untagged cells.
`Value.ofCell?` and `Value.toCell` move between the two. There are two conversions. `fit?`
binds a value to a slot and loses nothing; `cast?` is the conversion of the running machine,
which cuts integers and saturates floating-point numbers.
-/

namespace CellMachine

open Binary (Format)

/-- A scalar with its datatype. Floating-point numbers are kept as their words. -/
inductive Value where
  | int (signed : Bool) (width : Width) (v : BitVec width.bits)
  | f32 (word : UInt32)
  | f64 (word : UInt64)
  | bool (b : Bool)
  | addr (a : Address)
  | type (dt : Datatype)
  deriving DecidableEq, Repr

/-- What a conversion starts from : an integer, or a floating-point number as a 64-bit word. -/
inductive Numeral where
  | integer (n : Int)
  | float (word : Nat)
  deriving DecidableEq, Repr

namespace Value

/-- The datatype of a value. -/
def datatype : Value → Datatype
  | int signed w _ => .int signed w
  | f32 _ => .f32
  | f64 _ => .f64
  | bool _ => .bool
  | addr _ => .addr
  | type _ => .type

/-- The value of type `u64` with the given bits. -/
def ofUInt64 (n : UInt64) : Value := .int false .w64 n.toBitVec

/-- The cell of a value, zero above its size. -/
def toCell : Value → Cell
  | int _ _ v => Cell.ofBitVec v
  | f32 w => ⟨w.toUInt64⟩
  | f64 w => ⟨w⟩
  | bool b => Cell.ofBool b
  | addr a => Cell.ofAddress a
  | type dt => Cell.ofDatatype dt

/-- A cell read as a `dt`. There is no value of datatype `none`, and none for a type cell whose
byte is no datatype code. -/
def ofCell? (dt : Datatype) (c : Cell) : Option Value :=
  match dt with
  | .int signed w => some (.int signed w (c.low w.bits))
  | .f32 => some (.f32 c.bits.toUInt32)
  | .f64 => some (.f64 c.bits)
  | .bool => some (.bool c.toBool)
  | .addr => some (.addr c.toAddress)
  | .type => c.toDatatype?.map .type
  | .none => none

/-- The integer an integer type reads its bits as. -/
def intOf (signed : Bool) {n : Nat} (v : BitVec n) : Int :=
  if signed then v.toInt else v.toNat

/-- The number a value stands for : booleans are 0 and 1, addresses their bits, types their
codes. -/
def toNumeral : Value → Numeral
  | int signed _ v => .integer (intOf signed v)
  | f32 w => .float (Format.single.convert .double w.toNat)
  | f64 w => .float w.toNat
  | bool b => .integer (if b then 1 else 0)
  | addr a => .integer a.bits.toNat
  | type dt => .integer dt.code.toNat

/-- The least integer of a type of `n` bits. -/
def minInt (signed : Bool) (n : Nat) : Int := if signed then -(Nat.pow 2 (n - 1) : Nat) else 0

/-- The greatest integer of a type of `n` bits. -/
def maxInt (signed : Bool) (n : Nat) : Int :=
  if signed then (Nat.pow 2 (n - 1) : Nat) - 1 else (Nat.pow 2 n : Nat) - 1

/-- The 64-bit word of an integer that has one. -/
def word? (n : Int) : Option UInt64 :=
  if 0 ≤ n ∧ n < UInt64.size then some (UInt64.ofNat n.toNat) else none

/-- The datatype whose code is an integer. -/
def datatypeOfInt? (n : Int) : Option Datatype :=
  if 0 ≤ n ∧ n < 256 then Datatype.ofCode? (UInt8.ofNat n.toNat) else none

/-- An integer as a `dt`, if it is in range. Nothing wraps. -/
def ofInt? (n : Int) (dt : Datatype) : Option Value :=
  match dt with
  | .int signed w =>
    if minInt signed w.bits ≤ n ∧ n ≤ maxInt signed w.bits then
      some (.int signed w (BitVec.ofInt w.bits n))
    else none
  | .f32 => some (.f32 (UInt32.ofNat (Format.single.ofInt n)))
  | .f64 => some (.f64 (UInt64.ofNat (Format.double.ofInt n)))
  | .bool => if n = 0 then some (.bool false) else if n = 1 then some (.bool true) else none
  | .addr => (word? n).map fun w => .addr ⟨w⟩
  | .type => (datatypeOfInt? n).map .type
  | .none => none

/-- The conversion of the running machine. Integers are cut to the target's bits, floating-point
numbers are cut toward zero and limited to its range, and addresses count as their bits. A
floating-point number becomes neither an address nor a type, an integer a type only if it is
the code of one, and nothing becomes a `none`. -/
def cast? (v : Value) (dt : Datatype) : Option Value :=
  if v.datatype = dt then some v
  else
    match dt, v.toNumeral with
    | .int signed w, .integer n => some (.int signed w (BitVec.ofInt w.bits n))
    | .int signed w, .float x =>
      let n := (Format.double.decode x).truncateInto (minInt signed w.bits) (maxInt signed w.bits)
      some (.int signed w (BitVec.ofInt w.bits n))
    | .f32, .integer n => some (.f32 (UInt32.ofNat (Format.single.ofInt n)))
    | .f32, .float x => some (.f32 (UInt32.ofNat (Format.double.convert .single x)))
    | .f64, .integer n => some (.f64 (UInt64.ofNat (Format.double.ofInt n)))
    | .f64, .float x => some (.f64 (UInt64.ofNat x))
    | .bool, .integer n => some (.bool (n != 0))
    | .bool, .float x => some (.bool (Format.double.decode x).isNonzero)
    | .addr, .integer n => some (.addr ⟨⟨BitVec.ofInt 64 n⟩⟩)
    | .addr, .float _ => none
    | .type, .integer n => (datatypeOfInt? n).map .type
    | .type, .float _ => none
    | .none, _ => none

/-- The conversion that binds a symbol to a slot. Integers have to be in range, floating-point
numbers become only floating-point numbers, and addresses only integers of their own size. -/
def fit? (v : Value) (dt : Datatype) : Option Value :=
  if v.datatype = dt then some v
  else
    match v with
    | f32 _ | f64 _ => if dt.isFloat then v.cast? dt else none
    | addr _ => if dt = .u64 then v.cast? dt else none
    | _ =>
      match v.toNumeral with
      | .integer n => ofInt? n dt
      | .float _ => none

/-- Adds a fractional digit to the text of a finite number that has none. -/
def withPoint (finite : Bool) (text : String) : String :=
  if !finite || text.contains '.' then text else text ++ ".0"

/-- The text of a value in the form the assembler reads. -/
def text : Value → String
  | int signed _ v => toString (intOf signed v)
  | f32 w => withPoint (Format.single.decode w.toNat).isFinite (Format.single.text w.toNat)
  | f64 w => withPoint (Format.double.decode w.toNat).isFinite (Format.double.text w.toNat)
  | bool b => if b then "1" else "0"
  | addr a => toString a.bits.toNat
  | type dt => dt.name

end Value

end CellMachine
