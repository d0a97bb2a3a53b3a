import CellMachine.Machine.Fault
import CellMachine.Value

/-!
# Arithmetic on cells

The operations of the machine on untagged cells. The caller supplies the datatype, and there is
no promotion between widths. Integers wrap around; a zero divisor faults. Floating-point types
have no bitwise operations, booleans only those, and an address can be moved by a signed number
of bytes.
-/

namespace CellMachine

open Binary (Format)

/-- An integer operation on `w` bits; there is none where a divisor is zero. Division is cut
toward zero, and the remainder has the sign of the dividend. A shift is by the right operand
modulo `w`. -/
def BinaryOp.onInts (op : BinaryOp) (signed : Bool) {w : Nat} (x y : BitVec w) :
    Option (BitVec w) :=
  match op with
  | add => some (x + y)
  | sub => some (x - y)
  | mul => some (x * y)
  | div => if y = 0 then none else some (if signed then x.sdiv y else x.udiv y)
  | mod => if y = 0 then none else some (if signed then x.srem y else x.umod y)
  | and => some (x &&& y)
  | or => some (x ||| y)
  | xor => some (x ^^^ y)
  | shl => some (x <<< (y.toNat % w))
  | shr => some (if signed then x.sshiftRight (y.toNat % w) else x >>> (y.toNat % w))

/-- An operation on words of a floating-point format; there is none for bits. -/
def BinaryOp.onFloats (op : BinaryOp) (f : Format) (x y : Nat) : Option Nat :=
  match op with
  | add => some (f.add x y)
  | sub => some (f.sub x y)
  | mul => some (f.mul x y)
  | div => some (f.div x y)
  | mod => some (f.remainder x y)
  | _ => none

/-- An operation on truth values. -/
def BinaryOp.onBools (op : BinaryOp) (x y : Bool) : Option Bool :=
  match op with
  | and => some (x && y)
  | or => some (x || y)
  | xor => some (x != y)
  | _ => none

/-- An operation on an address and a signed number of bytes. -/
def BinaryOp.onAddress (op : BinaryOp) (a : Address) (delta : Int64) : Option Address :=
  match op with
  | add => some (a.add delta)
  | sub => some (a.add (-delta))
  | _ => none

/-- `a op b` for cells of datatype `dt`. -/
def BinaryOp.apply (op : BinaryOp) (dt : Datatype) (a b : Cell) : Except Fault Cell :=
  let missing : Fault := .notImplemented op.name dt
  match dt with
  | .int signed w =>
    match op.onInts signed (a.low w.bits) (b.low w.bits) with
    | some v => .ok (.ofBitVec v)
    | none => .error .divisionByZero
  | .f32 =>
    match op.onFloats .single (a.low 32).toNat (b.low 32).toNat with
    | some x => .ok ⟨UInt64.ofNat x⟩
    | none => .error missing
  | .f64 =>
    match op.onFloats .double a.bits.toNat b.bits.toNat with
    | some x => .ok ⟨UInt64.ofNat x⟩
    | none => .error missing
  | .bool =>
    match op.onBools a.toBool b.toBool with
    | some x => .ok (.ofBool x)
    | none => .error missing
  | .addr =>
    match op.onAddress a.toAddress b.bits.toInt64 with
    | some x => .ok (.ofAddress x)
    | none => .error missing
  | .type | .none => .error missing

/-- An integer operation on `w` bits. -/
def UnaryOp.onInt (op : UnaryOp) {w : Nat} (x : BitVec w) : BitVec w :=
  match op with
  | neg => -x
  | not => ~~~x
  | inc => x + 1
  | dec => x - 1

/-- An operation on a word of a floating-point format. -/
def UnaryOp.onFloat (op : UnaryOp) (f : Format) (x : Nat) : Option Nat :=
  match op with
  | neg => some (f.neg x)
  | inc => some (f.add x f.one)
  | dec => some (f.sub x f.one)
  | not => none

/-- `op a` for a cell of datatype `dt`. -/
def UnaryOp.apply (op : UnaryOp) (dt : Datatype) (a : Cell) : Except Fault Cell :=
  let missing : Fault := .notImplemented op.name dt
  match dt, op with
  | .int _ w, op => .ok (.ofBitVec (op.onInt (a.low w.bits)))
  | .f32, op =>
    match op.onFloat .single (a.low 32).toNat with
    | some x => .ok ⟨UInt64.ofNat x⟩
    | none => .error missing
  | .f64, op =>
    match op.onFloat .double a.bits.toNat with
    | some x => .ok ⟨UInt64.ofNat x⟩
    | none => .error missing
  | .bool, .not => .ok (.ofBool !a.toBool)
  | .addr, .inc => .ok (.ofAddress (a.toAddress.add 1))
  | .addr, .dec => .ok (.ofAddress (a.toAddress.add (-1)))
  | _, _ => .error missing

/-- Whether a comparison holds for two operands in a given order. Operands without an order
are only unequal. -/
def CompareOp.holds (op : CompareOp) : Option Ordering → Bool
  | none => op == ne
  | some o =>
    match op with
    | eq => o.isEq
    | ne => o.isNe
    | lt => o.isLT
    | le => o.isLE
    | gt => o.isGT
    | ge => o.isGE

/-- `a op b` for cells of datatype `dt`. Types are only equal or unequal. -/
def CompareOp.apply (op : CompareOp) (dt : Datatype) (a b : Cell) : Except Fault Bool :=
  match dt with
  | .int signed w =>
    .ok (op.holds (some (compare (Value.intOf signed (a.low w.bits))
      (Value.intOf signed (b.low w.bits)))))
  | .f32 => .ok (op.holds (Format.single.compare? (a.low 32).toNat (b.low 32).toNat))
  | .f64 => .ok (op.holds (Format.double.compare? a.bits.toNat b.bits.toNat))
  | .bool => .ok (op.holds (some (compare a.toBool b.toBool)))
  | .addr => .ok (op.holds (some (compare a.bits b.bits)))
  | .type =>
    if op = .eq ∨ op = .ne then .ok (op.holds (some (compare a.byte b.byte)))
    else .error (.notImplemented "compare" dt)
  | .none => .error (.notImplemented "compare" dt)

/-- Reads a cell as a value of datatype `source` and converts it to `target`. -/
def convertCell (source target : Datatype) (c : Cell) : Except Fault Cell :=
  match Value.ofCell? source c with
  | none =>
    if source = .type then .error (.invalidDatatype c.byte)
    else .error (.notImplemented "convert" source)
  | some v =>
    match v.cast? target with
    | some v => .ok v.toCell
    | none => .error (.notImplemented "convert" target)

end CellMachine
