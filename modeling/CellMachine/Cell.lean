import CellMachine.Address
import CellMachine.Datatype

/-!
# Cells

A cell is eight bytes of storage that do not record what they hold : the reader supplies the
datatype. A narrow value occupies the low bytes.
-/

namespace CellMachine

/-- An untagged eight-byte slot. -/
structure Cell where
  /-- The bytes of the slot as a little-endian number. -/
  bits : UInt64
  deriving DecidableEq, Repr, Inhabited

namespace Cell

/-- The cell of eight zero bytes. -/
def zero : Cell := ⟨0⟩

/-- The size of a cell in bytes. -/
def size : Nat := 8

/-- The cell whose low bytes are `bs`. Missing bytes are zero, bytes past the eighth are cut. -/
def ofBytes (bs : List UInt8) : Cell := ⟨UInt64.ofNat (ofLittleEndian (bs.take size))⟩

/-- All eight bytes. -/
def raw (c : Cell) : List UInt8 := littleEndian size c.bits.toNat

/-- The low bytes of a cell, as many as a store of `dt` writes. -/
def bytes (c : Cell) (dt : Datatype) : List UInt8 := littleEndian dt.size c.bits.toNat

/-- The cell that holds the bits `v` and zeros above them. -/
def ofBitVec {n : Nat} (v : BitVec n) : Cell := ⟨⟨v.setWidth 64⟩⟩

/-- The low `n` bits of a cell. -/
def low (c : Cell) (n : Nat) : BitVec n := c.bits.toBitVec.setWidth n

/-- The first byte. -/
def byte (c : Cell) : UInt8 := c.bits.toUInt8

/-- A cell read as a boolean : whether its first byte is nonzero. -/
def toBool (c : Cell) : Bool := c.byte != 0

/-- The cell of a boolean, 0 or 1. -/
def ofBool (b : Bool) : Cell := ⟨if b then 1 else 0⟩

/-- A cell read as an address. -/
def toAddress (c : Cell) : Address := ⟨c.bits⟩

/-- The cell of an address. -/
def ofAddress (a : Address) : Cell := ⟨a.bits⟩

/-- A cell read as a datatype code. -/
def toDatatype? (c : Cell) : Option Datatype := Datatype.ofCode? c.byte

/-- The cell of a datatype code. -/
def ofDatatype (dt : Datatype) : Cell := ⟨dt.code.toUInt64⟩

/-- Whether the cell is zero as a `dt`. Both zeros of a floating-point type count. -/
def isZero (c : Cell) : Datatype → Bool
  | .f32 => c.low 31 == 0
  | .f64 => c.low 63 == 0
  | dt => (c.bytes dt).all (· == 0)

@[simp]
theorem length_bytes (c : Cell) (dt : Datatype) : (c.bytes dt).length = dt.size := by
  simp [bytes]

end Cell

end CellMachine
