import CellMachine.Bytes
import CellMachine.Datatype

/-!
# Call descriptors

The typed arguments of a call are announced by five bytes : their count and one datatype code
of four bits for each, two codes to a byte with the earlier one in the low half.
-/

namespace CellMachine

/-- The count and the datatype codes of a call. Codes beyond the count mean nothing. -/
structure Descriptor where
  count : UInt8
  /-- The codes, the first in the lowest four bits. -/
  codes : UInt32
  deriving DecidableEq, Repr, Inhabited

namespace Descriptor

/-- The most arguments a call can have. -/
def maxArgs : Nat := 8

/-- The size of a descriptor in bytes. -/
def size : Nat := 5

/-- The codes of a list of datatypes as one number. -/
def packCodes : List Datatype → Nat
  | [] => 0
  | dt :: rest => dt.code.toNat + 16 * packCodes rest

/-- The descriptor of a list of argument datatypes, if there are not too many. -/
def ofTypes? (types : List Datatype) : Option Descriptor :=
  if types.length ≤ maxArgs then
    some ⟨UInt8.ofNat types.length, UInt32.ofNat (packCodes types)⟩
  else none

/-- The datatype of argument `i`, absent past the count and for an unused code. -/
def datatype? (d : Descriptor) (i : Nat) : Option Datatype :=
  if i < d.count.toNat then Datatype.ofCode? (UInt8.ofNat (d.codes.toNat / Nat.pow 16 i % 16))
  else none

/-- The five bytes of a descriptor. -/
def toBytes (d : Descriptor) : List UInt8 := d.count :: littleEndian 4 d.codes.toNat

/-- The descriptor that five bytes spell. -/
def ofBytes (bs : List UInt8) : Descriptor :=
  ⟨bs.headD 0, UInt32.ofNat (ofLittleEndian (bs.tail.take 4))⟩

@[simp]
theorem length_toBytes (d : Descriptor) : d.toBytes.length = size := by
  simp [toBytes, size]

end Descriptor

end CellMachine
