import CellMachine.Cell
import CellMachine.Instruction.Descriptor
import CellMachine.Instruction.Opcode

/-!
# Encoded instructions

An instruction is encoded as its opcode byte, its datatype code, a mask of two bytes with one
bit per dereferenced operand, and the operands in the order of its layout, each cut to the size
of the datatype it is encoded with. For `call` and `foreign` a descriptor and the typed
arguments follow.

`Instruction.encode` writes an instruction and `decode` reads the one at an offset of a code
buffer. An instruction takes at least the four bytes of its header (`headerSize_le_size`).
-/

namespace CellMachine

/-- Why the bytes at an offset are no instruction. -/
inductive DecodeError where
  | unknownOpcode (byte : UInt8) (offset : Nat)
  | unknownDatatype (code : UInt8) (offset : Nat)
  | truncated (offset : Nat)
  | badDescriptor (offset : Nat)
  deriving DecidableEq, Repr, Inhabited

/-- The text of a decoding error. -/
def DecodeError.message : DecodeError → String
  | unknownOpcode byte offset =>
    "unknown opcode 0x" ++ hexByte byte ++ " at offset " ++ toString offset
  | unknownDatatype code offset =>
    "unknown datatype code " ++ toString code.toNat ++ " at offset " ++ toString offset
  | truncated offset => "instruction truncated at offset " ++ toString offset
  | badDescriptor offset => "malformed call descriptor at offset " ++ toString offset

/-- An encoded operand. -/
structure Operand where
  role : Role
  /-- The datatype the operand is encoded with. -/
  datatype : Datatype
  deref : Bool
  cell : Cell
  deriving DecidableEq, Repr, Inhabited

/-- An instruction with its operands as untagged cells. -/
structure Instruction where
  opcode : Opcode
  datatype : Datatype
  /-- Bit `i` says whether operand `i` is dereferenced. -/
  mask : UInt16
  /-- The operands of the layout. -/
  fixed : List Operand
  /-- The descriptor of a variadic instruction. -/
  descriptor : Option Descriptor
  /-- The typed arguments of a variadic instruction. -/
  args : List Operand
  deriving DecidableEq, Repr, Inhabited

/-- The size of an instruction without its operands. -/
def headerSize : Nat := 4

/-- The first four bytes of an instruction. -/
def encodeHeader (op : Opcode) (dt : Datatype) (mask : UInt16) : List UInt8 :=
  op.byte :: dt.code :: littleEndian 2 mask.toNat

/-- The bytes of an operand. -/
def Operand.encode (o : Operand) : List UInt8 := o.cell.bytes o.datatype

/-- The bytes of some operands, one after the other. -/
def encodeOperands (os : List Operand) : List UInt8 := os.flatMap Operand.encode

/-- The size of some operands in bytes. -/
def operandsSize (os : List Operand) : Nat := Datatype.totalSize (os.map (·.datatype))

namespace Instruction

/-- All operands, those of the layout first. -/
def operands (i : Instruction) : List Operand := i.fixed ++ i.args

/-- The bytes of the descriptor, if there is one. -/
def encodeDescriptor (i : Instruction) : List UInt8 :=
  match i.descriptor with
  | some d => d.toBytes
  | none => []

/-- The bytes of an instruction. -/
def encode (i : Instruction) : List UInt8 :=
  encodeHeader i.opcode i.datatype i.mask ++ encodeOperands i.fixed ++ i.encodeDescriptor
    ++ encodeOperands i.args

/-- The size of an instruction in bytes. -/
def size (i : Instruction) : Nat :=
  headerSize + operandsSize i.fixed + (if i.descriptor.isSome then Descriptor.size else 0)
    + operandsSize i.args

theorem headerSize_le_size (i : Instruction) : headerSize ≤ i.size := by
  unfold size
  omega

end Instruction

theorem length_encodeOperands (os : List Operand) :
    (encodeOperands os).length = operandsSize os := by
  induction os with
  | nil => rfl
  | cons o rest ih =>
    simp only [encodeOperands, operandsSize, List.flatMap_cons, List.length_append,
      List.map_cons, Datatype.totalSize] at ih ⊢
    rw [ih]
    simp [Operand.encode]

theorem Instruction.length_encode (i : Instruction) : i.encode.length = i.size := by
  unfold Instruction.encode Instruction.size
  simp only [List.length_append, length_encodeOperands]
  have hheader : (encodeHeader i.opcode i.datatype i.mask).length = headerSize := by
    simp [encodeHeader, headerSize]
  have hdesc : i.encodeDescriptor.length = if i.descriptor.isSome then Descriptor.size else 0 := by
    unfold Instruction.encodeDescriptor
    cases i.descriptor <;> simp
  rw [hheader, hdesc]

/-! ## Reading -/

/-- The `n` bytes at `pos` of a code buffer. -/
def takeBytes (code : Buffer) (pos n : Nat) : Except DecodeError (List UInt8) :=
  if pos + n ≤ code.size then .ok (code.read pos n) else .error (.truncated pos)

/-- Bit `index` of a mask. -/
def maskBit (mask : UInt16) (index : Nat) : Bool := mask.toNat.testBit index

/-- One bit per operand, that of the first lowest. -/
def derefBits : List Operand → Nat
  | [] => 0
  | o :: rest => o.deref.toNat + 2 * derefBits rest

/-- The mask of some operands. -/
def maskOf (os : List Operand) : UInt16 := UInt16.ofNat (derefBits os)

/-- Reads operand `index` at `pos`. -/
def readOperand (code : Buffer) (dt : Datatype) (mask : UInt16) (role : Role) (index pos : Nat) :
    Except DecodeError Operand := do
  let deref := maskBit mask index
  let encoded := role.encodedDatatype dt deref
  let bytes ← takeBytes code pos encoded.size
  return ⟨role, encoded, deref, Cell.ofBytes bytes⟩

/-- Reads operands with the given roles, the first being operand `index`. -/
def readFixed (code : Buffer) (dt : Datatype) (mask : UInt16) (index pos : Nat) :
    List Role → Except DecodeError (List Operand)
  | [] => .ok []
  | role :: rest => do
    let o ← readOperand code dt mask role index pos
    let os ← readFixed code dt mask (index + 1) (pos + o.datatype.size) rest
    return o :: os

/-- Reads the typed arguments `i`, `i + 1`, … that the descriptor at `descriptorAt` announces,
the first being operand `index`. -/
def readArgs (code : Buffer) (dt : Datatype) (mask : UInt16) (d : Descriptor)
    (descriptorAt i index pos : Nat) : Nat → Except DecodeError (List Operand)
  | 0 => .ok []
  | n + 1 =>
    match d.datatype? i with
    | none | some .none => .error (.badDescriptor descriptorAt)
    | some t => do
      let o ← readOperand code dt mask (.typed t) index pos
      let os ← readArgs code dt mask d descriptorAt (i + 1) (index + 1)
        (pos + o.datatype.size) n
      return o :: os

/-- Reads the instruction at `pos`. -/
def decode (code : Buffer) (pos : Nat) : Except DecodeError Instruction := do
  let b := (← takeBytes code pos 1).headD 0
  let op ←
    match Opcode.ofByte? b with
    | some op => .ok op
    | none => .error (.unknownOpcode b pos)
  let c := (← takeBytes code (pos + 1) 1).headD 0
  let dt ←
    match Datatype.ofCode? c with
    | some dt => .ok dt
    | none => .error (.unknownDatatype c (pos + 1))
  let mask := UInt16.ofNat (ofLittleEndian (← takeBytes code (pos + 2) 2))
  let fixed ← readFixed code dt mask 0 (pos + headerSize) (op.fixedRoles dt)
  if op.layout.variadic then
    let descriptorAt := pos + headerSize + operandsSize fixed
    let d := Descriptor.ofBytes (← takeBytes code descriptorAt Descriptor.size)
    if Descriptor.maxArgs < d.count.toNat then
      .error (.badDescriptor descriptorAt)
    else
      let args ← readArgs code dt mask d descriptorAt 0 fixed.length
        (descriptorAt + Descriptor.size) d.count.toNat
      return ⟨op, dt, mask, fixed, some d, args⟩
  else
    return ⟨op, dt, mask, fixed, none, []⟩

/-! ## Single slots -/

/-- The cell of a `dt` at `offset`, if it lies inside the code. -/
def readCell? (code : Buffer) (offset : Nat) (dt : Datatype) : Option Cell :=
  if offset + dt.size ≤ code.size then some (Cell.ofBytes (code.read offset dt.size)) else none

/-- Overwrites the slot of a `dt` at `offset`, if it lies inside the code. -/
def patchCell? (code : Buffer) (offset : Nat) (c : Cell) (dt : Datatype) : Option Buffer :=
  if offset + dt.size ≤ code.size then some (code.write offset (c.bytes dt)) else none

/-- Sets the mask of the instruction whose header is at `pos`. -/
def patchMask (code : Buffer) (pos : Nat) (mask : UInt16) : Buffer :=
  code.write (pos + 2) (littleEndian 2 mask.toNat)

end CellMachine
