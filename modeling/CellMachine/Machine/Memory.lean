import CellMachine.Image
import CellMachine.Instruction.Register
import CellMachine.Machine.Config
import CellMachine.Machine.Fault
import CellMachine.Machine.Heap
import CellMachine.Text.Utf8

/-!
# Memory

The address space of a running program : the register file, the stack, a copy of the static
data of every module, their code, which is only read, and the heap. `Memory.locate` finds the
place of an access. An address relative to the frame is looked up with the current frame
pointer at every access.

A `MemoryOp` changes the memory or fails; it gives the memory behind it in either case.
-/

namespace CellMachine

/-- The parts of memory. -/
inductive Region where
  | registers
  | stack
  | static (page : Nat)
  | code (page : Nat)
  /-- The heap block at an offset. -/
  | heap (block : Nat)
  deriving DecidableEq, Repr

/-- The address space of a program. -/
structure Memory where
  registers : Vector UInt8 Register.fileSize
  stack : Buffer
  /-- The size the stack never exceeds. -/
  maxStack : Nat
  /-- The static data of the module on each page. -/
  statics : Array Buffer
  /-- The code of the module on each page. -/
  code : Array Buffer
  heap : Heap
  deriving DecidableEq

/-- An action on the memory. -/
abbrev MemoryOp := EStateM Fault Memory

namespace Memory

/-! ## Registers -/

/-- The content of a register. -/
def register (m : Memory) (r : Register) : Cell :=
  .ofBytes (Buffer.read m.registers.toArray r.offset Cell.size)

/-- Overwrites bytes of the register file. -/
def writeRegisters (m : Memory) (start : Nat) (bytes : List UInt8) : Memory :=
  { m with registers := ⟨Buffer.write m.registers.toArray start bytes, by simp⟩ }

/-- Sets a register. -/
def setRegister (m : Memory) (r : Register) (c : Cell) : Memory := m.writeRegisters r.offset c.raw

/-- The address in a register. -/
def pointer (m : Memory) (r : Register) : Address := (m.register r).toAddress

/-- Sets a register to an address. -/
def setPointer (m : Memory) (r : Register) (a : Address) : Memory :=
  m.setRegister r (.ofAddress a)

/-- The offset of the address in a register. -/
def stackOffset (m : Memory) (r : Register) : Nat := (m.pointer r).offset.toNat

/-- Sets a register to an offset of the stack. -/
def setStackOffset (m : Memory) (r : Register) (offset : Nat) : Memory :=
  m.setPointer r (.make .stack (UInt64.ofNat offset))

/-- The memory of a program before its first instruction. -/
def initial (image : Image) (config : Config) : Memory :=
  let m : Memory := {
    registers := Vector.replicate _ 0
    stack := Buffer.zeros (min config.initialStack config.maxStack)
    maxStack := config.maxStack
    statics := (image.objects.map (·.static)).toArray
    code := (image.objects.map (·.code)).toArray
    heap := .empty }
  let bottom : Address := .make .stack 0
  ((m.setPointer .cp Image.entry).setPointer .sp bottom).setPointer .fp bottom

/-! ## Accesses -/

/-- The bytes of a region. -/
def region (m : Memory) : Region → Buffer
  | .registers => m.registers.toArray
  | .stack => m.stack
  | .static page => m.statics[page]?.getD #[]
  | .code page => m.code[page]?.getD #[]
  | .heap block => (m.heap.block? block).getD #[]

/-- The region an address points into and the place in it, before its bounds are checked. -/
def resolve (m : Memory) (a : Address) (len : Nat) : Except Fault (Region × Nat) :=
  match a.base? with
  | none => .error (.invalidAddress a.bits)
  | some .register => .ok (.registers, a.offset.toNat)
  | some .stack => .ok (.stack, a.offset.toNat)
  | some .frameAdd => .ok (.stack, m.stackOffset .fp + a.offset.toNat)
  | some .frameSub =>
    if a.offset.toNat ≤ m.stackOffset .fp then
      .ok (.stack, m.stackOffset .fp - a.offset.toNat)
    else .error (.outOfBounds a.bits len)
  | some .static =>
    if a.page < m.statics.size then .ok (.static a.page, a.intraOffset.toNat)
    else .error (.invalidAddress a.bits)
  | some .code =>
    if a.page < m.code.size then .ok (.code a.page, a.intraOffset.toNat)
    else .error (.invalidAddress a.bits)
  | some .heap =>
    match m.heap.floor? a.offset.toNat with
    | some (block, _) => .ok (.heap block, a.offset.toNat - block)
    | none => .error (.invalidAddress a.bits)

/-- The region of `len` bytes at an address, and where they start in it. -/
def locate (m : Memory) (a : Address) (len : Nat) : Except Fault (Region × Nat) :=
  match m.resolve a len with
  | .error f => .error f
  | .ok (region, start) =>
    if start + len ≤ (m.region region).size then .ok (region, start)
    else .error (.outOfBounds a.bits len)

/-- Overwrites bytes of a region; code stays as it is. -/
def put (m : Memory) (region : Region) (start : Nat) (bytes : List UInt8) : Memory :=
  match region with
  | .registers => m.writeRegisters start bytes
  | .stack => { m with stack := m.stack.write start bytes }
  | .static page => { m with statics := m.statics.modify page fun b => Buffer.write b start bytes }
  | .code _ => m
  | .heap block => { m with heap := m.heap.write block start bytes }

/-- Reads `len` bytes at an address. -/
def read (m : Memory) (a : Address) (len : Nat) : Except Fault (List UInt8) :=
  match m.locate a len with
  | .ok (region, start) => .ok ((m.region region).read start len)
  | .error f => .error f

/-- The place of a write of `len` bytes, which is not in code. -/
def locateWritable (m : Memory) (a : Address) (len : Nat) : Except Fault (Region × Nat) :=
  match m.locate a len with
  | .ok (.code _, _) => .error (.readOnly "code")
  | r => r

/-- Fails exactly where a write of `len` bytes does. -/
def checkWritable (m : Memory) (a : Address) (len : Nat) : Except Fault Unit :=
  match m.locateWritable a len with
  | .ok _ => .ok ()
  | .error f => .error f

/-- Reads a cell of a datatype. -/
def load (m : Memory) (a : Address) (dt : Datatype) : Except Fault Cell :=
  match m.read a dt.size with
  | .ok bytes => .ok (.ofBytes bytes)
  | .error f => .error f

/-- Reads text up to a zero byte. What is not UTF-8 is replaced. -/
def readText (m : Memory) (a : Address) : Except Fault String :=
  match m.locate a 0 with
  | .error f => .error f
  | .ok (region, start) =>
    let b := m.region region
    let tail := b.read start (b.size - start)
    if tail.contains 0 then .ok (Text.ofUtf8Lossy (tail.takeWhile (· != 0)))
    else .error (.invalidString a.bits)

/-- The heap block that starts at an address. -/
def heapBlock? (m : Memory) (a : Address) : Option Buffer :=
  if a.base? = some .heap then m.heap.block? a.offset.toNat else none

end Memory

namespace MemoryOp

/-- Reads something off the memory. -/
def query {α : Type} (f : Memory → Except Fault α) : MemoryOp α := fun m =>
  match f m with
  | .ok a => .ok a m
  | .error e => .error e m

/-- Overwrites the bytes at an address. -/
def write (a : Address) (bytes : List UInt8) : MemoryOp Unit := fun m =>
  match m.locateWritable a bytes.length with
  | .ok (region, start) => .ok () (m.put region start bytes)
  | .error f => .error f m

/-- Writes a cell of a datatype. -/
def store (a : Address) (dt : Datatype) (c : Cell) : MemoryOp Unit := write a (c.bytes dt)

/-! ## The stack -/

/-- Grows the stack so that it has at least `size` bytes : to twice its size or as far as
needed, within the limit. -/
def reserve (size : Nat) : MemoryOp Unit := fun m =>
  if size ≤ m.stack.size then .ok () m
  else if m.maxStack < size then .error (.stackOverflow m.maxStack) m
  else
    let grown := min (max size (2 * m.stack.size)) m.maxStack
    .ok () { m with stack := m.stack ++ Buffer.zeros (grown - m.stack.size) }

/-- Puts bytes on the stack. -/
def push (bytes : List UInt8) : MemoryOp Unit := do
  let top := (← get).stackOffset .sp
  reserve (top + bytes.length)
  modify fun m => (m.put .stack top bytes).setStackOffset .sp (top + bytes.length)

/-- Takes bytes off the stack. -/
def pop (len : Nat) : MemoryOp (List UInt8) := do
  let m ← get
  let top := m.stackOffset .sp
  if len ≤ top ∧ top ≤ m.stack.size then
    let bytes := m.stack.read (top - len) len
    set (m.setStackOffset .sp (top - len))
    return bytes
  else throw .stackUnderflow

/-- Puts a cell of a datatype on the stack. -/
def pushCell (c : Cell) (dt : Datatype) : MemoryOp Unit := push (c.bytes dt)

/-- Takes a cell of a datatype off the stack. -/
def popCell (dt : Datatype) : MemoryOp Cell := do return .ofBytes (← pop dt.size)

/-- Grows the used part of the stack. -/
def stackAdd (n : Nat) : MemoryOp Unit := do
  let top := (← get).stackOffset .sp + n
  reserve top
  modify (·.setStackOffset .sp top)

/-- Shrinks the used part of the stack. -/
def stackSub (n : Nat) : MemoryOp Unit := do
  let m ← get
  let top := m.stackOffset .sp
  if n ≤ top then set (m.setStackOffset .sp (top - n)) else throw .stackUnderflow

/-- Saves the frame pointer on the stack and starts a frame behind it. -/
def pushFrame : MemoryOp Unit := do
  pushCell ((← get).register .fp) .addr
  modify fun m => m.setRegister .fp (m.register .sp)

/-- Drops the frame and takes the saved frame pointer off the stack. -/
def popFrame : MemoryOp Unit := do
  modify fun m => m.setRegister .sp (m.register .fp)
  let saved ← popCell .addr
  modify (·.setRegister .fp saved)

/-! ## The heap -/

/-- Reserves a block of zero bytes. -/
def alloc (size : Nat) : MemoryOp Address := fun m =>
  match m.heap.alloc? size with
  | some (offset, heap) => .ok (.make .heap (UInt64.ofNat offset)) { m with heap := heap }
  | none => .error .heapExhausted m

/-- Frees the block that starts at an address. -/
def free (a : Address) : MemoryOp Unit := fun m =>
  match if a.base? = some .heap then m.heap.free? a.offset.toNat else none with
  | some heap => .ok () { m with heap := heap }
  | none => .error (.invalidFree a.bits) m

end MemoryOp

end CellMachine
