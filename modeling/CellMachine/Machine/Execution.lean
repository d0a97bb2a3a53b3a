import CellMachine.Instruction.Encoding
import CellMachine.Machine.Arithmetic
import CellMachine.Machine.State

/-!
# Execution of instructions

One action for every kind of instruction, and `Exec.execute`, which chooses among them. Operands
are evaluated from left to right, and memory is written last.
-/

namespace CellMachine.Exec

/-! ## Operands -/

/-- The place that an address operand names. -/
def place (o : Operand) : Exec Address :=
  if o.deref then do return (← query (·.load o.cell.toAddress .addr)).toAddress
  else return o.cell.toAddress

/-- The value of an operand read as a datatype. -/
def value (o : Operand) (dt : Datatype) : Exec Cell :=
  if o.deref then query (·.load o.cell.toAddress dt) else return o.cell

/-- Writes a cell of a datatype. -/
def store (a : Address) (dt : Datatype) (c : Cell) : Exec Unit := ofMemory (.store a dt c)

/-- The datatype that a type operand names. -/
def namedType (o : Operand) : Exec Datatype := do
  match (← value o .type).toDatatype? with
  | some dt => return dt
  | none => throw (.invalidDatatype o.cell.byte)

/-- The datatype that a call argument is passed with. -/
def argumentType (o : Operand) : Datatype :=
  match o.role with
  | .typed dt => dt
  | _ => o.datatype

/-- The values of call arguments with their datatypes. -/
def arguments : List Operand → Exec (List (Datatype × Cell))
  | [] => return []
  | o :: rest => do
    let c ← value o (argumentType o)
    return (argumentType o, c) :: (← arguments rest)

/-! ## Data -/

/-- Moves a value to a place. -/
def mov (dt : Datatype) (dst src : Operand) : Exec Unit := do
  let a ← place dst
  store a dt (← value src dt.ofValueOperand)

/-- Converts a value from the named type. A value that is not in memory was converted when the
instruction was made. -/
def convert (dt : Datatype) (dst type src : Operand) : Exec Unit := do
  let a ← place dst
  let source ← namedType type
  let v ← value src source
  store a dt (← ofExcept (convertCell (if src.deref then source else dt) dt v))

/-- Copies bytes, which may overlap. -/
def copy (dt : Datatype) (dst src len : Operand) : Exec Unit := do
  let a ← place dst
  let b ← place src
  let n ← value len dt.ofValueOperand
  ofMemory (.write a (← query (·.read b n.bits.toNat)))

/-- Combines what is at a place with a value. -/
def binary (op : BinaryOp) (dt : Datatype) (dst src : Operand) : Exec Unit := do
  let a ← place dst
  let x ← query (·.load a dt)
  let y ← value src dt.ofValueOperand
  store a dt (← ofExcept (op.apply dt x y))

/-- Changes what is at a place. -/
def unary (op : UnaryOp) (dt : Datatype) (dst : Operand) : Exec Unit := do
  let a ← place dst
  let x ← query (·.load a dt)
  store a dt (← ofExcept (op.apply dt x))

/-- Stores whether a comparison holds. -/
def compare (op : CompareOp) (dt : Datatype) (dst left right : Operand) : Exec Unit := do
  let a ← place dst
  let x ← value left dt.ofValueOperand
  let y ← value right dt.ofValueOperand
  store a .bool (.ofBool (← ofExcept (op.apply dt x y)))

/-! ## Control -/

/-- Jumps if the value is nonzero, or if it is zero. -/
def branch (onNonzero : Bool) (dt : Datatype) (target condition : Operand) : Exec Unit := do
  let a ← place target
  let v ← value condition dt.ofValueOperand
  if (!v.isZero dt) == onNonzero then jump a

/-- Counts the loop counter down and jumps unless it became zero. -/
def loop (target : Operand) : Exec Unit := do
  let a ← place target
  let count := ((← get).register .lc).bits - 1
  modify (·.updateMemory (·.setRegister .lc ⟨count⟩))
  if count ≠ 0 then jump a

/-- Puts call arguments on the stack, the first one at the bottom. -/
def pushArguments : List (Datatype × Cell) → Exec Unit
  | [] => return ()
  | (dt, c) :: rest => do
    ofMemory (.pushCell c dt)
    pushArguments rest

/-- Calls a function : the arguments, their size and the address to return to go on the
stack. -/
def call (target : Operand) (args : List Operand) (next : Address) : Exec Unit := do
  let a ← place target
  let values ← arguments args
  pushArguments values
  let total := Datatype.totalSize (values.map (·.1))
  ofMemory (.pushCell ⟨UInt64.ofNat total⟩ .u64)
  ofMemory (.pushCell (.ofAddress next) .addr)
  jump a

/-- Returns from a function and drops its arguments. -/
def ret : Exec Unit := do
  let back ← ofMemory (.popCell .addr)
  let size ← ofMemory (.popCell .u64)
  ofMemory (.stackSub size.bits.toNat)
  jump back.toAddress

/-! ## Foreign calls -/

/-- The foreign function that is kept for a call, if there is one. -/
def kept (site : CallSite) : Exec (Option ForeignFunction) := do
  return ((← get).cache.find? (·.1 == site)).map (·.2)

/-- Keeps a foreign function for a call. -/
def keep (site : CallSite) (f : ForeignFunction) : Exec Unit :=
  modify fun s => { s with cache := (site, f) :: s.cache }

/-- Asks the registry for the foreign function of a call. -/
def askRegistry (site : CallSite) : Exec ForeignFunction := do
  match (← get).registry site.2 with
  | .error e => throw e.toFault
  | .ok none => throw (.foreignNotFound site.2)
  | .ok (some f) => return f

/-- The foreign function of a call : the one that is kept, or else the one that `ask` gives, which
is kept from then on. `lift` carries out what the machine does. -/
def findWith {m : Type → Type} [Monad m] (lift : {α : Type} → Exec α → m α)
    (ask : CallSite → m ForeignFunction) (site : CallSite) : m ForeignFunction := do
  match ← lift (kept site) with
  | some f => return f
  | none => do
    let f ← ask site
    lift (keep site f)
    return f

/-- The foreign function of a name, from the cache if it was called here before. -/
def findForeign (site : CallSite) : Exec ForeignFunction := findWith id askRegistry site

/-- The tagged values of call arguments. -/
def taggedArguments : List (Datatype × Cell) → Except Fault (List Value)
  | [] => .ok []
  | (dt, c) :: rest =>
    match Value.ofCell? dt c with
    | none => .error (.invalidDatatype c.byte)
    | some v => (taggedArguments rest).map (v :: ·)

/-- The place for the result of a foreign call, if it asks for one. -/
def resultSlot (dt : Datatype) : Option Operand → Exec (Option Address)
  | none => return none
  | some o => do
    let a ← place o
    query (·.checkWritable a dt.size)
    return some a

/-- Stores the result of a foreign call, if there is one and the call asks for it. -/
def storeResult (name : String) (dt : Datatype) : Option Address → Option Value → Exec Unit
  | some a, some v =>
    match v.cast? dt with
    | some v => store a dt v.toCell
    | none => throw (.foreign ("'" ++ name ++ "' returned " ++ v.text ++ " for " ++ dt.name))
  | _, _ => return ()

/-- A foreign call of which everything but the call itself has been done. -/
structure ForeignCall where
  name : String
  function : ForeignFunction
  data : CallData
  /-- The place for the result. -/
  slot : Option Address

/-- Gets a foreign call ready. Only a function that is granted is looked up. -/
def prepareForeign (dt : Datatype) (target : Operand) (slot : Option Operand)
    (args : List Operand) (cp : Address) : Exec ForeignCall := do
  let a ← place target
  let name ← query (·.readText a)
  if (← get).config.isGranted name then
    let f ← findForeign (cp, name)
    let values ← arguments args
    if values.length = f.arity then
      let tagged ← ofExcept (taggedArguments values)
      let slot ← resultSlot dt slot
      return ⟨name, f, ⟨dt, tagged⟩, slot⟩
    else throw (.foreignArity name f.arity values.length)
  else throw (.permissionDenied name)

/-- Carries out a foreign call that is ready. -/
def invokeForeign (c : ForeignCall) : Exec Unit := do
  let result ← ofHost (c.function.call c.data)
  storeResult c.name c.data.returnType c.slot result

/-- Calls a foreign function. -/
def foreignCall (dt : Datatype) (target : Operand) (slot : Option Operand) (args : List Operand)
    (cp : Address) : Exec Unit := do
  invokeForeign (← prepareForeign dt target slot args cp)

/-! ## The stack and the heap -/

/-- Puts a value on the stack. -/
def push (dt : Datatype) (src : Operand) : Exec Unit := do
  ofMemory (.pushCell (← value src dt.ofValueOperand) dt)

/-- Takes a value off the stack. -/
def pop (dt : Datatype) (dst : Operand) : Exec Unit := do
  let a ← place dst
  store a dt (← ofMemory (.popCell dt))

/-- Grows the used part of the stack. -/
def stackAdd (dt : Datatype) (size : Operand) : Exec Unit := do
  let n ← value size dt.ofValueOperand
  ofMemory (.stackAdd n.bits.toNat)

/-- Shrinks the used part of the stack. -/
def stackSub (dt : Datatype) (size : Operand) : Exec Unit := do
  let n ← value size dt.ofValueOperand
  ofMemory (.stackSub n.bits.toNat)

/-- Reserves a heap block. Its address can be stored, or else there is no block. -/
def alloc (dt : Datatype) (dst size : Operand) : Exec Unit := do
  let a ← place dst
  let n ← value size dt.ofValueOperand
  query (·.checkWritable a Datatype.addr.size)
  let block ← ofMemory (.alloc n.bits.toNat)
  store a .addr (.ofAddress block)

/-- Frees a heap block. -/
def free (target : Operand) : Exec Unit := do
  ofMemory (.free (← place target))

/-! ## All instructions -/

/-- What an instruction at `cp` does, with `next` behind it. An instruction has the operands of its
layout, so that the last case is empty. -/
def perform (i : Instruction) (cp next : Address) : Exec Unit :=
  match i.opcode, i.fixed with
  | .mov, [dst, src] => mov i.datatype dst src
  | .convert, [dst, type, src] => convert i.datatype dst type src
  | .copy, [dst, src, len] => copy i.datatype dst src len
  | .binary op, [dst, src] => binary op i.datatype dst src
  | .unary op, [dst] => unary op i.datatype dst
  | .compare op, [dst, left, right] => compare op i.datatype dst left right
  | .jmp, [target] => do jump (← place target)
  | .branch onNonzero, [target, condition] => branch onNonzero i.datatype target condition
  | .loop, [target] => loop target
  | .call, [target] => call target i.args next
  | .ret, [] => ret
  | .foreign, [target] => foreignCall i.datatype target none i.args cp
  | .foreign, [target, slot] => foreignCall i.datatype target (some slot) i.args cp
  | .push, [src] => push i.datatype src
  | .pop, [dst] => pop i.datatype dst
  | .spAdd, [size] => stackAdd i.datatype size
  | .spSub, [size] => stackSub i.datatype size
  | .pushFrame, [] => ofMemory .pushFrame
  | .popFrame, [] => ofMemory .popFrame
  | .alloc, [dst, size] => alloc i.datatype dst size
  | .free, [target] => free target
  | .nop, _ => return ()
  | .exit, _ => return ()
  | _, _ => return ()

/-- Carries out an instruction at `cp`. The code pointer is behind the instruction from the start
on. -/
def execute (i : Instruction) (cp : Address) : Exec Unit := do
  let next := cp.add (Int64.ofNat i.size)
  jump next
  perform i cp next

end CellMachine.Exec
