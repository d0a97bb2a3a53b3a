import CellMachine.Datatype

/-!
# Opcodes and their operands

An opcode has a byte, a name and a layout : whether it takes a datatype, and the roles of its
operands. `call` and `foreign` are variadic, their operands go on with a list of typed
arguments. `ofByte?_byte` says that the byte identifies the opcode.
-/

namespace CellMachine

/-- Operations on two operands of one datatype. -/
inductive BinaryOp where
  | add | sub | mul | div | mod | and | or | xor | shl | shr
  deriving DecidableEq, Repr, Inhabited

/-- Operations on one operand. -/
inductive UnaryOp where
  | neg | inc | dec | not
  deriving DecidableEq, Repr, Inhabited

/-- Comparisons of two operands. -/
inductive CompareOp where
  | eq | ne | lt | le | gt | ge
  deriving DecidableEq, Repr, Inhabited

/-- The name of a binary operation. -/
def BinaryOp.name : BinaryOp → String
  | add => "add"
  | sub => "sub"
  | mul => "mul"
  | div => "div"
  | mod => "mod"
  | and => "and"
  | or => "or"
  | xor => "xor"
  | shl => "shl"
  | shr => "shr"

/-- The name of a unary operation. -/
def UnaryOp.name : UnaryOp → String
  | neg => "neg"
  | inc => "inc"
  | dec => "dec"
  | not => "not"

/-- The name of a comparison. -/
def CompareOp.name : CompareOp → String
  | eq => "eq"
  | ne => "ne"
  | lt => "lt"
  | le => "le"
  | gt => "gt"
  | ge => "ge"

/-- What an instruction does. -/
inductive Opcode where
  | nop | exit
  | mov | convert | copy
  | binary (op : BinaryOp)
  | unary (op : UnaryOp)
  | compare (op : CompareOp)
  | jmp
  /-- A jump taken when its operand is nonzero, or when it is zero. -/
  | branch (onNonzero : Bool)
  | loop | call | ret
  /-- A call of a function outside the machine. -/
  | foreign
  | push | pop | spAdd | spSub | pushFrame | popFrame
  | alloc | free
  deriving DecidableEq, Repr, Inhabited

/-- Whether source text of an instruction carries a datatype. -/
inductive DatatypeRule where
  | required | optional | absent
  deriving DecidableEq, Repr

/-- What an operand means to its instruction. -/
inductive Role where
  /-- A place in memory. -/
  | address
  /-- A value of the instruction's datatype, or a `u64` if it has none. -/
  | value
  /-- A datatype code. -/
  | datatype
  /-- A call argument with a datatype of its own. -/
  | typed (dt : Datatype)
  deriving DecidableEq, Repr, Inhabited

/-- The operands of an opcode. -/
structure Layout where
  rule : DatatypeRule
  roles : List Role
  /-- Whether typed arguments follow. -/
  variadic : Bool
  deriving DecidableEq, Repr

namespace Opcode

/-- Every opcode, in the order of the bytes. -/
def all : List Opcode :=
  [nop, exit, mov, convert, copy,
   binary .add, binary .sub, binary .mul, binary .div, binary .mod,
   unary .neg, unary .inc, unary .dec,
   binary .and, binary .or, binary .xor, binary .shl, binary .shr, unary .not,
   compare .eq, compare .ne, compare .lt, compare .le, compare .gt, compare .ge,
   jmp, branch true, branch false, loop, call, ret, foreign,
   push, pop, spAdd, spSub, pushFrame, popFrame, alloc, free]

/-- The byte of an opcode. -/
def byte : Opcode → UInt8
  | nop => 0x00
  | exit => 0x01
  | mov => 0x10
  | convert => 0x11
  | copy => 0x12
  | binary .add => 0x20
  | binary .sub => 0x21
  | binary .mul => 0x22
  | binary .div => 0x23
  | binary .mod => 0x24
  | unary .neg => 0x25
  | unary .inc => 0x26
  | unary .dec => 0x27
  | binary .and => 0x30
  | binary .or => 0x31
  | binary .xor => 0x32
  | binary .shl => 0x33
  | binary .shr => 0x34
  | unary .not => 0x35
  | compare .eq => 0x40
  | compare .ne => 0x41
  | compare .lt => 0x42
  | compare .le => 0x43
  | compare .gt => 0x44
  | compare .ge => 0x45
  | jmp => 0x50
  | branch true => 0x51
  | branch false => 0x52
  | loop => 0x53
  | call => 0x54
  | ret => 0x55
  | foreign => 0x56
  | push => 0x60
  | pop => 0x61
  | spAdd => 0x62
  | spSub => 0x63
  | pushFrame => 0x64
  | popFrame => 0x65
  | alloc => 0x70
  | free => 0x71

/-- The opcode with a given byte. -/
def ofByte? (b : UInt8) : Option Opcode := all.find? (·.byte == b)

/-- The name of an opcode in source text. -/
def name : Opcode → String
  | nop => "nop"
  | exit => "exit"
  | mov => "mov"
  | convert => "convert"
  | copy => "copy"
  | binary op => op.name
  | unary op => op.name
  | compare op => op.name
  | jmp => "jmp"
  | branch true => "jt"
  | branch false => "jf"
  | loop => "loop"
  | call => "call"
  | ret => "ret"
  | foreign => "extern"
  | push => "push"
  | pop => "pop"
  | spAdd => "spadd"
  | spSub => "spsub"
  | pushFrame => "pushframe"
  | popFrame => "popframe"
  | alloc => "alloc"
  | free => "free"

/-- The opcode with a given name. -/
def ofName? (s : String) : Option Opcode := all.find? (·.name == s)

/-- The operands of an opcode. -/
def layout : Opcode → Layout
  | nop | exit | ret | pushFrame | popFrame => ⟨.absent, [], false⟩
  | mov | binary _ | branch _ => ⟨.required, [.address, .value], false⟩
  | unary _ | pop => ⟨.required, [.address], false⟩
  | compare _ => ⟨.required, [.address, .value, .value], false⟩
  | jmp | loop | free => ⟨.absent, [.address], false⟩
  | push => ⟨.required, [.value], false⟩
  | spAdd | spSub => ⟨.absent, [.value], false⟩
  | alloc => ⟨.absent, [.address, .value], false⟩
  | convert => ⟨.required, [.address, .datatype, .value], false⟩
  | copy => ⟨.absent, [.address, .address, .value], false⟩
  | call => ⟨.absent, [.address], true⟩
  | foreign => ⟨.optional, [.address], true⟩

/-- The roles of the operands in front of any typed arguments. A foreign call with a datatype
has a slot for its result. -/
def fixedRoles (op : Opcode) (dt : Datatype) : List Role :=
  if op = foreign ∧ dt ≠ .none then op.layout.roles ++ [.address] else op.layout.roles

theorem ofByte?_byte (op : Opcode) : ofByte? op.byte = some op := by
  cases op with
  | binary op => cases op <;> rfl
  | unary op => cases op <;> rfl
  | compare op => cases op <;> rfl
  | branch b => cases b <;> rfl
  | _ => rfl

theorem byte_of_ofByte? {b : UInt8} {op : Opcode} (h : ofByte? b = some op) : op.byte = b := by
  have := List.find?_some h
  simpa using this

theorem length_fixedRoles_le (op : Opcode) (dt : Datatype) : (op.fixedRoles dt).length ≤ 3 := by
  unfold fixedRoles
  split
  · next h => rw [h.1]; decide
  · cases op <;> simp [layout]

end Opcode

/-- The datatype an operand is encoded with. A dereferenced operand is an address in the form
of a `u64`. -/
def Role.encodedDatatype (role : Role) (dt : Datatype) (deref : Bool) : Datatype :=
  if deref then .u64
  else
    match role with
    | .address => .addr
    | .value => dt.ofValueOperand
    | .datatype => .type
    | .typed t => t

end CellMachine
