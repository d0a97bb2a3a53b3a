import CellMachine.Assembly.Literal
import CellMachine.Assembly.State
import CellMachine.Instruction.Encoding
import CellMachine.Instruction.Register

/-!
# Operands in source text

An operand is a term, perhaps dereferenced : a register, a frame slot, a number, a string or a
name. `Parser.operand` takes one from the tokens, `Asm.writeOperand` appends it to the code in
the form it has in an instruction. A name becomes a reference that is bound later, a string goes
into the static data and its address waits for a page.
-/

namespace CellMachine

/-- What an operand is made of. -/
inductive Term where
  | address (a : Address)
  | name (name : String)
  | text (s : String)
  | float (word : UInt64)
  | integer (l : IntLiteral)
  deriving DecidableEq, Repr

/-- An operand as it is written. -/
structure SourceOperand where
  deref : Bool
  term : Term
  /-- The first token of the term. -/
  token : Token
  deriving DecidableEq, Repr

namespace SourceOperand

/-- The datatype that a plain name denotes. -/
def datatypeName? (o : SourceOperand) : Option Datatype :=
  match o.term with
  | .name name => if o.deref then none else Datatype.ofName? name
  | _ => none

/-- Whether the operand is a plain number. -/
def isNumber (o : SourceOperand) : Bool :=
  match o.term with
  | .integer _ | .float _ => !o.deref
  | _ => false

end SourceOperand

/-- Whether a datatype has room for an address. -/
def Datatype.holdsAddress (dt : Datatype) : Bool := dt == .addr || dt == .u64

namespace Parser

/-- Takes a register behind its mark. -/
def register : Parser Term := do
  next
  let t ← expect .name "a register name"
  match Register.ofName? t.text with
  | some r => return .address r.address
  | none => failAt t (.unknownRegister t.text)

/-- Takes a frame slot behind its mark. A minus sign counts downward from the frame. -/
def frameSlot : Parser Term := do
  next
  let t ← expect .integer "a frame offset"
  match IntLiteral.ofText? t.text with
  | some l =>
    return .address (.make (if l.negative then .frameSub else .frameAdd) (UInt64.ofNat l.magnitude))
  | none => failAt t (.invalidLiteral t.text)

/-- Takes the term of an operand. -/
def term : Parser Term := do
  let t ← current
  match t.kind with
  | .register => register
  | .frame => frameSlot
  | .name => return .name (← dottedName)
  | .string => do
    next
    return .text t.text
  | .float => do
    next
    match floatLiteral? t.text with
    | some word => return .float word
    | none => failAt t (.invalidLiteral t.text)
  | .integer => do
    next
    match IntLiteral.ofText? t.text with
    | some l => return .integer l
    | none => failAt t (.invalidLiteral t.text)
  | _ => unexpected t "an argument"

/-- Takes an operand. -/
def operand : Parser SourceOperand := do
  let deref ← at? .deref
  if deref then next
  let token ← current
  return ⟨deref, ← term, token⟩

end Parser

/-- The value of an address or a literal in a slot of datatype `dt`. -/
def SourceOperand.value? (o : SourceOperand) (dt : Datatype) : Except AssemblyErrorKind Value :=
  match o.term with
  | .address a =>
    match if dt.holdsAddress then (Value.addr a).cast? dt else none with
    | some v => .ok v
    | none => .error (.datatypeMismatch dt "an address")
  | .integer l =>
    if o.deref && l.negative then .error (.invalidDereference "a negative literal")
    else
      match l.toValue? dt with
      | some v => .ok v
      | none => .error (.integerOutOfRange o.token.text dt)
  | .float word =>
    if o.deref then .error (.invalidDereference "a float literal")
    else if dt.isFloat then
      match (Value.f64 word).cast? dt with
      | some v => .ok v
      | none => .error (.datatypeMismatch dt "a float literal")
    else .error (.datatypeMismatch dt "a float literal")
  | .name name =>
    match Datatype.ofName? name with
    | some t =>
      if dt == .type && !o.deref then .ok (.type t) else .error (.undefinedSymbol name)
    | none => .error (.undefinedSymbol name)
  | .text _ => .error (.datatypeMismatch dt "a string literal")

/-- The value of an address or a literal in a slot of datatype `dt`. -/
def Parser.literalValue (o : SourceOperand) (dt : Datatype) : Parser Value :=
  match o.value? dt with
  | .ok v => return v
  | .error kind => failAt o.token kind

namespace Asm

open CellMachine.Parser (failAt literalValue)

/-- Records that the slot at `offset` waits for the value of a name. -/
def refer (o : SourceOperand) (name : String) (offset : Nat) (dt : Datatype) : Asm Unit :=
  modify fun s =>
    { s with
      object := { s.object with
        unresolved := s.object.unresolved ++ [⟨name, offset, dt, s.path⟩] }
      positions := s.positions ++ [o.token.position] }

/-- Records that the slot at `offset` waits for the page of the module. -/
def relocate (offset : Nat) : Asm Unit :=
  modify fun s =>
    { s with object := { s.object with relocations := s.object.relocations ++ [offset] } }

/-- The cell of an operand whose slot is at `offset` and has datatype `dt`. -/
def operandCell (o : SourceOperand) (offset : Nat) (dt : Datatype) : Asm Cell :=
  match o.term with
  | .name name =>
    if dt = .type ∧ (Datatype.ofName? name).isSome then
      return (← literalValue o dt).toCell
    else do
      refer o name offset dt
      return Cell.zero
  | .text text =>
    if o.deref then failAt o.token (.invalidDereference "a string literal")
    else if !dt.holdsAddress then failAt o.token (.datatypeMismatch dt "a string literal")
    else do
      let a ← storeText text
      relocate offset
      return Cell.ofAddress a
  | _ => return (← literalValue o dt).toCell

/-- Appends bytes to the code. -/
def emit (bytes : List UInt8) : Asm Unit := modify (·.appendCode bytes)

/-- Appends an operand of an instruction with datatype `dt` to the code. -/
def writeOperand (o : SourceOperand) (role : Role) (dt : Datatype) : Asm Operand := do
  let encoded := role.encodedDatatype dt o.deref
  let offset := (← get).object.code.size
  let c ← operandCell o offset encoded
  emit (c.bytes encoded)
  return ⟨role, encoded, o.deref, c⟩

end Asm

end CellMachine
