import CellMachine.Assembly.Operand

/-!
# Instructions in source text

An instruction is written as its name, a datatype where it takes one, and its operands behind
colons. The typed arguments of a call have a datatype in front. `Asm.instruction` takes one
from the tokens and appends it to the code : first its header, then operand by operand.
-/

namespace CellMachine

namespace Parser

/-- The datatype behind the name of an instruction. -/
def instructionDatatype (op : Opcode) (t : Token) : Parser Datatype := do
  let hasSuffix ← at? .dot
  match op.layout.rule, hasSuffix with
  | .absent, true => failAt t (.unexpectedDatatype t.text)
  | .required, false => failAt t (.missingDatatype t.text)
  | .required, true => do
    let dt ← datatypeSuffix
    if dt = .none then failAt t (.missingDatatype t.text) else return dt
  | _, true => datatypeSuffix
  | _, false => return .none

/-- Takes the datatype of a call argument. -/
def argumentDatatype : Parser Datatype := do
  let t ← expect .name "an argument datatype"
  match Datatype.ofName? t.text with
  | none | some .none => failAt t (.unknownDatatype t.text)
  | some dt => return dt

end Parser

namespace Asm

open CellMachine.Parser

/-- A number to be converted is read as the source datatype and converted here, so that the
instruction carries it in its own datatype. -/
def writeConverted (o : SourceOperand) (source dt : Datatype) : Asm Operand := do
  let target := dt.ofValueOperand
  let v ← literalValue o source
  match v.cast? target with
  | some v => do
    emit (v.toCell.bytes target)
    return ⟨.value, target, false, v.toCell⟩
  | none => failAt o.token (.datatypeMismatch target source.name)

/-- Appends an operand of the layout to the code. `source` is the source datatype of a conversion
if it is known. -/
def writeFixed (source : Option Datatype) (o : SourceOperand) (role : Role) (dt : Datatype) :
    Asm Operand :=
  match source with
  | some t => if role = .value ∧ o.isNumber then writeConverted o t dt else writeOperand o role dt
  | none => writeOperand o role dt

/-- Takes operands with the given roles and appends them to the code. The source datatype of a
conversion is known once its type operand has been taken. -/
def fixedOperands (op : Opcode) (dt : Datatype) (source : Option Datatype) :
    List Role → Asm (List Operand)
  | [] => return []
  | role :: rest => do
    expectColon
    let o ← operand
    let source := if op = .convert ∧ role = .datatype then o.datatypeName? else source
    let encoded ← writeFixed source o role dt
    let os ← fixedOperands op dt source rest
    return encoded :: os

/-- Takes at most `n` typed arguments and appends them to the code. -/
def typedArguments (dt : Datatype) : Nat → Asm (List Operand)
  | 0 => do
    if ← take? .colon then failHere .tooManyCallArguments
    else return []
  | n + 1 => do
    if ← take? .colon then
      let t ← argumentDatatype
      let o ← writeOperand (← operand) (.typed t) dt
      let os ← typedArguments dt n
      return o :: os
    else return []

/-- The datatypes of typed arguments. -/
def argumentTypes (args : List Operand) : List Datatype :=
  args.filterMap fun o =>
    match o.role with
    | .typed t => some t
    | _ => none

/-- Writes the descriptor of typed arguments to its place in front of them. -/
def fillDescriptor (start : Nat) (args : List Operand) : Asm Unit :=
  match Descriptor.ofTypes? (argumentTypes args) with
  | some d => modify (·.overwriteCode start d.toBytes)
  | none => failHere .tooManyCallArguments

/-- Takes the typed arguments of a call. Their descriptor stands in front of them and is filled
in once they are known. -/
def describedArguments (dt : Datatype) : Asm (List Operand) := do
  let start := (← get).object.code.size
  emit (List.replicate Descriptor.size 0)
  let args ← typedArguments dt Descriptor.maxArgs
  fillDescriptor start args
  return args

/-- Takes the operands behind those of the layout, if the instruction has any. -/
def callArguments (op : Opcode) (dt : Datatype) : Asm (List Operand) :=
  if op.layout.variadic then describedArguments dt else return []

/-- Takes what stands behind the name `t` of an instruction. The mask in the header is filled in
behind the operands. -/
def instructionBehind (op : Opcode) (t : Token) : Asm Unit := do
  let dt ← instructionDatatype op t
  let start := (← get).object.code.size
  emit (encodeHeader op dt 0)
  let fixed ← fixedOperands op dt none (op.fixedRoles dt)
  let args ← callArguments op dt
  modify (·.overwriteCode (start + 2) (littleEndian 2 (maskOf (fixed ++ args)).toNat))

/-- Takes an instruction. -/
def instruction (op : Opcode) : Asm Unit := do
  let t ← current
  next
  instructionBehind op t

end Asm

end CellMachine
