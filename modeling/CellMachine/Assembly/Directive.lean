import CellMachine.Assembly.Instruction

/-!
# Directives

A directive starts with `#` and says something about the module : it defines a name, reserves
static data, asks for another module or a permission, or opens and closes a scope.
-/

namespace CellMachine

namespace Parser

/-- Takes a dot and a datatype, if there is a dot. -/
def optionalDatatype : Parser (Option Datatype) := do
  if ← at? .dot then return some (← datatypeSuffix) else return none

/-- The name of a permission, with dots or between quotes. -/
def permissionName : Parser String := do
  let t ← current
  if t.kind == .string then
    next
    return t.text
  else dottedName

/-- Takes one more parameter of a function and goes on with `rest`, if there is one. -/
def parametersRound (rest : Parser (List (String × Datatype))) :
    Parser (List (String × Datatype)) := do
  if ← take? .colon then
    let p ← declaration
    return p :: (← rest)
  else return []

/-- Takes at most `n` parameters of a function. -/
def parameters : Nat → Parser (List (String × Datatype))
  | 0 => return []
  | n + 1 => parametersRound (parameters n)

/-- Takes the parameters of a function. -/
def parameterList : Parser (List (String × Datatype)) := do parameters (← remaining)

/-- The number of bytes that a literal reserves. -/
def reservedSize? (text : String) : Option Nat :=
  match IntLiteral.ofText? text with
  | some l => if l.negative then none else some l.magnitude
  | none => none

/-- Takes what static data starts with, zeros of a given number or text. -/
def initializer : Parser (Nat ⊕ String) := do
  let t ← current
  match t.kind with
  | .integer => do
    next
    match reservedSize? t.text with
    | some n => return .inl n
    | none => failAt t (.integerOutOfRange t.text .u64)
  | .string => do
    next
    return .inr t.text
  | _ => unexpected t "a size or string"

/-- Takes the name of a scope. -/
def scopeName : Parser String := do
  let t ← current
  if t.kind == .name then
    next
    return t.text
  else failAt t (.invalidScopeName t.text)

/-- A value in the datatype that an alias asks for, if it does. An address stays one, so that
it can get its page. -/
def aliasAs (o : SourceOperand) (dt : Option Datatype) (v : Value) : Parser Value :=
  match dt with
  | none => return v
  | some dt =>
    if dt = .u64 ∧ v.datatype = .addr then return v
    else
      match v.fit? dt with
      | some v => return v
      | none =>
        failAt o.token <|
          if v.datatype.isInteger && dt.isInteger then .integerOutOfRange o.token.text dt
          else .datatypeMismatch dt v.datatype.name

/-- The value of an alias for a name with the symbol that the name means, if there is one. -/
def aliasOf (o : SourceOperand) (dt : Option Datatype) (name : String) :
    Option Symbol → Parser Value
  | some symbol => aliasAs o dt symbol.value
  | none => failAt o.token (.undefinedSymbol name)

end Parser

namespace Asm

open CellMachine.Parser

/-- `#label name` : the place behind the last instruction. -/
def label : Asm Unit := do
  let name ← expectName
  define name .label (.addr (← get).codeEnd)

/-- The value of an alias. -/
def aliasValue (o : SourceOperand) (dt : Option Datatype) : Asm Value := do
  if o.deref then failAt o.token (.invalidDereference "an alias value")
  else
    match o.term with
    | .integer _ => literalValue o (dt.getD .i64)
    | .float _ => literalValue o (dt.getD .f64)
    | .address a => aliasAs o dt (.addr a)
    | .text text => do aliasAs o dt (.addr (← storeText text))
    | .name name =>
      match if dt = some .type then Datatype.ofName? name else none with
      | some t => return .type t
      | none => do
        let s ← get
        aliasOf o dt name (s.lookup s.path name)

/-- `#alias name : value` or `#alias name.dt : value`. -/
def aliasDirective : Asm Unit := do
  let name ← expectName
  let dt ← optionalDatatype
  expectColon
  let o ← operand
  define name .alias (← aliasValue o dt)

/-- Takes what static data starts with and stores it. -/
def storeStatic : Asm Unit := do
  match ← initializer with
  | .inl n => modify (·.reserveStatic n)
  | .inr text => do
    let _ ← storeText text

/-- `#static name : size` or `#static name : "text"`. -/
def staticData : Asm Unit := do
  let name ← expectName
  expectColon
  let place := (← get).staticEnd
  storeStatic
  define name .static (.addr place)

/-- `#request module`. -/
def request : Asm Unit := do
  let name ← dottedName
  modify fun s => { s with object := s.object.require name }

/-- `#manperm name`. -/
def mandatoryPermission : Asm Unit := do
  let name ← permissionName
  modify fun s =>
    { s with object := { s.object with mandatory := NameSet.add s.object.mandatory name } }

/-- `#optperm name`. -/
def optionalPermission : Asm Unit := do
  let name ← permissionName
  modify fun s =>
    { s with object := { s.object with optional := NameSet.add s.object.optional name } }

/-- Opens a scope. -/
def pushScope (name : String) (locals : Option Nat) : Asm Unit :=
  modify fun s => { s with scopes := ⟨name, locals⟩ :: s.scopes }

/-- `#scope name`. -/
def openScope : Asm Unit := do
  let name ← scopeName
  pushScope name none

/-- `#end`. -/
def closeScope : Asm Unit := do
  let s ← get
  match s.scopes with
  | [] => failHere .endOfGlobalScope
  | _ :: rest => set { s with scopes := rest }

/-- The bytes between a frame and the last argument of its call : the saved frame, the return
address and the size of the arguments. -/
def callLinkSize : Nat := 24

/-- The size of some parameters in bytes. -/
def parametersSize (params : List (String × Datatype)) : Nat :=
  Datatype.totalSize (params.map (·.2))

/-- Defines the parameters of a function, whose arguments lie below the frame in the order of
the call. -/
def defineParameters : List (String × Datatype) → Asm Unit
  | [] => return ()
  | (name, dt) :: rest => do
    let offset := callLinkSize + parametersSize ((name, dt) :: rest)
    define name .alias (.addr (.make .frameSub (UInt64.ofNat offset)))
    defineParameters rest

/-- An instruction without operands. -/
def plainInstruction (op : Opcode) : Instruction := ⟨op, .none, 0, [], none, []⟩

/-- Takes the name and the parameters of a function and opens its scope. -/
def functionHead : Asm Unit := do
  let name ← expectName
  define name .function (.addr (← get).codeEnd)
  let params ← parameterList
  pushScope name (some 0)
  defineParameters params

/-- `#func name : p.dt : …` opens a function, which starts by pushing a frame. `#funx` leaves
that to the body. -/
def function (pushFrame : Bool) : Asm Unit := do
  functionHead
  if pushFrame then emit (plainInstruction .pushFrame).encode

/-- Adds a local to the innermost function. Gives the bytes of its locals so far and the new
scopes. -/
def reserveLocal (size : Nat) : List Scope → Option (Nat × List Scope)
  | [] => none
  | scope :: rest =>
    match scope.locals with
    | some n => some (n, { scope with locals := some (n + size) } :: rest)
    | none => (reserveLocal size rest).map fun (n, rest) => (n, scope :: rest)

/-- The instruction that grows the stack by a number of bytes. -/
def growStack (size : Nat) : Instruction :=
  ⟨.spAdd, .none, 0, [⟨.value, .u64, false, ⟨UInt64.ofNat size⟩⟩], none, []⟩

/-- Adds a local to the innermost function. Gives the bytes of its locals so far. -/
def reserveBytes (size : Nat) : Asm Nat := do
  let s ← get
  match reserveLocal size s.scopes with
  | none => failHere .localOutsideFunction
  | some (offset, scopes) => do
    set { s with scopes := scopes }
    return offset

/-- Takes the name of a local and reserves a slot above the frame for it. Gives its datatype. -/
def reserveSlot : Asm Datatype := do
  let (name, dt) ← declaration
  let offset ← reserveBytes dt.size
  define name .alias (.addr (.make .frameAdd (UInt64.ofNat offset)))
  return dt

/-- `#local name.dt` reserves a slot above the frame and grows the stack over it. -/
def localSlot : Asm Unit := do
  let dt ← reserveSlot
  emit (growStack dt.size).encode

end Asm

end CellMachine
