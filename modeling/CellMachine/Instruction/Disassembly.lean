import CellMachine.Image
import CellMachine.Instruction.Encoding
import CellMachine.Instruction.Register

/-!
# Disassembly

`disassemble` reads the instruction at an offset with its operands as values, and
`disassembleAll` every instruction of a code buffer. `Listed.render` writes an instruction as
source text, with names for the addresses that have one; `Object.listing` and `Image.listing`
add offsets, bytes and labels.
-/

namespace CellMachine

/-- An operand of a disassembled instruction. -/
structure ListedOperand where
  role : Role
  deref : Bool
  /-- The encoded value; that of a dereferenced operand is an address in the form of a `u64`. -/
  value : Value
  deriving DecidableEq, Repr

/-- A disassembled instruction. -/
structure Listed where
  offset : Nat
  opcode : Opcode
  datatype : Datatype
  operands : List ListedOperand
  size : Nat
  deriving DecidableEq, Repr

/-- An operand with its cell read as a value. The only operand without one is a datatype whose
code is unused. -/
def Operand.listed (offset : Nat) (o : Operand) : Except DecodeError ListedOperand :=
  match Value.ofCell? o.datatype o.cell with
  | some v => .ok ⟨o.role, o.deref, v⟩
  | none => .error (.unknownDatatype o.cell.byte offset)

/-- Reads the instruction at an offset. -/
def disassemble (code : Buffer) (offset : Nat) : Except DecodeError Listed := do
  let i ← decode code offset
  let operands ← i.operands.mapM (Operand.listed offset)
  return ⟨offset, i.opcode, i.datatype, operands, i.size⟩

/-- Reads at most `n` instructions from an offset to the end of the code. -/
def disassembleFrom (code : Buffer) (offset : Nat) : Nat → Except DecodeError (List Listed)
  | 0 => .ok []
  | n + 1 =>
    if offset < code.size then do
      let i ← disassemble code offset
      let rest ← disassembleFrom code (offset + i.size) n
      return i :: rest
    else .ok []

/-- Reads every instruction of a code buffer. There are no more than bytes. -/
def disassembleAll (code : Buffer) : Except DecodeError (List Listed) :=
  disassembleFrom code 0 code.size

/-! ## Source text -/

/-- Names for addresses. Of two names for one address the first counts. -/
structure SymbolNames where
  names : List (Address × String)

namespace SymbolNames

/-- No names. -/
def empty : SymbolNames := ⟨[]⟩

/-- The name that a symbol gives to an address of code, static data or heap, without `front`. -/
def located? (front : String) (s : Symbol) : Option (Address × String) :=
  match s.value with
  | .addr a =>
    if a.base? ∈ [some .code, some .static, some .heap] ∧ front.toList.isPrefixOf s.name.toList then
      some (a, String.ofList (s.name.toList.drop front.length))
    else none
  | _ => none

/-- The names of the symbols inside a scope, without the name of the scope. The empty scope
holds every symbol. -/
def ofSymbols (symbols : List Symbol) (scope : String) : SymbolNames :=
  ⟨symbols.filterMap (located? (if scope == "" then "" else scope ++ "."))⟩

/-- The name of an address. -/
def lookup (n : SymbolNames) (a : Address) : Option String :=
  (n.names.find? (·.1 == a)).map (·.2)

end SymbolNames

/-- The source text of an address. -/
def Address.render (names : SymbolNames) (a : Address) : String :=
  match a.base? with
  | some .register =>
    match Register.ofOffset? a.offset.toNat with
    | some r => "$" ++ r.name
    | none => toString a.bits.toNat
  | some .frameAdd => "~" ++ toString a.offset.toNat
  | some .frameSub => "~-" ++ toString a.offset.toNat
  | _ => (names.lookup a).getD (toString a.bits.toNat)

/-- The source text of an operand. -/
def ListedOperand.render (names : SymbolNames) (o : ListedOperand) : String :=
  let front :=
    match o.role with
    | .typed dt => dt.name ++ " "
    | _ => ""
  front ++
    match o.deref, o.value with
    | true, .int false .w64 v => "@" ++ Address.render names ⟨⟨v⟩⟩
    | true, v => v.text
    | false, .addr a => a.render names
    | false, v => v.text

/-- The name of an instruction with its datatype. -/
def mnemonic (op : Opcode) (dt : Datatype) : String :=
  if dt = .none then op.name else op.name ++ "." ++ dt.name

/-- The source text of an instruction. -/
def Listed.render (names : SymbolNames) (i : Listed) : String :=
  mnemonic i.opcode i.datatype ++ String.join (i.operands.map fun o => " : " ++ o.render names)

/-! ## Listings -/

/-- The bytes of an instruction in a listing, at most ten of them. -/
def listedBytes (bytes : List UInt8) : String :=
  let shown := " ".intercalate ((bytes.take 10).map hexByte)
  if 10 < bytes.length then shown ++ " .." else shown

namespace Object

/-- The name of the last symbol for an offset of the code. -/
def labelAt? (o : Object) (offset : Nat) : Option String :=
  (o.symbols.reverse.find? fun s =>
    match s.value with
    | .addr a => a.base? == some .code && a.intraOffset.toNat == offset
    | _ => false).map (·.name)

/-- The lines of an instruction in a listing. -/
def listedLines (o : Object) (names : SymbolNames) (i : Listed) : String :=
  let label :=
    match o.labelAt? i.offset with
    | some name => name ++ ":\n"
    | none => ""
  label ++ padLeft 6 '0' (hex i.offset) ++ "  " ++
    padRight 32 ' ' (listedBytes (o.code.read i.offset i.size)) ++ "  " ++ i.render names ++ "\n"

/-- The offset, the bytes and the source text of every instruction. -/
def listing (o : Object) (names : SymbolNames) : Except DecodeError String := do
  let is ← disassembleAll o.code
  return "; module " ++ o.name ++ "\n" ++ String.join (is.map (o.listedLines names))

end Object

/-- The listings of all objects of an image, with the names of all symbols. -/
def Image.listing (i : Image) : Except DecodeError String := do
  let names := SymbolNames.ofSymbols i.symbols.values ""
  let parts ← i.objects.mapM (·.listing names)
  return String.join (parts.map (· ++ "\n"))

end CellMachine
