import CellMachine.Instruction.Encoding

/-!
# Faults

What can go wrong while a program runs. A foreign function has errors of its own, which the
machine turns into faults. `RunError` adds the place of the instruction and its name.
-/

namespace CellMachine

/-- Sixteen hexadecimal digits behind `0x`. -/
def hexWord (w : UInt64) : String := "0x" ++ padLeft 16 '0' (hex w.toNat)

/-- What a foreign function or the search for one ends with. -/
inductive ForeignError where
  | loadFailure (library : String)
  | badArgument (index : Nat) (expected : Datatype)
  | failed (reason : String)
  deriving DecidableEq, Repr

/-- The text of an error of a foreign function. -/
def ForeignError.message : ForeignError → String
  | loadFailure library => "cannot load extension library '" ++ library ++ "'"
  | badArgument index expected =>
    "argument " ++ toString index ++ " must be convertible to " ++ expected.name
  | failed reason => reason

/-- Why an instruction cannot be carried out. -/
inductive Fault where
  | decode (e : DecodeError)
  | notImplemented (op : String) (datatype : Datatype)
  | divisionByZero
  | invalidAddress (bits : UInt64)
  | outOfBounds (bits : UInt64) (len : Nat)
  | readOnly (segment : String)
  | stackOverflow (limit : Nat)
  | stackUnderflow
  | invalidFree (bits : UInt64)
  | heapExhausted
  | invalidString (bits : UInt64)
  | invalidDatatype (code : UInt8)
  | missingPermissions (names : List String)
  | permissionDenied (name : String)
  | foreignLoadFailure (library : String)
  | foreignNotFound (name : String)
  | foreignArity (name : String) (expected found : Nat)
  | foreign (reason : String)
  | stepLimit (limit : Nat)
  deriving DecidableEq, Repr

/-- The text of a fault. -/
def Fault.message : Fault → String
  | decode e => e.message
  | notImplemented op datatype => "'" ++ op ++ "' is not implemented for " ++ datatype.name
  | divisionByZero => "division by zero"
  | invalidAddress bits => "invalid address " ++ hexWord bits
  | outOfBounds bits len =>
    "access of " ++ toString len ++ " bytes at " ++ hexWord bits ++ " is out of bounds"
  | readOnly segment => "cannot write to the " ++ segment ++ " segment"
  | stackOverflow limit => "stack overflow (limit " ++ toString limit ++ " bytes)"
  | stackUnderflow => "stack underflow"
  | invalidFree bits => hexWord bits ++ " is not the start of a heap block"
  | heapExhausted => "heap address space exhausted"
  | invalidString bits => "unterminated string at " ++ hexWord bits
  | invalidDatatype code => "invalid datatype value " ++ toString code.toNat
  | missingPermissions names => "missing mandatory permissions: " ++ ", ".intercalate names
  | permissionDenied name => "permission denied: " ++ name
  | foreignLoadFailure library => "extension load failure: " ++ library
  | foreignNotFound name => "external function '" ++ name ++ "' not found"
  | foreignArity name expected found =>
    "external function '" ++ name ++ "' takes " ++ toString expected ++ " arguments, got " ++
      toString found
  | foreign reason => "external function failed: " ++ reason
  | stepLimit limit => "step limit of " ++ toString limit ++ " exceeded"

/-- The fault that an error of a foreign function becomes. -/
def ForeignError.toFault : ForeignError → Fault
  | loadFailure library => .foreignLoadFailure library
  | e => .foreign e.message

/-- A fault with the place of the instruction and what is known about it. -/
structure RunError where
  fault : Fault
  address : Option Address
  context : List String
  deriving DecidableEq, Repr

/-- The text of a fault with its place and context. -/
def RunError.message (e : RunError) : String :=
  let place :=
    match e.address with
    | some a => " (at page " ++ toString a.page ++ " offset 0x" ++ hex a.intraOffset.toNat ++ ")"
    | none => ""
  let line (c : String) (i : Nat) := "\n    " ++ toString i ++ ": " ++ c
  "runtime error: " ++ e.fault.message ++ place ++
    String.join (e.context.zipIdx.map fun (c, i) => line c i)

end CellMachine
