import CellMachine.Machine.Foreign

/-!
# The built-in libraries

The library `console` prints numbers, characters and text; the library `memory` fills bytes and
measures text. A function of the console that is given an unsuitable argument fails with a
reason, one of the memory says which argument it is.
-/

namespace CellMachine.Native

open Binary (Format)

/-- A function that prints what it makes of its call. -/
def printer (arity : Nat) (text : CallData → HostOp (List UInt8)) : ForeignFunction where
  arity := arity
  call d := do
    HostOp.print (← text d)
    return none

/-- An argument of a function of the console. -/
def consoleArg {α : Type} (arg : Except ForeignError α) : HostOp α :=
  match arg with
  | .ok a => pure a
  | .error e => throw (.failed e.message)

/-- Prints an integer with a sign. -/
def printI64 : ForeignFunction :=
  printer 1 fun d => do
    let v ← consoleArg (d.arg 0 .i64)
    return Text.toUtf8 v.text

/-- Prints an integer without a sign. -/
def printU64 : ForeignFunction :=
  printer 1 fun d => do
    let w ← consoleArg (d.argWord 0)
    return Text.toUtf8 (toString w.toNat)

/-- Prints a floating-point number, a whole one without a point. -/
def printF64 : ForeignFunction :=
  printer 1 fun d => do
    let v ← consoleArg (d.arg 0 .f64)
    return Text.toUtf8 (Format.double.text v.toCell.bits.toNat)

/-- Prints a byte. -/
def printChar : ForeignFunction :=
  printer 1 fun d => do
    let b ← consoleArg (d.argByte 0)
    return [b]

/-- Prints the text at an address. -/
def printStr : ForeignFunction :=
  printer 1 fun d => do
    let a ← consoleArg (d.argAddress 0)
    let text ← HostOp.access (MemoryOp.query (·.readText a))
    return Text.toUtf8 text

/-- Ends the line. -/
def newline : ForeignFunction := printer 0 fun _ => return [10]

/-- Sets bytes from an address on to a value. -/
def fill : ForeignFunction where
  arity := 3
  call d := do
    let a ← HostOp.ofExcept (d.argAddress 0)
    let b ← HostOp.ofExcept (d.argByte 1)
    let n := (← HostOp.ofExcept (d.argWord 2)).toNat
    HostOp.access (MemoryOp.query (·.checkWritable a n))
    HostOp.access (MemoryOp.write a (List.replicate n b))
    return none

/-- The length in bytes of the text at an address. -/
def strlen : ForeignFunction where
  arity := 1
  call d := do
    let a ← HostOp.ofExcept (d.argAddress 0)
    let text ← HostOp.access (MemoryOp.query (·.readText a))
    return some (.ofUInt64 (UInt64.ofNat text.utf8ByteSize))

/-- The functions of the library `console`. -/
def console : List (String × ForeignFunction) :=
  [("print_i64", printI64), ("print_u64", printU64), ("print_f64", printF64),
   ("print_char", printChar), ("print_str", printStr), ("newline", newline)]

/-- The functions of the library `memory`. -/
def memory : List (String × ForeignFunction) := [("fill", fill), ("strlen", strlen)]

/-- The functions of a library. -/
def library? : String → Option (List (String × ForeignFunction))
  | "console" => some console
  | "memory" => some memory
  | _ => none

/-- The registry of the built-in libraries. -/
def registry : Registry := fun name =>
  match splitLibrary? name with
  | none => .error (.loadFailure name)
  | some (library, function) =>
    match library? library with
    | none => .error (.loadFailure library)
    | some functions => .ok ((functions.find? (·.1 == function)).map (·.2))

end CellMachine.Native
