import CellMachine.Machine.Memory
import CellMachine.Value

/-!
# Foreign functions

A program calls functions outside the machine by name, as `library.function`. A foreign
function acts on the memory of the program and on the console (`Host`), and may give a value
back. A registry finds functions; it fails for a library that it cannot load.
-/

namespace CellMachine

/-- What foreign functions act on. -/
structure Host where
  memory : Memory
  /-- The bytes written to the console so far. -/
  console : Array UInt8
  deriving DecidableEq

/-- The call of a foreign function. -/
structure CallData where
  /-- The datatype of the result that the call asks for, `none` if it asks for none. -/
  returnType : Datatype
  args : List Value
  deriving DecidableEq, Repr

namespace CallData

/-- An argument converted to a datatype. -/
def arg (d : CallData) (index : Nat) (dt : Datatype) : Except ForeignError Value :=
  match d.args[index]?.bind (·.cast? dt) with
  | some v => .ok v
  | none => .error (.badArgument index dt)

/-- An argument converted to a `u64`. -/
def argWord (d : CallData) (index : Nat) : Except ForeignError UInt64 := do
  return (← d.arg index .u64).toCell.bits

/-- An argument converted to a `u8`. -/
def argByte (d : CallData) (index : Nat) : Except ForeignError UInt8 := do
  return (← d.arg index .u8).toCell.byte

/-- An argument converted to an address. -/
def argAddress (d : CallData) (index : Nat) : Except ForeignError Address := do
  return (← d.arg index .addr).toCell.toAddress

end CallData

/-- An action of a foreign function. -/
abbrev HostOp := EStateM ForeignError Host

/-- A function outside the machine. -/
structure ForeignFunction where
  /-- The number of arguments that every call has. -/
  arity : Nat
  /-- Carries out a call. Gives the result, if there is one. -/
  call : CallData → HostOp (Option Value)

/-- Finds functions by name. The result is absent where the library has no such function. -/
abbrev Registry := String → Except ForeignError (Option ForeignFunction)

/-- The registry without libraries. -/
def Registry.none : Registry := fun name =>
  .error (.loadFailure ((splitLibrary? name).elim name (·.1)))

/-! ## Actions of foreign functions -/

namespace HostOp

/-- What fails or succeeds without an effect. -/
def ofExcept {α : Type} : Except ForeignError α → HostOp α
  | .ok a => pure a
  | .error e => throw e

/-- An access to memory, whose fault becomes the reason of a failure. -/
def access {α : Type} (op : MemoryOp α) : HostOp α := fun ⟨memory, console⟩ =>
  match op memory with
  | .ok a memory => .ok a ⟨memory, console⟩
  | .error f memory => .error (.failed f.message) ⟨memory, console⟩

/-- Writes bytes to the console. -/
def print (bytes : List UInt8) : HostOp Unit :=
  modify fun h => { h with console := h.console ++ bytes.toArray }

end HostOp

end CellMachine
