import CellMachine.Address

/-!
# Registers

The seven registers lie one after the other in a register file, eight bytes each, and can be
addressed there like any other memory.
-/

namespace CellMachine

/-- The registers : code, stack and frame pointer, loop counter, accumulator, temporary and
exit code. -/
inductive Register where
  | cp | sp | fp | lc | ac | tm | ec
  deriving DecidableEq, Repr, Inhabited

namespace Register

/-- Every register, in the order of the register file. -/
def all : List Register := [cp, sp, fp, lc, ac, tm, ec]

/-- The name of a register in source text. -/
def name : Register → String
  | cp => "cp"
  | sp => "sp"
  | fp => "fp"
  | lc => "lc"
  | ac => "ac"
  | tm => "tm"
  | ec => "ec"

/-- The register with a given name. -/
def ofName? (s : String) : Option Register := all.find? (·.name == s)

/-- The place of a register in the register file, in bytes. -/
def offset : Register → Nat
  | cp => 0
  | sp => 8
  | fp => 16
  | lc => 24
  | ac => 32
  | tm => 40
  | ec => 48

/-- The register that starts at a byte of the register file. -/
def ofOffset? (n : Nat) : Option Register := all.find? (·.offset == n)

/-- The size of the register file in bytes. -/
def fileSize : Nat := 56

/-- The address of a register. -/
def address (r : Register) : Address := .make .register (UInt64.ofNat r.offset)

theorem offset_add_size_le (r : Register) : r.offset + 8 ≤ fileSize := by cases r <;> decide

end Register

end CellMachine
