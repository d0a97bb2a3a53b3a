import CellMachine.NameMap
import CellMachine.Text.Split

/-!
# Limits and permissions

What a run is allowed to use : the size of its stack, the number of its instructions, and the
foreign functions it may call. A permission names a function, or a library with all its
functions.
-/

namespace CellMachine

/-- The library and the function in the name of a foreign function. -/
def splitLibrary? (name : String) : Option (String × String) := Text.cutAtLast? '.' name

/-- The limits and permissions of a run. -/
structure Config where
  /-- The size of the stack at the start, in bytes. -/
  initialStack : Nat
  /-- The size the stack never exceeds. -/
  maxStack : Nat
  /-- The functions and libraries that may be called. -/
  grants : NameSet
  /-- The number of instructions that may be carried out. -/
  maxSteps : Option Nat
  deriving DecidableEq

namespace Config

/-- A kibibyte of stack that can grow to sixteen mebibytes, and no permissions. -/
def default : Config := ⟨1024, 16 * 1024 * 1024, ∅, none⟩

/-- Whether a function may be called. -/
def isGranted (c : Config) (name : String) : Bool :=
  c.grants.contains name ||
    match splitLibrary? name with
    | some (library, _) => c.grants.contains library
    | none => false

end Config

end CellMachine
