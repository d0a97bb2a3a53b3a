import CellMachine.Object

/-!
# Images

An image is a program ready to run : objects whose code has no gaps left, each on the page
equal to its place in the list, and the symbols and permissions of all of them together.
-/

namespace CellMachine

/-- A linked program. -/
structure Image where
  objects : List Object
  /-- The page of every object. -/
  index : NameMap Nat
  /-- The symbols of all objects. -/
  symbols : NameMap Symbol
  mandatory : NameSet
  optional : NameSet
  deriving DecidableEq, Inhabited

namespace Image

/-- The image of no objects. -/
def empty : Image := ⟨[], ∅, ∅, ∅, ∅⟩

/-- The object on a page. -/
def object? (i : Image) (page : Nat) : Option Object := i.objects[page]?

/-- Where execution starts : the first byte of the code on page 0. -/
def entry : Address := .code 0 0

/-- The mandatory permissions that are not granted, in order. -/
def missingPermissions (i : Image) (granted : String → Bool) : List String :=
  i.mandatory.keys.filter fun p => !granted p

end Image

end CellMachine
