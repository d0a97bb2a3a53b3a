import CellMachine.NameMap
import CellMachine.Value

/-!
# Objects

An object is what one assembled module leaves behind : its code and static data, the symbols
it defines, and the places in the code that still wait for something. A reference waits for
the value of a name, a relocation for the page of the module itself.
-/

namespace CellMachine

/-- How a symbol came to be defined. -/
inductive SymbolKind where
  | label | alias | static | function
  deriving DecidableEq, Repr, Inhabited

/-- A name with a value. Addresses of code and static data carry page 0 until the object is
linked. -/
structure Symbol where
  /-- The name, with the names of the enclosing scopes in front. -/
  name : String
  kind : SymbolKind
  value : Value
  deriving DecidableEq, Repr

/-- A slot in the code that waits for the value of a name. -/
structure Reference where
  name : String
  /-- Where the slot starts. -/
  offset : Nat
  /-- What the slot holds. -/
  datatype : Datatype
  /-- The scopes around the use, outermost first. Empty once the object is finished. -/
  scope : List String
  deriving DecidableEq, Repr

/-- An assembled module. -/
structure Object where
  name : String
  /-- The modules it asks for, in the order of the requests. -/
  required : List String
  /-- The permissions it cannot do without. -/
  mandatory : NameSet
  /-- The permissions it can make use of. -/
  optional : NameSet
  code : Buffer
  static : Buffer
  symbols : List Symbol
  unresolved : List Reference
  /-- The eight-byte slots of the code that wait for the page of this module. -/
  relocations : List Nat
  deriving DecidableEq, Inhabited

namespace Object

/-- An object with nothing in it. -/
def empty (name : String) : Object := ⟨name, [], ∅, ∅, #[], #[], [], [], []⟩

/-- The first symbol of a name. -/
def symbol? (o : Object) (name : String) : Option Symbol := o.symbols.find? (·.name == name)

/-- Records that a module is required, once. -/
def require (o : Object) (name : String) : Object :=
  if name ∈ o.required then o else { o with required := o.required ++ [name] }

/-- Whether the object asks for any permission. -/
def needsPermissions (o : Object) : Bool := !o.mandatory.isEmpty || !o.optional.isEmpty

end Object

end CellMachine
