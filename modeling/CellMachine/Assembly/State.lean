import CellMachine.Assembly.Parser
import CellMachine.Object

/-!
# The state of the assembler

An `Assembler` holds what the statements so far have made : the object, the places its
references were written at, the open scopes and the macros. A `Checkpoint` keeps the sizes of
what a statement adds to, so that a statement can be undone (`Assembler.restore`). `Asm` is an
action on this state that may fail; it gives the state behind it in either case. A parser is an
action that changes nothing but the cursor.
-/

namespace CellMachine

/-- An open scope. -/
structure Scope where
  name : String
  /-- In a function, the bytes of the locals so far. -/
  locals : Option Nat
  deriving DecidableEq, Repr

/-- A macro : the names of its parameters and the tokens it stands for. -/
structure MacroDef where
  params : List String
  body : List Token
  deriving DecidableEq, Repr

/-- What the statements so far have made. -/
structure Assembler where
  object : Object
  cursor : Cursor
  /-- The open scopes, the innermost first. -/
  scopes : List Scope
  /-- The macros by name. -/
  macros : List (String × MacroDef)
  /-- The place of every symbol in the list of the object. -/
  index : NameMap Nat
  /-- Where the references of the object were written, in their order. -/
  positions : List Position
  /-- How many uses of macros are being expanded. -/
  depth : Nat
  /-- How many statements of the source have been assembled. -/
  statements : Nat
  deriving DecidableEq

/-- What is kept of an assembler to undo a statement : the sizes of what it can add to, and a
copy of the rest. -/
structure Assembler.Checkpoint where
  code : Nat
  static : Nat
  symbols : Nat
  unresolved : Nat
  relocations : Nat
  required : Nat
  mandatory : NameSet
  optional : NameSet
  scopes : List Scope
  statements : Nat

/-- An action of the assembler. -/
abbrev Asm := EStateM AssemblyError Assembler

/-! ## Names and scopes -/

/-- A name behind the names of the scopes around it. -/
def qualify (path : List String) (name : String) : String := ".".intercalate (path ++ [name])

/-- The full names that a name can mean inside `path`, that of the innermost scope first. -/
def candidates (path : List String) (name : String) : List String :=
  (List.range (path.length + 1)).reverse.map fun depth => qualify (path.take depth) name

namespace Assembler

/-- The assembler that has seen no statements of a module. -/
def empty (name : String) : Assembler := ⟨.empty name, .empty, [], [], ∅, [], 0, 0⟩

/-- The object as far as it has been made. -/
def snapshot (s : Assembler) : Object := s.object

/-- The names of the open scopes, the outermost first. -/
def path (s : Assembler) : List String := (s.scopes.map (·.name)).reverse

/-- The symbol of a full name. -/
def symbol? (s : Assembler) (name : String) : Option Symbol :=
  (s.index.get? name).bind (s.object.symbols[·]?)

/-- The symbol that a name means inside `path`. -/
def lookup (s : Assembler) (path : List String) (name : String) : Option Symbol :=
  (candidates path name).findSome? s.symbol?

/-- The macro of a name. -/
def findMacro? (s : Assembler) (name : String) : Option MacroDef :=
  (s.macros.find? (·.1 == name)).map (·.2)

/-- Adds bytes to the code. -/
def appendCode (s : Assembler) (bytes : List UInt8) : Assembler :=
  { s with object := { s.object with code := s.object.code ++ bytes.toArray } }

/-- Overwrites bytes of the code. -/
def overwriteCode (s : Assembler) (start : Nat) (bytes : List UInt8) : Assembler :=
  { s with object := { s.object with code := s.object.code.write start bytes } }

/-- Adds bytes to the static data. -/
def appendStatic (s : Assembler) (bytes : Buffer) : Assembler :=
  { s with object := { s.object with static := s.object.static ++ bytes } }

/-- Makes the static data `n` bytes longer. Its length is a number of 64 bits : where the sum is none,
what the low bits of it leave of the data is kept. -/
def reserveStatic (s : Assembler) (n : Nat) : Assembler :=
  { s with object := { s.object with
    static := s.object.static.resize ((s.object.static.size + n) % UInt64.size) } }

/-- The place behind the last instruction. -/
def codeEnd (s : Assembler) : Address := .code 0 (UInt64.ofNat s.object.code.size)

/-- The place behind the static data. -/
def staticEnd (s : Assembler) : Address := .static 0 (UInt64.ofNat s.object.static.size)

/-- What is needed to come back to this state. -/
def checkpoint (s : Assembler) : Checkpoint where
  code := s.object.code.size
  static := s.object.static.size
  symbols := s.object.symbols.length
  unresolved := s.object.unresolved.length
  relocations := s.object.relocations.length
  required := s.object.required.length
  mandatory := s.object.mandatory
  optional := s.object.optional
  scopes := s.scopes
  statements := s.statements

/-- Cuts off what was added behind a checkpoint. Cursor and macros are left as they are. -/
def restore (s : Assembler) (c : Checkpoint) : Assembler :=
  { s with
    object := { s.object with
      required := s.object.required.take c.required
      mandatory := c.mandatory
      optional := c.optional
      code := s.object.code.take c.code
      static := s.object.static.take c.static
      symbols := s.object.symbols.take c.symbols
      unresolved := s.object.unresolved.take c.unresolved
      relocations := s.object.relocations.take c.relocations }
    scopes := c.scopes
    index := (s.object.symbols.drop c.symbols).foldl (fun m x => m.erase x.name) s.index
    positions := s.positions.take c.unresolved
    statements := c.statements }

end Assembler

namespace Asm

/-- Takes tokens. -/
def ofParser {α : Type} (p : Parser α) : Asm α := fun s =>
  match p s.cursor with
  | .ok a c => .ok a { s with cursor := c }
  | .error e c => .error e { s with cursor := c }

instance : MonadLift Parser Asm := ⟨ofParser⟩

/-- Defines a name in the innermost open scope. -/
def define (name : String) (kind : SymbolKind) (value : Value) : Asm Unit := do
  let s ← get
  let full := qualify s.path name
  if s.index.contains full then Parser.failHere (.symbolAlreadyDefined full)
  else
    set { s with
      index := s.index.insert full s.object.symbols.length
      object := { s.object with symbols := s.object.symbols ++ [(⟨full, kind, value⟩ : Symbol)] } }

/-- Puts text and a zero byte into the static data; gives its place. -/
def storeText (text : String) : Asm Address := do
  let s ← get
  set (s.appendStatic (text.toUTF8.data.push 0))
  return s.staticEnd

end Asm

end CellMachine
