import CellMachine.Instruction.Descriptor
import CellMachine.Token.Basic

/-!
# Errors of the assembler

What can be wrong with source text once it is split into tokens. The wording of every error is
in `AssemblyErrorKind.message`.
-/

namespace CellMachine

/-- What is wrong with a statement. -/
inductive AssemblyErrorKind where
  | unexpectedToken (expected found : String)
  | unknownInstruction (name : String)
  | unknownDatatype (name : String)
  | missingDatatype (instruction : String)
  | unexpectedDatatype (instruction : String)
  | datatypeMismatch (expected : Datatype) (found : String)
  | unknownRegister (name : String)
  | unknownDirective (name : String)
  | symbolAlreadyDefined (name : String)
  | undefinedSymbol (name : String)
  | macroAlreadyDefined (name : String)
  | macroArity (name : String) (expected found : Nat)
  | macroRecursion (name : String)
  | unterminatedMacro (name : String)
  | invalidDereference (what : String)
  | integerOutOfRange (literal : String) (datatype : Datatype)
  | invalidLiteral (literal : String)
  | tooManyCallArguments
  | endOfGlobalScope
  | invalidScopeName (name : String)
  | unclosedScope (name : String)
  | localOutsideFunction
  deriving DecidableEq, Repr

/-- The text of an error without its place. -/
def AssemblyErrorKind.message : AssemblyErrorKind → String
  | unexpectedToken expected found => "expected " ++ expected ++ ", found " ++ found
  | unknownInstruction name => "unknown instruction '" ++ name ++ "'"
  | unknownDatatype name => "unknown datatype '" ++ name ++ "'"
  | missingDatatype instruction => "'" ++ instruction ++ "' requires a datatype"
  | unexpectedDatatype instruction => "'" ++ instruction ++ "' does not take a datatype"
  | datatypeMismatch expected found =>
    "datatype mismatch: " ++ found ++ " cannot be used as " ++ expected.name
  | unknownRegister name => "unknown register '" ++ name ++ "'"
  | unknownDirective name => "unknown directive '#" ++ name ++ "'"
  | symbolAlreadyDefined name => "symbol '" ++ name ++ "' already defined"
  | undefinedSymbol name => "undefined symbol '" ++ name ++ "'"
  | macroAlreadyDefined name => "macro '" ++ name ++ "' already defined"
  | macroArity name expected found =>
    "macro '" ++ name ++ "' takes " ++ toString expected ++ " arguments, got " ++ toString found
  | macroRecursion name => "macro expansion nested too deeply in '" ++ name ++ "'"
  | unterminatedMacro name => "macro '" ++ name ++ "' has no matching #end"
  | invalidDereference what => "cannot dereference " ++ what
  | integerOutOfRange literal datatype =>
    "integer literal " ++ literal ++ " out of range for " ++ datatype.name
  | invalidLiteral literal => "invalid numeric literal '" ++ literal ++ "'"
  | tooManyCallArguments =>
    "too many call arguments (at most " ++ toString Descriptor.maxArgs ++ ")"
  | endOfGlobalScope => "cannot end the global scope"
  | invalidScopeName name => "invalid scope name '" ++ name ++ "'"
  | unclosedScope name => "scope '" ++ name ++ "' is never closed"
  | localOutsideFunction => "#local outside of a function"

/-- What is wrong with a statement, and where. -/
structure AssemblyError where
  kind : AssemblyErrorKind
  position : Position
  deriving DecidableEq, Repr

/-- The text of an error. -/
def AssemblyError.message (e : AssemblyError) : String := e.position.text ++ e.kind.message

/-- A token as messages name it. -/
def Token.describe (t : Token) : String :=
  if t.text == "" || t.text == "\n" then t.kind.describe
  else t.kind.describe ++ " '" ++ t.text ++ "'"

end CellMachine
