import CellMachine.Assembly.Directive
import CellMachine.Assembly.Macro
import CellMachine.Token.Scanner

/-!
# Assembling

`Assembler.feed` assembles the statements of a list of tokens, starting where the last list
ended. A statement that fails is undone and ends the feed; the next one goes on with the following
line. `Assembler.finish` binds the references to the symbols of the
module itself and leaves the others to the linker. `assemble` does all of it at once.
-/

namespace CellMachine

namespace Asm

open CellMachine.Parser

/-- Takes what stands behind the name of a directive. -/
def directiveNamed (t : Token) : Asm Unit :=
  match t.text with
  | "label" => label
  | "alias" => aliasDirective
  | "static" => staticData
  | "request" => request
  | "manperm" => mandatoryPermission
  | "optperm" => optionalPermission
  | "scope" => openScope
  | "end" => closeScope
  | "func" => function true
  | "funx" => function false
  | "local" => localSlot
  | "macro" => defineMacro
  | other => failAt t (.unknownDirective other)

/-- Takes a directive behind its mark. -/
def directive : Asm Unit := do directiveNamed (← expect .name "a directive name")

/-- Takes a directive, an instruction or, with `expand`, a use of a macro. -/
def statementBody (expand : Asm Unit) : Asm Unit := do
  let t ← current
  match t.kind with
  | .directive => do
    next
    directive
  | .name =>
    match Opcode.ofName? t.text with
    | some op => instruction op
    | none => do
      if ((← get).findMacro? t.text).isSome then expand
      else failAt t (.unknownInstruction t.text)
  | _ => unexpected t "an instruction or directive"

/-- Takes a statement up to the line that goes on. -/
def statement (expand : Asm Unit) : Asm Unit := do
  statementBody expand
  expectEnd
  skipNewlines

/-- Takes a statement, or undoes what it has added and moves to the end of the line where it
failed. -/
def attempt (statement : Asm Unit) : Asm Unit := fun s =>
  match statement s with
  | .ok () s' => .ok () s'
  | .error e s' =>
    let s' := s'.restore s.checkpoint
    .error e { s' with cursor := s'.cursor.skipLine }

/-- Counts a statement, unless a macro stands for it. -/
def countStatement : Asm Unit :=
  modify fun s => if s.depth = 0 then { s with statements := s.statements + 1 } else s

/-- Takes one more statement and goes on with `rest`, unless the tokens are at their end. -/
def statementsRound (expand rest : Asm Unit) : Asm Unit := do
  skipNewlines
  if (← get).cursor.atEnd then return ()
  else do
    attempt (statement expand)
    countStatement
    rest

/-- Takes at most `n` statements, up to the end of the tokens. -/
def statements (expand : Asm Unit) : Nat → Asm Unit
  | 0 => return ()
  | n + 1 => statementsRound expand (statements expand n)

/-- Does something with the tokens that a use of a macro stands for under the cursor. -/
def nested (tokens : Array Token) (action : Asm Unit) : Asm Unit := fun s =>
  match action { s with cursor := ⟨tokens, 0⟩, depth := s.depth + 1 } with
  | .ok () s' => .ok () { s' with cursor := s.cursor, depth := s'.depth - 1 }
  | .error e s' => .error e { s' with cursor := s.cursor, depth := s'.depth - 1 }

/-- Takes a use of a macro and assembles what it stands for. `n` more uses can be nested, so that
where there are none the use fails. Every statement of the body takes a token, so there are no
more statements than tokens. -/
def expansion : Nat → Asm Unit
  | 0 => do
    let _ ← macroUse
  | n + 1 => do
    let tokens ← macroUse
    nested tokens (statements (expansion n) (tokens.size + 1))

/-- Takes every statement up to the end of the tokens. -/
def allStatements : Asm Unit := do statements (expansion maxDepth) ((← remaining) + 1)

end Asm

/-! ## References of a module to itself -/

/-- Whether a value moves with the page of its module. -/
def Value.isPaged : Value → Bool
  | .addr a => (a.base?.map Base.isPaged).getD false
  | _ => false

namespace Assembler

/-- Why the value of a symbol cannot stand in a slot : two integer types differ in range only. -/
def misfit (r : Reference) (s : Symbol) : AssemblyErrorKind :=
  if s.value.datatype.isInteger && r.datatype.isInteger then
    .integerOutOfRange (s.value.text ++ " (symbol '" ++ s.name ++ "')") r.datatype
  else
    .datatypeMismatch r.datatype ("symbol '" ++ s.name ++ "' (" ++ s.value.datatype.name ++ ")")

/-- Writes the values of the symbols of an object into the slots that wait for them. What no
symbol is found for is left over, in order. -/
def bindReferences (s : Assembler) (o : Object) :
    List (Reference × Position) → Except AssemblyError Object
  | [] => .ok o
  | (r, p) :: rest =>
    match s.lookup r.scope r.name with
    | none =>
      let left := { r with scope := [] }
      s.bindReferences { o with unresolved := o.unresolved ++ [left] } rest
    | some symbol =>
      match symbol.value.fit? r.datatype with
      | none => .error ⟨misfit r symbol, p⟩
      | some v =>
        match patchCell? o.code r.offset v.toCell r.datatype with
        | none => .error ⟨.undefinedSymbol r.name, p⟩
        | some code =>
          let relocations :=
            if symbol.value.isPaged && r.datatype.size == 8 then o.relocations ++ [r.offset]
            else o.relocations
          s.bindReferences { o with code := code, relocations := relocations } rest

/-- Assembles the statements of `tokens` from where the last list ended. The list has to go on
from that one. -/
def feed (s : Assembler) (tokens : Array Token) : Except AssemblyError Unit × Assembler :=
  match Asm.allStatements { s with cursor := ⟨tokens, s.cursor.pos⟩ } with
  | .ok () s => (.ok (), s)
  | .error e s => (.error e, s)

/-- The finished object. -/
def finish (s : Assembler) : Except AssemblyError Object :=
  match s.scopes with
  | scope :: _ => .error ⟨.unclosedScope scope.name, s.cursor.current.position⟩
  | [] =>
    s.bindReferences { s.object with unresolved := [] } (s.object.unresolved.zip s.positions)

end Assembler

/-- The object of a list of tokens. -/
def assemble (tokens : Array Token) (name : String) : Except AssemblyError Object :=
  match (Assembler.empty name).feed tokens with
  | (.ok (), s) => s.finish
  | (.error e, _) => .error e

end CellMachine
