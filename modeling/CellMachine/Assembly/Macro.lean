import CellMachine.Assembly.State
import CellMachine.Instruction.Opcode

/-!
# Macros

A macro is a list of tokens under a name. Its definition reaches to the matching `#end`; a use
stands for the tokens with the arguments in the place of the parameters (`MacroDef.expand`).
-/

namespace CellMachine

/-- Whether a directive opens a block that an `#end` closes. -/
def opensBlock (directive : String) : Bool := directive ∈ ["scope", "func", "funx", "macro"]

/-- How many blocks are open behind the token `t` if `depth` are in front of it. `directive` is the
text of the token behind it. -/
def blocksBehind (depth : Nat) (t : Token) (directive : String) : Nat :=
  if t.kind == .directive then
    if directive == "end" then depth - 1
    else if opensBlock directive then depth + 1
    else depth
  else depth

/-- The token of a body with an argument in the place of a parameter. The first parameter of a
name counts. -/
def substitute (bindings : List (String × List Token)) (t : Token) : List Token :=
  if t.kind == .name then
    match bindings.find? (·.1 == t.text) with
    | some b => b.2
    | none => [t]
  else [t]

/-- The tokens that a use of a macro stands for. -/
def MacroDef.expand (d : MacroDef) (args : List (List Token)) : List Token :=
  d.body.flatMap (substitute (d.params.zip args))

namespace Parser

/-- Takes one more name behind a colon and goes on with `rest`, if there is one. -/
def macroParamsRound (rest : Parser (List String)) : Parser (List String) := do
  if ← take? .colon then
    let name ← expectName
    return name :: (← rest)
  else return []

/-- Takes at most `n` names behind colons. -/
def macroParams : Nat → Parser (List String)
  | 0 => return []
  | n + 1 => macroParamsRound (macroParams n)

/-- Takes a token of a body with `depth` blocks open and goes on with `rest`, up to the `#end` that
matches. -/
def macroBodyRound (rest : Nat → Parser (Option (List Token))) (depth : Nat) :
    Parser (Option (List Token)) := do
  let t ← current
  let directive := (← peek).text
  if t.isEnd then return none
  else if t.kind == .directive && directive == "end" && depth == 0 then do
    next
    next
    return some []
  else do
    next
    return (← rest (blocksBehind depth t directive)).map (t :: ·)

/-- Takes at most `n` tokens up to the `#end` that matches, with `depth` blocks open. There is none
if the text ends before. -/
def macroBody (depth : Nat) : Nat → Parser (Option (List Token))
  | 0 => return none
  | n + 1 => macroBodyRound (macroBody · n) depth

/-- Takes a token of an argument and goes on with `rest`, unless there is a colon or the end of the
statement. -/
def argumentTokensRound (rest : Parser (List Token)) : Parser (List Token) := do
  let t ← current
  if t.kind == .colon || t.endsStatement then return []
  else do
    next
    return t :: (← rest)

/-- Takes at most `n` tokens up to a colon or the end of the statement. -/
def argumentTokens : Nat → Parser (List Token)
  | 0 => return []
  | n + 1 => argumentTokensRound (argumentTokens n)

/-- Takes one more argument behind a colon and goes on with `rest`, if there is one. -/
def macroArgumentsRound (rest : Parser (List (List Token))) : Parser (List (List Token)) := do
  if ← take? .colon then
    let arg ← argumentTokens (← remaining)
    if arg.isEmpty then unexpected (← current) "a macro argument"
    else return arg :: (← rest)
  else return []

/-- Takes at most `n` arguments of a macro, each behind a colon. -/
def macroArguments : Nat → Parser (List (List Token))
  | 0 => return []
  | n + 1 => macroArgumentsRound (macroArguments n)

/-- Takes the parameters and the body of the macro that `t` names, with the `#end` behind them. -/
def macroDef (t : Token) : Parser MacroDef := do
  let params ← macroParams (← remaining)
  expectEnd
  match ← macroBody 0 (← remaining) with
  | none => failAt t (.unterminatedMacro t.text)
  | some body =>
    expectEnd
    return ⟨params, body⟩

end Parser

/-- How deep the uses of macros can be nested. -/
def maxDepth : Nat := 64

namespace Asm

open CellMachine.Parser

/-- Adds a macro to the table. -/
def addMacro (name : String) (d : MacroDef) : Asm Unit :=
  modify fun s => { s with macros := s.macros ++ [(name, d)] }

/-- `#macro name : p : …`, the body, and its `#end`. -/
def defineMacro : Asm Unit := do
  let t ← expect .name "a macro name"
  if ((← get).findMacro? t.text).isSome || (Opcode.ofName? t.text).isSome then
    failAt t (.macroAlreadyDefined t.text)
  else addMacro t.text (← macroDef t)

/-- Takes a use of a macro. Gives the tokens it stands for. -/
def macroUse : Asm (Array Token) := do
  let call ← current
  match (← get).findMacro? call.text with
  | none => failAt call (.unknownInstruction call.text)
  | some d =>
    next
    let args ← macroArguments (← remaining)
    if args.length ≠ d.params.length then
      failAt call (.macroArity call.text d.params.length args.length)
    else if maxDepth ≤ (← get).depth then failAt call (.macroRecursion call.text)
    else return (d.expand args).toArray.push (.endOfCode call.position)

end Asm

end CellMachine
