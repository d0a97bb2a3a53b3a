import CellMachine.Container.Frame
import CellMachine.Image.Linker
import CellMachine.Instruction.Disassembly
import CellMachine.Library
import CellMachine.Machine.Native
import CellMachine.Machine.Step
import CellMachine.Token.Dump

/-!
# Commands

What the program can be asked to do with a file : show its tokens, link it with the modules it
requires, run it, or list its instructions. A command reads files and ends in an `Action`, which
is left to the caller; `Command.execute` carries it out on files in memory.
-/

namespace CellMachine

/-- A request. -/
inductive Command where
  /-- Shows the tokens of a source file. -/
  | tokens (file : Path) (style : DumpStyle)
  /-- Links a source file and writes the program. -/
  | build (file : Path) (output : Option Path) (search : List Path)
  /-- Runs a source file or a program. -/
  | run (file : Path) (grants : List String) (maxSteps : Option Nat) (search : List Path)
  /-- Lists the instructions of a source file or a program. -/
  | list (file : Path) (search : List Path)
  deriving DecidableEq, Repr

/-- Why a command fails. -/
inductive CommandError where
  | lex (e : LexError)
  | link (e : LinkError)
  | decode (e : DecodeError)
  | container (e : ContainerError)
  | library (e : LibraryError)
  | run (e : RunError)
  | file (e : FileError)

/-- The text of a command error. -/
def CommandError.message : CommandError → String
  | lex e => e.message
  | link e => e.message
  | decode e => e.message
  | container e => e.message
  | library e => e.message
  | run e => e.message
  | file e => e.message

/-- What is left to do when all files are read. -/
inductive Action where
  | print (text : String)
  | write (path : Path) (bytes : List UInt8)
  | run (machine : Machine)

/-- What a command leaves behind for its caller. -/
structure Report where
  /-- The exit status. -/
  status : UInt8
  stdout : List UInt8
  stderr : String
  deriving DecidableEq

/-- The report of a failure, behind what was printed before. -/
def CommandError.report (e : CommandError) (stdout : List UInt8) : Report :=
  ⟨1, stdout, "error: " ++ e.message ++ "\n"⟩

/-- The exit status of a run : the low byte of the exit code. -/
def Outcome.status : Outcome → UInt8
  | halted code => code.toUInt64.toUInt8
  | paused => 0

namespace Command

variable {m : Type → Type} [Monad m]

/-- The extension of programs. -/
def programExtension : String := "cndx"

/-- An error of one kind as an error of a command. -/
def lift {ε α : Type} (kind : ε → CommandError) (x : Except ε α) : ExceptT CommandError m α :=
  ExceptT.mk (pure (x.mapError kind))

/-- The libraries of a source file : those asked for, or else its own directory. -/
def libraryFor (file : Path) (search : List Path) : Library :=
  ⟨if search.isEmpty then [file.parent] else search, Library.sourceExtension⟩

/-- Links a source file with the modules it requires. -/
def linkSource (fs : Files m) (file : Path) (search : List Path) :
    ExceptT CommandError m Image := do
  let objects ← ExceptT.adapt .library ((libraryFor file search).load fs file)
  lift .link (Image.ofObjects objects)

/-- The program of a file, which is a program already or a source file. -/
def loadProgram (fs : Files m) (file : Path) (search : List Path) :
    ExceptT CommandError m Image := do
  if file.extension? = some programExtension then
    let bytes ← ExceptT.adapt .file (ExceptT.mk (fs.read file))
    lift .container (Container.image.ofBytes bytes)
  else linkSource fs file search

/-- Reads what a command needs. -/
def perform (fs : Files m) : Command → ExceptT CommandError m Action
  | .tokens file style => do
    let text ← ExceptT.adapt .file (fs.readText file)
    return .print (style.dump (← lift .lex (tokenize text)))
  | .build file output search => do
    let image ← linkSource fs file search
    let path := output.getD (file.withExtension programExtension)
    return .write path (Container.image.toBytes image)
  | .run file grants maxSteps search => do
    let image ← loadProgram fs file search
    let config := { Config.default with grants := .ofNames grants, maxSteps }
    return .run (← lift .run (Machine.ofImage image Native.registry config))
  | .list file search => do
    let image ← loadProgram fs file search
    return .print (← lift .decode image.listing)

/-- The report of a run. -/
def runReport (s : Machine) : Report :=
  match s.interpret none with
  | (.ok outcome, s) => ⟨outcome.status, s.host.console.toList, ""⟩
  | (.error e, s) => CommandError.report (.run e) s.host.console.toList

/-- Carries out a command on files in memory. -/
def execute (c : Command) (t : FileTree) : Report × FileTree :=
  match (c.perform t.access).run with
  | .error e => (e.report [], t)
  | .ok (.print text) => (⟨0, Text.toUtf8 text, ""⟩, t)
  | .ok (.write path bytes) =>
    match t.write path bytes with
    | .ok t => (⟨0, [], ""⟩, t)
    | .error e => (CommandError.report (.file e) [], t)
  | .ok (.run machine) => (runReport machine, t)

end Command

end CellMachine
