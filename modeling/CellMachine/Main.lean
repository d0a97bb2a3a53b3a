import CellMachine.Command.Arguments

/-!
# The command line program

Connects the commands with the file system, the standard streams and the exit status.
-/

namespace CellMachine

/-- A system error as a file error. The system counts its errors up or down from zero. -/
def FileError.ofSystem (e : IO.Error) : FileError :=
  match e with
  | .noFileOrDirectory .. => .notFound
  | .inappropriateType _ code _ =>
    if code = 21 ∨ code = 0 - 21 then .isDirectory else .notDirectory
  | .invalidArgument _ code _ =>
    if code = 36 ∨ code = 0 - 36 then .nameTooLong else .other e.toString
  | e => .other e.toString

/-- What an access gives, or its error. -/
def accessing {α : Type} (act : IO α) : IO (Except FileError α) := do
  try return .ok (← act) catch e => return .error (.ofSystem e)

/-- The files of the system. -/
def systemFiles : Files IO where
  file? p := do
    try
      let path ← IO.FS.realPath p.text
      match (← path.metadata).type with
      | .file => return some ⟨path.toString⟩
      | _ => return none
    catch _ => return none
  read p := accessing do return (← IO.FS.readBinFile p.text).data.toList
  bound := UInt64.size

/-- Writes bytes to the standard output. -/
def writeStdout (bytes : Array UInt8) : IO Unit := do
  let out ← IO.getStdout
  out.write ⟨bytes⟩
  out.flush

/-- Reports a failure. -/
def fail (e : CommandError) : IO UInt32 := do
  IO.eprint (e.report []).stderr
  return 1

/-- Runs a program to its end. What it prints is written every now and then. -/
partial def runProgram (s : Machine) : IO UInt32 := do
  let (result, s) := s.run 65536
  writeStdout s.host.console
  match result with
  | .error e => fail (.run e)
  | .ok .paused => runProgram { s with host := { s.host with console := #[] } }
  | .ok outcome => return outcome.status.toUInt32

/-- Carries out what is left to do. -/
def perform : Action → IO UInt32
  | .print text => do
    writeStdout (Text.toUtf8 text).toArray
    return 0
  | .write path bytes => do
    match ← accessing (IO.FS.writeBinFile path.text ⟨bytes.toArray⟩) with
    | .ok () => return 0
    | .error e => fail (.file e)
  | .run machine => runProgram machine

end CellMachine

open CellMachine in
/-- The program. -/
def main (args : List String) : IO UInt32 := do
  match Command.ofArguments args with
  | .error e =>
    IO.eprintln ("error: " ++ e)
    return 2
  | .ok command =>
    match ← (command.perform systemFiles).run with
    | .error e => fail e
    | .ok action => perform action
