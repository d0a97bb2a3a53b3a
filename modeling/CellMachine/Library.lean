import CellMachine.Assembly.Statement
import CellMachine.Library.Files
import CellMachine.Token.Scanner

/-!
# Libraries

A library is a list of directories with modules. The module `io.files` is in the file
`io/files.cin` below one of them, and only one may have it. `Library.load` assembles a program
with all modules that it requires : breadth first, each module once.
-/

namespace CellMachine

/-- Where modules are. -/
structure Library where
  dirs : List Path
  /-- The extension of the files. -/
  extension : String
  deriving DecidableEq, Repr

/-- Why a module cannot be had. -/
inductive LibraryError where
  | notFound (name : String) (searched : Nat)
  | ambiguous (name : String) (candidates : List Path)
  | unreadable (path : Path) (e : FileError)
  | lex (path : Path) (e : LexError)
  | assembly (path : Path) (e : AssemblyError)
  deriving DecidableEq, Repr

/-- The text of a library error. -/
def LibraryError.message : LibraryError → String
  | notFound name searched =>
    "module '" ++ name ++ "' not found in " ++ toString searched ++ " search directories"
  | ambiguous name candidates =>
    "module '" ++ name ++ "' is ambiguous: " ++ ", ".intercalate (candidates.map (·.text))
  | unreadable path e => "cannot read '" ++ path.text ++ "': " ++ e.message
  | lex path e => path.text ++ ":" ++ e.message
  | assembly path e => path.text ++ ":" ++ e.message

namespace Library

variable {m : Type → Type} [Monad m]

/-- The extension of source files. -/
def sourceExtension : String := "cin"

/-- The path of a module below its directory : the dots of its name become slashes. -/
def relativePath (l : Library) (name : String) : Path :=
  let path := (Text.split '.' name).foldl (fun (p : Path) s => p.join ⟨s⟩) ⟨""⟩
  path.withExtension l.extension

/-- The different files that a path leads to from the given directories. -/
def candidates (fs : Files m) (relative : Path) : List Path → List Path → m (List Path)
  | found, [] => return found
  | found, dir :: dirs => do
    match ← fs.file? (dir.join relative) with
    | none => candidates fs relative found dirs
    | some path =>
      if path ∈ found then candidates fs relative found dirs
      else candidates fs relative (found ++ [path]) dirs

/-- The file of a module. -/
def locate (l : Library) (fs : Files m) (name : String) : ExceptT LibraryError m Path := do
  match ← ExceptT.lift (candidates fs (l.relativePath name) [] l.dirs) with
  | [] => throw (.notFound name l.dirs.length)
  | [path] => return path
  | paths => throw (.ambiguous name paths)

/-- The tokens of a file. -/
def readTokens (fs : Files m) (path : Path) : ExceptT LibraryError m (Array Token) := do
  match ← ExceptT.lift (fs.readText path).run with
  | .error e => throw (.unreadable path e)
  | .ok text =>
    match tokenize text with
    | .error e => throw (.lex path e)
    | .ok tokens => return tokens

/-- The module with a given name that a file holds. -/
def readObject (fs : Files m) (path : Path) (name : String) : ExceptT LibraryError m Object := do
  match assemble (← readTokens fs path) name with
  | .error e => throw (.assembly path e)
  | .ok object => return object

/-- Assembles the pending modules and what they require in turn. A module that was seen before is
left out. At most `n` modules may require one that has neither been seen nor is pending. -/
def loadPending (l : Library) (fs : Files m) (n : Nat) (seen : List String) :
    List String → ExceptT LibraryError m (List Object)
  | [] => return []
  | name :: rest =>
    if name ∈ seen then l.loadPending fs n seen rest
    else do
      let object ← readObject fs (← l.locate fs name) name
      if object.required.all fun r => r ∈ name :: seen ∨ r ∈ rest then
        return object :: (← l.loadPending fs n (name :: seen) rest)
      else
        match n with
        | 0 => throw (.notFound name l.dirs.length)
        | n + 1 =>
          return object :: (← l.loadPending fs n (name :: seen) (rest ++ object.required))
termination_by pending => (n, pending.length)

/-- Assembles a file and all modules that it requires, the file itself first. Whatever its name as
a module, a file requires the same modules, so that they are new only once for every file. -/
def load (l : Library) (fs : Files m) (root : Path) : ExceptT LibraryError m (List Object) := do
  let name := root.stem?.getD "main"
  let object ← readObject fs root name
  return object :: (← l.loadPending fs fs.bound [name] object.required)

end Library

end CellMachine
