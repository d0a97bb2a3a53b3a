import CellMachine.Library.Path
import CellMachine.NameMap
import CellMachine.Text.Utf8

/-!
# Files

`Files` is what the program needs of a file system, in whatever monad it is reached. `FileTree`
is a part of a file system, in memory : files with the directories that lead to them. Paths are
followed part by part, so that a path through a directory that does not exist leads nowhere. A
path may leave the tree upwards; the directories there are known to exist, and nothing in them.
-/

namespace CellMachine

/-- Why a file cannot be read or written. -/
inductive FileError where
  | notFound
  | notDirectory
  | isDirectory
  /-- A name, or the path as a whole, has too many bytes. -/
  | nameTooLong
  /-- The file is not UTF-8. -/
  | notText
  /-- Anything else, with what the system says about it. -/
  | other (text : String)
  deriving DecidableEq, Repr

/-- The text of a file error. -/
def FileError.message : FileError → String
  | notFound => "No such file or directory (os error 2)"
  | notDirectory => "Not a directory (os error 20)"
  | isDirectory => "Is a directory (os error 21)"
  | nameTooLong => "File name too long (os error 36)"
  | notText => "stream did not contain valid UTF-8"
  | other text => text

/-- Reading access to a file system. -/
structure Files (m : Type → Type) where
  /-- The one path of the file that a path leads to, if it leads to a file. -/
  file? : Path → m (Option Path)
  /-- The content of a file. -/
  read : Path → m (Except FileError (List UInt8))
  /-- There are at most as many files. -/
  bound : Nat

/-- The content of a file that is text. -/
def Files.readText {m : Type → Type} [Monad m] (fs : Files m) (p : Path) :
    ExceptT FileError m String := do
  match Text.ofUtf8? (← ExceptT.mk (fs.read p)) with
  | some text => return text
  | none => throw .notText

/-! ## Files in memory -/

/-- Files by their paths from the top directory. -/
structure FileTree where
  files : NameMap (List UInt8)
  deriving DecidableEq

namespace FileTree

/-- What a path leads to, by its parts from the top directory. -/
inductive Place where
  | file (parts : List String)
  | directory (parts : List String)
  /-- A directory outside of the tree. -/
  | outside
  deriving DecidableEq, Repr

/-- The name of a place in the tree. -/
def key (parts : List String) : String := "/".intercalate parts

/-- A tree of the given files. -/
def ofList (files : List (String × List UInt8)) : FileTree :=
  ⟨NameMap.ofList (files.map fun (name, bytes) => (key (Path.parts ⟨name⟩), bytes))⟩

/-- Whether some file is below a place. -/
def isDirectory (t : FileTree) (parts : List String) : Bool :=
  parts.isEmpty || t.files.keys.any fun k => (key parts ++ "/").toList.isPrefixOf k.toList

/-- The most bytes of one name. -/
def maxName : Nat := 255

/-- The most bytes of a path. -/
def maxPath : Nat := 4095

/-- The error for a name that does not exist. -/
def missing (name : String) : FileError :=
  if maxName < name.utf8ByteSize then .nameTooLong else .notFound

/-- Follows segments of a path outside of the tree. The way up ends at the root of the file
system, which is above itself. -/
def followOutside : List String → Except FileError Place
  | [] => .ok .outside
  | s :: rest =>
    if s = "" ∨ s = "." ∨ s = ".." then followOutside rest else .error (missing s)

/-- Follows segments of a path from a directory on. -/
def follow (t : FileTree) (dir : List String) : List String → Except FileError Place
  | [] => .ok (.directory dir)
  | s :: rest =>
    if s = "" ∨ s = "." then t.follow dir rest
    else if s = ".." then
      if dir = [] then followOutside rest else t.follow dir.dropLast rest
    else if t.isDirectory (dir ++ [s]) then t.follow (dir ++ [s]) rest
    else if t.files.contains (key (dir ++ [s])) then
      if rest = [] then .ok (.file (dir ++ [s])) else .error .notDirectory
    else .error (missing s)

/-- Follows some of the segments of a path from where the path starts. -/
def followFor (t : FileTree) (p : Path) (segments : List String) : Except FileError Place :=
  if p.text = "" then .error .notFound
  else if maxPath < p.text.utf8ByteSize then .error .nameTooLong
  else if p.isAbsolute then followOutside segments
  else t.follow [] segments

/-- What a path leads to. -/
def place (t : FileTree) (p : Path) : Except FileError Place := t.followFor p p.segments

/-- The content of a file. -/
def read (t : FileTree) (p : Path) : Except FileError (List UInt8) :=
  match t.place p with
  | .error e => .error e
  | .ok (.file parts) => .ok ((t.files.get? (key parts)).getD [])
  | .ok (.directory _) | .ok .outside => .error .isDirectory

/-- The tree with a file written, in a directory that exists. A file outside of the tree leaves
the tree as it is. -/
def write (t : FileTree) (p : Path) (bytes : List UInt8) : Except FileError FileTree := do
  let reversed := p.segments.reverse.dropWhile (· == "")
  let name := reversed.headD "."
  let isName := reversed.length = p.segments.length ∧ name ≠ "." ∧ name ≠ ".."
  match ← t.followFor p reversed.tail.reverse with
  | .file _ => throw .notDirectory
  | .outside =>
    if ¬isName then throw .isDirectory
    else if maxName < name.utf8ByteSize then throw .nameTooLong
    else return t
  | .directory dir =>
    if ¬isName ∨ t.isDirectory (dir ++ [name]) then throw .isDirectory
    else if maxName < name.utf8ByteSize then throw .nameTooLong
    else return ⟨t.files.insert (key (dir ++ [name])) bytes⟩

/-- Reading access to a tree. -/
def access (t : FileTree) : Files Id where
  file? p :=
    match t.place p with
    | .ok (.file parts) => some ⟨key parts⟩
    | _ => none
  read p := t.read p
  bound := t.files.entries.length

/-- The files that are new or different in a later tree. -/
def changes (before after : FileTree) : List (String × List UInt8) :=
  after.files.entries.filter fun (name, bytes) => before.files.get? name != some bytes

end FileTree

end CellMachine
