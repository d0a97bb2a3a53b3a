import CellMachine.Text.Split

/-!
# Paths

A path is the text that names a file : segments with slashes between them. Segments that are
empty or a single dot add nothing, and the last of the others is the name of the file. A name is
its stem and, behind the last dot, its extension.
-/

namespace CellMachine

/-- A path, as it is written. -/
structure Path where
  text : String
  deriving DecidableEq, Repr

namespace Path

/-- The text between slashes, as it stands. -/
def segments (p : Path) : List String := Text.split '/' p.text

/-- Whether a path starts at the root of the file system. -/
def isAbsolute (p : Path) : Bool := p.text.toList.head? == some '/'

/-- The segments that lead somewhere. -/
def parts (p : Path) : List String := p.segments.filter fun s => s != "" && s != "."

/-- The path with given parts. -/
def ofParts (absolute : Bool) (parts : List String) : Path :=
  ⟨(if absolute then "/" else "") ++ "/".intercalate parts⟩

/-- A path behind another one. An absolute path stands for itself. -/
def join (p q : Path) : Path :=
  if q.isAbsolute then q
  else if p.text = "" ∨ p.text.toList.getLast? = some '/' then ⟨p.text ++ q.text⟩
  else ⟨p.text ++ "/" ++ q.text⟩

/-- The directory that a path points into. -/
def parent (p : Path) : Path :=
  match p.parts.dropLast with
  | [] => if p.isAbsolute then ⟨"/"⟩ else ⟨"."⟩
  | parts => ofParts p.isAbsolute parts

/-- The name of the file, unless the path ends in the directory above. -/
def fileName? (p : Path) : Option String := p.parts.getLast?.filter (· != "..")

/-- The stem and the extension of a name. A dot in front is part of the stem. -/
def splitName (name : String) : String × Option String :=
  match Text.cutAtLast? '.' name with
  | some (front, back) => if front = "" then (name, none) else (front, some back)
  | none => (name, none)

/-- The name of the file without its extension. -/
def stem? (p : Path) : Option String := p.fileName?.map fun name => (splitName name).1

/-- The extension of the file. -/
def extension? (p : Path) : Option String := p.fileName?.bind fun name => (splitName name).2

/-- The path with another extension, an empty one for none. -/
def withExtension (p : Path) (extension : String) : Path :=
  match p.stem? with
  | none => p
  | some stem =>
    let name := if extension = "" then stem else stem ++ "." ++ extension
    ofParts p.isAbsolute (p.parts.dropLast ++ [name])

end Path

end CellMachine
