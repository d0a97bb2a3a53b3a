import CellMachine.Container.Object

/-!
# Containers

A container holds an object or an image on disk : four bytes that name its kind, three of the
version that wrote it, and the body. A reader refuses another kind and a version newer than
its own, and ignores what follows the body.
-/

namespace CellMachine

/-- Why a container cannot be read. -/
inductive ContainerError where
  | badMagic (expected : String)
  | unsupportedVersion (major minor patch : UInt8)
  | malformed (e : CodecError)
  deriving DecidableEq, Repr

/-- The text of a container error. -/
def ContainerError.message : ContainerError → String
  | badMagic expected => "bad magic: expected \"" ++ expected ++ "\""
  | unsupportedVersion major minor patch =>
    "unsupported format version " ++ toString major.toNat ++ "." ++ toString minor.toNat ++ "." ++
      toString patch.toNat
  | malformed e => "malformed body: " ++ e.message

/-- A kind of container. -/
structure Container (α : Type) where
  /-- Four characters that every container of this kind starts with. -/
  magic : String
  body : Codec α

namespace Container

variable {α : Type}

/-- The version that containers are written with, major and minor number. -/
def version : UInt8 × UInt8 := (0, 1)

/-- The bytes of the kind. -/
def magicBytes (c : Container α) : List UInt8 := c.magic.toUTF8.data.toList

/-- The bytes of a container. -/
def toBytes (c : Container α) (x : α) : List UInt8 :=
  c.magicBytes ++ [version.1, version.2, 0] ++ c.body.write x

/-- Whether a version is newer than the one containers are written with. -/
def isNewer (major minor : UInt8) : Bool :=
  version.1 < major || (version.1 == major && version.2 < minor)

/-- Reads a container. -/
def ofBytes (c : Container α) (bs : List UInt8) : Except ContainerError α :=
  if !c.magicBytes.isPrefixOf bs then .error (.badMagic c.magic)
  else
    match bs.drop c.magicBytes.length with
    | major :: minor :: patch :: rest =>
      if isNewer major minor then .error (.unsupportedVersion major minor patch)
      else
        match c.body.read rest with
        | .ok (x, _) => .ok x
        | .error e => .error (.malformed e)
    | _ => .error (.malformed .truncated)

/-- Containers of assembled modules. -/
def object : Container Object := ⟨"CNDO", Codec.object⟩

/-- Containers of linked programs. -/
def image : Container Image := ⟨"CNDX", Codec.image⟩

end Container

end CellMachine
