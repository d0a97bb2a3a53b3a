import CellMachine.Image
import CellMachine.Instruction.Encoding

/-!
# Linking

Linking puts objects together into an image. `Linking.add` gives an object the next page and
merges its symbols and permissions into the tables of the linker; `Linker.link` then fills the
gaps in the code of every object, its own page into the relocations and the values of symbols
into the references. An object is looked at before the first table is changed, and linking
leaves the linker as it is, so that objects can be added in any order and linking be tried
again.
-/

namespace CellMachine

/-- Why objects cannot be put together. -/
inductive LinkError where
  | duplicateModule (name : String)
  | tooManyModules (limit : Nat)
  | symbolAlreadyDefined (name module : String)
  | missingModules (names : List String)
  | unresolvedSymbols (names : List String)
  | datatypeMismatch (name module : String) (expected found : Datatype)
  | valueOutOfRange (name module : String) (value : Value) (datatype : Datatype)
  | badPatchOffset (module : String) (offset : Nat)
  deriving DecidableEq, Repr

/-- The text of a link error. -/
def LinkError.message : LinkError → String
  | duplicateModule name => "module '" ++ name ++ "' added twice"
  | tooManyModules limit => "an executable holds at most " ++ toString limit ++ " modules"
  | symbolAlreadyDefined name module =>
    "symbol '" ++ name ++ "' from module '" ++ module ++ "' is already defined"
  | missingModules names => "missing modules: " ++ ", ".intercalate names
  | unresolvedSymbols names => "unresolved symbols: " ++ ", ".intercalate names
  | datatypeMismatch name module expected found =>
    "symbol '" ++ name ++ "' (" ++ found.name ++ ") cannot be used as " ++ expected.name ++
      " in module '" ++ module ++ "'"
  | valueOutOfRange name module value datatype =>
    "symbol '" ++ name ++ "' (" ++ value.text ++ ") does not fit " ++ datatype.name ++
      " in module '" ++ module ++ "'"
  | badPatchOffset module offset =>
    "patch offset " ++ toString offset ++ " outside the code of module '" ++ module ++ "'"

/-- A value as seen from another module : code and static addresses get the page of the module
that defines them. -/
def Value.withPage (v : Value) (page : Nat) : Value :=
  match v with
  | .addr a => .addr (a.withPage page)
  | v => v

/-- A symbol as seen from another module. -/
def Symbol.withPage (s : Symbol) (page : Nat) : Symbol := { s with value := s.value.withPage page }

/-- The objects added so far, their gaps not yet filled. -/
structure Linker where
  image : Image
  /-- The required modules that have not been added. -/
  wanted : NameSet
  deriving Inhabited

/-- An action of the linker that may fail; it gives the linker behind it in either case. -/
abbrev Linking := EStateM LinkError Linker

namespace Linker

/-- The linker without objects. -/
def empty : Linker := ⟨.empty, ∅⟩

/-- The required modules that have not been added, in order. -/
def missing (l : Linker) : List String := l.wanted.keys

/-- Merges a symbol of the object on a page. -/
def define (l : Linker) (page : Nat) (s : Symbol) : Linker :=
  { l with image := { l.image with
      symbols := l.image.symbols.insert s.name (s.withPage page) } }

/-- Merges the permissions of an object. -/
def permit (l : Linker) (o : Object) : Linker :=
  { l with image := { l.image with
      mandatory := NameSet.addAll l.image.mandatory o.mandatory.keys
      optional := NameSet.addAll l.image.optional o.optional.keys } }

/-- Puts an object on a page, behind the others. -/
def place (l : Linker) (o : Object) (page : Nat) : Linker :=
  { l with image := { l.image with
      objects := l.image.objects ++ [o]
      index := l.image.index.insert o.name page } }

/-- Finds out anew which required modules have not been added. -/
def update (l : Linker) : Linker :=
  { l with wanted := NameSet.ofNames ((l.image.objects.flatMap (·.required)).filter
      fun name => !l.image.index.contains name) }

end Linker

namespace Linking

/-- Merges the symbols of the object on a page. -/
def defineAll (page : Nat) : List Symbol → Linking Unit
  | [] => return ()
  | s :: rest => do
    modify (·.define page s)
    defineAll page rest

/-- Adds an object on the next page. -/
def add (o : Object) : Linking Unit := do
  let l ← get
  let page := l.image.objects.length
  if l.image.index.contains o.name then throw (.duplicateModule o.name)
  else if Address.maxPages ≤ page then throw (.tooManyModules Address.maxPages)
  else
    match o.symbols.find? fun s => l.image.symbols.contains s.name with
    | some clash => throw (.symbolAlreadyDefined clash.name o.name)
    | none => do
      defineAll page o.symbols
      modify (·.permit o)
      modify (·.place o page)
      modify (·.update)

end Linking

namespace Linker

/-- The linker with one more object, on the next page. -/
def add (l : Linker) (o : Object) : Except LinkError Linker :=
  match Linking.add o l with
  | .ok () l => .ok l
  | .error e _ => .error e

/-- Sets the page of the addresses in the given slots of the code. -/
def relocate (module : String) (page : Nat) (code : Buffer) : List Nat → Except LinkError Buffer
  | [] => .ok code
  | offset :: rest =>
    match readCell? code offset .addr with
    | none => .error (.badPatchOffset module offset)
    | some c =>
      let stamped := Cell.ofAddress (c.toAddress.withPage page)
      match patchCell? code offset stamped .addr with
      | none => .error (.badPatchOffset module offset)
      | some code => relocate module page code rest

/-- Why a value of one datatype cannot stand where another is expected : two integer types
differ in range only. -/
def misfit (r : Reference) (module : String) (v : Value) : LinkError :=
  if v.datatype.isInteger && r.datatype.isInteger then
    .valueOutOfRange r.name module v r.datatype
  else .datatypeMismatch r.name module r.datatype v.datatype

/-- Writes the values of symbols into the slots that wait for them. Gives the code and the
names without a symbol. -/
def resolve (symbols : NameMap Symbol) (module : String) (code : Buffer) :
    List Reference → Except LinkError (Buffer × List String)
  | [] => .ok (code, [])
  | r :: rest =>
    match symbols.get? r.name with
    | none => do
      let (code, names) ← resolve symbols module code rest
      return (code, r.name :: names)
    | some s =>
      match s.value.fit? r.datatype with
      | none => .error (misfit r module s.value)
      | some v =>
        match patchCell? code r.offset v.toCell r.datatype with
        | none => .error (.badPatchOffset module r.offset)
        | some code => resolve symbols module code rest

/-- Fills the gaps of the object on a page. -/
def linkObject (symbols : NameMap Symbol) (page : Nat) (o : Object) :
    Except LinkError (Object × List String) := do
  let code ← relocate o.name page o.code o.relocations
  let (code, names) ← resolve symbols o.name code o.unresolved
  return ({ o with code := code, unresolved := [], relocations := [] }, names)

/-- Fills the gaps of objects on consecutive pages. -/
def linkObjects (symbols : NameMap Symbol) (page : Nat) :
    List Object → Except LinkError (List Object × List String)
  | [] => .ok ([], [])
  | o :: rest => do
    let (o, names) ← linkObject symbols page o
    let (os, names') ← linkObjects symbols (page + 1) rest
    return (o :: os, names ++ names')

/-- The image of the objects added so far. -/
def link (l : Linker) : Except LinkError Image :=
  match l.missing with
  | [] => do
    let (objects, names) ← linkObjects l.image.symbols 0 l.image.objects
    match (NameSet.ofNames names).keys with
    | [] => return { l.image with objects := objects }
    | unresolved => .error (.unresolvedSymbols unresolved)
  | names => .error (.missingModules names)

/-- Adds objects in order. -/
def addAll (l : Linker) : List Object → Except LinkError Linker
  | [] => .ok l
  | o :: rest => do (← l.add o).addAll rest

end Linker

/-- Links objects in order; execution starts in the first one. -/
def Image.ofObjects (objects : List Object) : Except LinkError Image := do
  (← Linker.empty.addAll objects).link

end CellMachine
