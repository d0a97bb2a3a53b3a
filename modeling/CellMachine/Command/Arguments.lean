import CellMachine.Command.Basic

/-!
# Command lines

The words of a command line. An option is `--name value`, `--name=value`, or with its letter
`-x value`, `-xvalue` or `-x=value`. Behind `--` no word is an option. `Command.ofArguments`
reads the command that the words ask for.
-/

namespace CellMachine

/-- An option that a command knows. -/
structure OptionForm where
  name : String
  letter : Option Char
  takesValue : Bool
  deriving DecidableEq, Repr

/-- An option that is given, with its value. -/
structure GivenOption where
  name : String
  value : String
  deriving DecidableEq, Repr

/-- The words of a command line, told apart. -/
structure Arguments where
  options : List GivenOption
  words : List String
  deriving DecidableEq, Repr

namespace Arguments

/-- The option that a word with dashes names, and the value that is part of the word. -/
def match? (forms : List OptionForm) (word : String) : Option (OptionForm × Option String) :=
  match word.toList with
  | '-' :: '-' :: rest =>
    let name := String.ofList (rest.takeWhile (· != '='))
    let value :=
      match rest.dropWhile (· != '=') with
      | [] => none
      | _ :: value => some (String.ofList value)
    (forms.find? (·.name == name)).map fun f => (f, value)
  | '-' :: c :: rest =>
    let value :=
      match rest with
      | [] => none
      | '=' :: value => some (String.ofList value)
      | value => some (String.ofList value)
    (forms.find? (·.letter == some c)).map fun f => (f, value)
  | _ => none

/-- Whether a word looks like an option. -/
def isOption (word : String) : Bool :=
  match word.toList with
  | '-' :: _ :: _ => true
  | _ => false

/-- Puts an option in front. -/
def withOption (o : GivenOption) (a : Arguments) : Arguments :=
  { a with options := o :: a.options }

/-- Puts a word in front. -/
def withWord (w : String) (a : Arguments) : Arguments := { a with words := w :: a.words }

/-- Tells options and words apart. -/
def ofWords (forms : List OptionForm) : List String → Except String Arguments
  | [] => .ok ⟨[], []⟩
  | "--" :: rest => .ok ⟨[], rest⟩
  | word :: rest =>
    if isOption word then
      match match? forms word with
      | none => .error ("unexpected argument '" ++ word ++ "'")
      | some (f, value) =>
        if f.takesValue then
          match value, rest with
          | some value, rest => (ofWords forms rest).map (withOption ⟨f.name, value⟩)
          | none, value :: rest =>
            if isOption value then .error ("a value is required for '--" ++ f.name ++ "'")
            else (ofWords forms rest).map (withOption ⟨f.name, value⟩)
          | none, [] => .error ("a value is required for '--" ++ f.name ++ "'")
        else if value.isSome then .error ("unexpected value for '--" ++ f.name ++ "'")
        else (ofWords forms rest).map (withOption ⟨f.name, ""⟩)
    else (ofWords forms rest).map (withWord word)

/-- The values of an option that may be repeated. -/
def all (a : Arguments) (name : String) : List String :=
  (a.options.filter (·.name == name)).map (·.value)

/-- The value of an option that is given once at most. -/
def one? (a : Arguments) (name : String) : Except String (Option String) :=
  match a.all name with
  | [] => .ok none
  | [value] => .ok (some value)
  | _ => .error ("the argument '--" ++ name ++ "' cannot be used multiple times")

/-- A path, which is not empty. -/
def path (text : String) : Except String Path :=
  if text = "" then .error "a value is required but none was supplied" else .ok ⟨text⟩

end Arguments

namespace Command

/-- The option that every command knows : how much is logged. -/
def levelForm : OptionForm := ⟨"log-level", some 'l', true⟩

/-- The directories with modules. -/
def searchForm : OptionForm := ⟨"search", some 'I', true⟩

/-- The options of a command. -/
def forms? : String → Option (List OptionForm)
  | "tokens" => some [levelForm, ⟨"no-color", none, false⟩, ⟨"pretty", none, false⟩]
  | "build" => some [levelForm, searchForm, ⟨"output", some 'o', true⟩]
  | "run" => some [levelForm, searchForm, ⟨"grant", some 'g', true⟩, ⟨"max-steps", none, true⟩]
  | "disasm" => some [levelForm, searchForm]
  | _ => none

/-- A number of 64 bits. -/
def wordOfText? (text : String) : Option Nat :=
  let digits :=
    match text.toList with
    | '+' :: rest => rest
    | cs => cs
  if digits.isEmpty || !digits.all Text.isDigit then none
  else
    let n := digits.foldl (fun n c => 10 * n + (c.toNat - '0'.toNat)) 0
    if n < UInt64.size then some n else none

/-- The most instructions of a run. -/
def stepLimit (a : Arguments) : Except String (Option Nat) := do
  match ← a.one? "max-steps" with
  | none => return none
  | some text =>
    match wordOfText? text with
    | some n => return some n
    | none => throw ("invalid value '" ++ text ++ "' for '--max-steps'")

/-- The command of a name with its arguments. -/
def ofOptions (name : String) (file : Path) (a : Arguments) : Except String Command := do
  let search ← (a.all "search").mapM Arguments.path
  match name with
  | "tokens" =>
    let noColor ← a.one? "no-color"
    let pretty ← a.one? "pretty"
    return .tokens file ⟨noColor.isNone, pretty.isSome⟩
  | "build" => return .build file (← (← a.one? "output").mapM Arguments.path) search
  | "run" => return .run file (a.all "grant") (← stepLimit a) search
  | _ => return .list file search

/-- The names of the log levels, in the order of their numbers from one on. -/
def logLevels : List String := ["error", "warn", "info", "debug", "trace"]

/-- Whether a text is a log level : its name in letters of either case, or its number. -/
def isLevel (text : String) : Bool :=
  logLevels.contains text.toLower ||
    (wordOfText? text).any fun n => 1 ≤ n && n ≤ logLevels.length

/-- Checks the log level, which is given once at most. -/
def checkLevel (a : Arguments) : Except String Unit := do
  match ← a.one? levelForm.name with
  | none => return ()
  | some level =>
    if isLevel level then return ()
    else throw ("invalid value '" ++ level ++ "' for '--log-level'")

/-- The words in front of the name of the command, the name, and those behind it. Only the
option that every command knows may stand in front. -/
def splitAtName : List String → Option (List String × String × List String)
  | [] => none
  | word :: rest =>
    if Arguments.isOption word then
      match Arguments.match? [levelForm] word, rest with
      | some (_, none), value :: rest =>
        (splitAtName rest).map fun (front, name, back) => (word :: value :: front, name, back)
      | _, rest => (splitAtName rest).map fun (front, name, back) => (word :: front, name, back)
    else some ([], word, rest)

/-- The command that a command line asks for. The log level may be given on both sides of the
name of the command. -/
def ofArguments (words : List String) : Except String Command := do
  match splitAtName words with
  | none => throw "a command is required"
  | some (front, name, back) =>
    match forms? name with
    | none => throw ("unrecognized command '" ++ name ++ "'")
    | some forms =>
      let before ← Arguments.ofWords [levelForm] front
      let a ← Arguments.ofWords forms back
      checkLevel before
      checkLevel a
      match a.words with
      | [file] => ofOptions name (← Arguments.path file) a
      | [] => throw "a file is required"
      | _ :: word :: _ => throw ("unexpected argument '" ++ word ++ "'")

end Command

end CellMachine
