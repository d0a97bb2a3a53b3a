import CellMachine.Assembly.Statement
import CellMachine.Image.Linker
import CellMachine.Token.Scanner

/-!
# Images of source text

A program of a single module, from its source text to its image.
-/

namespace CellMachine

/-- Why source text is not a program. -/
inductive SourceError where
  | lex (e : LexError)
  | assembly (e : AssemblyError)
  | link (e : LinkError)
  deriving DecidableEq, Repr

/-- The object assembled from source text. -/
def Object.ofSource (text name : String) : Except SourceError Object := do
  let tokens ← (tokenize text).mapError .lex
  (assemble tokens name).mapError .assembly

/-- The image of a program of one module. -/
def Image.ofSource (text name : String) : Except SourceError Image := do
  let object ← Object.ofSource text name
  (Image.ofObjects [object]).mapError .link

end CellMachine
