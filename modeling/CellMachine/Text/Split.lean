/-!
# Cutting text

Text is cut at every occurrence of a character (`split`), or in two at the last one
(`cutAtLast?`).
-/

namespace CellMachine.Text

/-- The pieces of a text between the occurrences of a character. There is always at least
one. -/
def pieces (separator : Char) : List Char → List (List Char)
  | [] => [[]]
  | c :: cs =>
    if c = separator then [] :: pieces separator cs
    else
      match pieces separator cs with
      | [] => [[c]]
      | p :: ps => (c :: p) :: ps

/-- The pieces of a string between the occurrences of a character. -/
def split (separator : Char) (s : String) : List String :=
  (pieces separator s.toList).map String.ofList

/-- A string in front of and behind the last occurrence of a character. -/
def cutAtLast? (separator : Char) (s : String) : Option (String × String) :=
  let cs := s.toList.reverse
  match cs.dropWhile (· != separator) with
  | [] => none
  | _ :: front =>
    some (String.ofList front.reverse, String.ofList (cs.takeWhile (· != separator)).reverse)

end CellMachine.Text
