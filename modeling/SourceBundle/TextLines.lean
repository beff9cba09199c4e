/-!
# Lines and pieces of text

Splitting at a separator and joining again, and the lines of a text with either line ending.
-/

namespace SourceBundle

/-- The stretches between the separators, one more than there are separators. -/
def splitAtEach (sep : Char) : List Char → List (List Char)
  | [] => [[]]
  | c :: cs =>
    if c == sep then [] :: splitAtEach sep cs
    else
      match splitAtEach sep cs with
      | piece :: pieces => (c :: piece) :: pieces
      | [] => [[c]]

/-- The pieces with the separator between them. -/
def joinWith (sep : List Char) : List (List Char) → List Char
  | [] => []
  | [piece] => piece
  | piece :: pieces => piece ++ sep ++ joinWith sep pieces

/-- `splitAtEach` for strings. -/
def splitText (sep : Char) (text : String) : List String :=
  (splitAtEach sep text.toList).map String.ofList

/-- A line that ended in a line feed loses the carriage return before it. -/
def dropReturn (line : List Char) : List Char :=
  if line.getLast? == some '\r' then line.dropLast else line

/-- Every piece but the last one ended in a line feed; an empty last piece is no line. -/
def linesOfPieces : List (List Char) → List (List Char)
  | [] => []
  | [rest] => if rest.isEmpty then [] else [rest]
  | line :: pieces => dropReturn line :: linesOfPieces pieces

/-- The lines of a text, without their line feeds or carriage returns with line feeds. -/
def textLines (text : List Char) : List (List Char) :=
  linesOfPieces (splitAtEach '\n' text)

end SourceBundle
