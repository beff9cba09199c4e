import SourceBundle.Blank
import SourceBundle.GoFile
import SourceBundle.TextLines

/-!
# Documentation comments

The documentation of a part of a Go file is the run of comments directly above it: each comment ends
on the line before the next one begins, and none of them trails another part on its line.
-/

namespace SourceBundle.Go

/-- Drops an opening as often as the text begins with it. -/
def dropOpenings : List Char → List Char
  | '/' :: '*' :: cs => dropOpenings cs
  | cs => cs

/-- Drops a closing, given backwards, as often as the text, given backwards, begins with it. -/
def dropClosings : List Char → List Char
  | '/' :: '*' :: cs => dropClosings cs
  | cs => cs

namespace Comment

/-- What a comment says, without its marks. -/
def body (c : Comment) : List Char :=
  match c.text with
  | '/' :: '/' :: ' ' :: cs => trimEndBlank cs
  | '/' :: '/' :: cs => trimEndBlank cs
  | cs =>
    let inside := (dropClosings (dropOpenings cs).reverse).reverse
    joinWith ['\n'] ((textLines inside).map trimBlank)

end Comment

/-- Whether a comment begins on the line where the last part before it ends. The pieces before the
comment are given backwards. -/
def trails {α : Type} (c : Comment) : List (Piece α) → Bool
  | [] => false
  | .comment _ :: _ => false
  | .mark :: before => trails c before
  | .item _ endRow _ :: _ => endRow == c.startRow

/-- The comments of the run above a row, the lowest one first. The pieces above are given backwards;
a semicolon ends the run. -/
def commentsAbove {α : Type} (row : Nat) : List (Piece α) → List Comment
  | .comment c :: before =>
    if c.endRow + 1 == row && !trails c before then c :: commentsAbove c.startRow before else []
  | _ => []

/-- The text of a run of comments, the lowest one first; none if it is blank. -/
def docText (run : List Comment) : Option String :=
  let text := trimBlank (joinWith ['\n'] (run.reverse.map Comment.body))
  if text.isEmpty then none else some (String.ofList text)

/-- The parts among the pieces, each with its documentation. `before` holds the earlier pieces
backwards. -/
def documentedFrom {α : Type} (before : List (Piece α)) :
    List (Piece α) → List (α × Option String)
  | [] => []
  | .item startRow endRow value :: rest =>
    (value, docText (commentsAbove startRow before)) ::
      documentedFrom (.item startRow endRow value :: before) rest
  | piece :: rest => documentedFrom (piece :: before) rest

def documented {α : Type} (pieces : List (Piece α)) : List (α × Option String) :=
  documentedFrom [] pieces

end SourceBundle.Go
