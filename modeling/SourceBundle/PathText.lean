import SourceBundle.DiskName
import SourceBundle.TextLines

/-!
# Paths as text

A path is a text whose pieces are parted by slashes. Empty pieces and single dots, other than a dot
at the very start, name no step; a path that begins with a slash is absolute.
-/

namespace SourceBundle.PathText

def isAbsolute (path : String) : Bool :=
  path.toList.head? == some '/'

def pieces (path : String) : List String :=
  splitText '/' path

def ofPieces (ps : List String) : String :=
  String.intercalate "/" ps

/-- The bytes that the system knows the path by. -/
def bytes (path : String) : List UInt8 :=
  [0x2F].intercalate ((pieces path).map DiskName.bytes)

/-- The path as messages show it. -/
def shown (path : String) : String :=
  String.ofList (Utf8.decode (bytes path))

/-- A piece that names no step. -/
def isTrivial (piece : String) : Bool :=
  piece == "" || piece == "."

/-- Drops pieces that name no step from the end, down to the first piece. -/
def trimPieces (ps : List String) : List String :=
  match ps with
  | [] => []
  | first :: rest => first :: (rest.reverse.dropWhile isTrivial).reverse

/-- The pieces up to the last one that names a step; an absolute path keeps its empty first piece,
and a path of no step has none but that. -/
def stepPieces (path : String) : List String :=
  match trimPieces (pieces path) with
  | [first] => if first == "" && !isAbsolute path then [] else [first]
  | ps => ps

/-- The path without its last step, if it has one. -/
def parent? (path : String) : Option String :=
  match stepPieces path with
  | [] => none
  | [first] => if first == "" then none else some ""
  | ps =>
    match trimPieces ps.dropLast with
    | [""] => some "/"
    | front => some (ofPieces front)

/-- The path after dropping `n` steps, or the empty path where there are not so many. -/
def ancestor : Nat → String → String
  | 0, path => path
  | n + 1, path =>
    match parent? path with
    | some p => ancestor n p
    | none => ""

/-- An absolute second path replaces the first one. -/
def join (base path : String) : String :=
  if isAbsolute path then path
  else if base == "" || base.toList.getLast? == some '/' then base ++ path
  else base ++ "/" ++ path

/-- The last step, if it is a name. -/
def fileName? (path : String) : Option String :=
  match (stepPieces path).getLast? with
  | some p => if isTrivial p || p == ".." then none else some p
  | none => none

/-- What stands behind the last dot of a name, if something stands before that dot. -/
def extensionOfName (name : List UInt8) : Option (List UInt8) :=
  let ending := (name.reverse.takeWhile (· != 0x2E)).reverse
  let stem := name.take (name.length - ending.length - 1)
  if ending.length < name.length && !stem.isEmpty then some ending else none

/-- The extension of a path's last step, if it is a text. -/
def extension? (path : String) : Option String :=
  (fileName? path).bind fun name =>
    (extensionOfName (DiskName.bytes name)).bind fun ext => (Utf8.decode? ext).map String.ofList

end SourceBundle.PathText
