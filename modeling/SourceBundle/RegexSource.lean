import SourceBundle.PatternRegex

/-!
# Source text of path expressions

How an expression is written, and the reader that takes written expressions back. The reader also
refuses an expression whose automaton would outgrow `Regex.sizeLimit`.
-/

namespace SourceBundle

/-- The characters that mean something in an expression, and so are written with a backslash. -/
def regexMeta : List Char :=
  ['\\', '.', '+', '*', '?', '(', ')', '|', '[', ']', '\x7b', '\x7d', '^', '$', '#', '&', '-', '~']

/-- A character that stands for itself. -/
def escapeChar (c : Char) : List Char :=
  if regexMeta.contains c then ['\\', c] else [c]

/-! ## Writing -/

def ClassMember.source : ClassMember → List Char
  | .single c => escapeChar c
  | .range lo hi => escapeChar lo ++ '-' :: escapeChar hi

def CharClass.source : CharClass → List Char
  | .only c => escapeChar c
  | .notNewline => ['.']
  | .members negated items =>
    '[' :: (if negated then ['^'] else []) ++ items.flatMap ClassMember.source ++ [']']

def Atom.source : Atom → List Char
  | .one cls => cls.source
  | .star cls => cls.source ++ ['*']
  | .plus cls => cls.source ++ ['+']
  | .textStart => ['^']
  | .textEnd => ['$']

/-- Branches are parted by bars. -/
def branchesSource : List (List Atom) → List Char
  | [] => []
  | [b] => b.flatMap Atom.source
  | b :: bs => b.flatMap Atom.source ++ '|' :: branchesSource bs

def Piece.source : Piece → List Char
  | .atom a => a.source
  | .group branches => ['(', '?', ':'] ++ branchesSource branches ++ [')']

def Regex.source (r : Regex) : List Char :=
  r.pieces.flatMap Piece.source

/-! ## Reading -/

/-- One literal character, with or without its backslash. -/
def readLiteral? : List Char → Option (Char × List Char)
  | '\\' :: c :: cs => if regexMeta.contains c then some (c, cs) else none
  | c :: cs => if regexMeta.contains c then none else some (c, cs)
  | [] => none

/-- The members up to the closing bracket; `fuel` bounds their number. -/
def readMembers? : Nat → List Char → Option (List ClassMember × List Char)
  | 0, _ => none
  | _ + 1, ']' :: cs => some ([], cs)
  | fuel + 1, cs => do
    let (lo, rest) ← readLiteral? cs
    match rest with
    | '-' :: rest =>
      let (hi, rest) ← readLiteral? rest
      if hi < lo then none
      let (items, rest) ← readMembers? fuel rest
      some (.range lo hi :: items, rest)
    | _ =>
      let (items, rest) ← readMembers? fuel rest
      some (.single lo :: items, rest)

/-- A class has at least one member. -/
def readClass? (cs : List Char) : Option (CharClass × List Char) :=
  match cs with
  | '.' :: rest => some (.notNewline, rest)
  | '[' :: '^' :: rest => do
    let (items, rest') ← readMembers? (rest.length + 1) rest
    if items.isEmpty then none else some (.members true items, rest')
  | '[' :: rest => do
    let (items, rest') ← readMembers? (rest.length + 1) rest
    if items.isEmpty then none else some (.members false items, rest')
  | _ => (readLiteral? cs).map fun (c, rest) => (.only c, rest)

def readAtom? (cs : List Char) : Option (Atom × List Char) :=
  match cs with
  | '^' :: rest => some (.textStart, rest)
  | '$' :: rest => some (.textEnd, rest)
  | _ => do
    let (cls, rest) ← readClass? cs
    match rest with
    | '*' :: rest => some (.star cls, rest)
    | '+' :: rest => some (.plus cls, rest)
    | _ => some (.one cls, rest)

/-- The branches of a group up to its closing parenthesis. -/
def readBranches? : Nat → List Char → Option (List (List Atom) × List Char)
  | 0, _ => none
  | _ + 1, ')' :: cs => some ([[]], cs)
  | fuel + 1, '|' :: cs => do
    let (branches, rest) ← readBranches? fuel cs
    some ([] :: branches, rest)
  | fuel + 1, cs => do
    let (a, rest) ← readAtom? cs
    match ← readBranches? fuel rest with
    | (branch :: branches, rest) => some ((a :: branch) :: branches, rest)
    | ([], _) => none

def readPieces? : Nat → List Char → Option (List Piece)
  | _, [] => some []
  | 0, _ :: _ => none
  | fuel + 1, '(' :: '?' :: ':' :: cs => do
    let (branches, rest) ← readBranches? (cs.length + 1) cs
    let pieces ← readPieces? fuel rest
    some (.group branches :: pieces)
  | fuel + 1, cs => do
    let (a, rest) ← readAtom? cs
    let pieces ← readPieces? fuel rest
    some (.atom a :: pieces)

/-- The expression that the text writes, if it writes one. -/
def Regex.read? (source : List Char) : Option Regex :=
  (readPieces? source.length source).map Regex.mk

/-! ## Size -/

/-- The memory that one class takes in a byte automaton: a state for each byte of a single
character, and the branching over encoded lengths for a set. -/
def CharClass.weight : CharClass → Nat
  | .only c => 32 * c.utf8Size
  | .notNewline => 400
  | .members _ items => 400 + 8 * items.length

def Atom.weight : Atom → Nat
  | .one cls => cls.weight
  | .star cls | .plus cls => cls.weight + 40
  | .textStart | .textEnd => 32

def Piece.weight : Piece → Nat
  | .atom a => a.weight
  | .group branches =>
    64 + (branches.map fun b => 8 + (b.map Atom.weight).foldl (· + ·) 0).foldl (· + ·) 0

def Regex.weight (r : Regex) : Nat :=
  (r.pieces.map Piece.weight).foldl (· + ·) 0

/-- Ten mebibytes. -/
def Regex.sizeLimit : Nat := 10 * 1024 * 1024

/-- Reads an expression and refuses one that is too large. -/
def Regex.compile? (source : List Char) : Option Regex :=
  (Regex.read? source).filter (·.weight ≤ Regex.sizeLimit)

end SourceBundle
