/-!
# Path expressions

The regular expressions that path patterns are translated into: a sequence of pieces, each one an
atom or a group of alternatives, with no group inside a group. `Regex.Spans` says which stretch of
a text an expression describes; `Regex.isMatch` decides by advancing a set of places through the
pieces, so its work is bounded by the product of the expression and the text.
-/

namespace SourceBundle

/-- A member of a bracketed class. -/
inductive ClassMember where
  | single (c : Char)
  | range (lo hi : Char)
  deriving DecidableEq, Repr

/-- A set of characters that one position of a text may hold. -/
inductive CharClass where
  | only (c : Char)
  | notNewline
  | members (negated : Bool) (items : List ClassMember)
  deriving DecidableEq, Repr

namespace ClassMember

def contains (c : Char) : ClassMember → Bool
  | .single d => c == d
  | .range lo hi => lo ≤ c && c ≤ hi

end ClassMember

namespace CharClass

def contains (c : Char) : CharClass → Bool
  | .only d => c == d
  | .notNewline => c != '\n'
  | .members negated items => items.any (·.contains c) != negated

/-- Every character but the separator of path components. -/
def notSlash : CharClass := .members true [.single '/']

end CharClass

/-- The smallest parts of an expression. -/
inductive Atom where
  | one (cls : CharClass)
  | star (cls : CharClass)
  | plus (cls : CharClass)
  | textStart
  | textEnd
  deriving DecidableEq, Repr

/-- An atom, or a choice between sequences of atoms. -/
inductive Piece where
  | atom (a : Atom)
  | group (branches : List (List Atom))
  deriving DecidableEq, Repr

structure Regex where
  pieces : List Piece
  deriving DecidableEq, Repr

/-! ## Which stretches an expression describes -/

/-- `a.Spans before text after`: the atom describes `text` where it stands between the two. -/
inductive Atom.Spans : Atom → List Char → List Char → List Char → Prop where
  | one {cls before c after} (h : cls.contains c = true) : Spans (.one cls) before [c] after
  | star {cls before text after} (h : ∀ c ∈ text, cls.contains c = true) :
      Spans (.star cls) before text after
  | plus {cls before text after} (h : ∀ c ∈ text, cls.contains c = true) (ne : text ≠ []) :
      Spans (.plus cls) before text after
  | textStart {after} : Spans .textStart [] [] after
  | textEnd {before} : Spans .textEnd before [] []

inductive Atom.SeqSpans : List Atom → List Char → List Char → List Char → Prop where
  | nil {before after} : SeqSpans [] before [] after
  | cons {a as before s t after} (head : a.Spans before s (t ++ after))
      (tail : SeqSpans as (before ++ s) t after) : SeqSpans (a :: as) before (s ++ t) after

inductive Piece.Spans : Piece → List Char → List Char → List Char → Prop where
  | atom {a before text after} (h : a.Spans before text after) :
      Spans (.atom a) before text after
  | group {branches branch before text after} (mem : branch ∈ branches)
      (h : Atom.SeqSpans branch before text after) : Spans (.group branches) before text after

inductive Piece.SeqSpans : List Piece → List Char → List Char → List Char → Prop where
  | nil {before after} : SeqSpans [] before [] after
  | cons {p ps before s t after} (head : p.Spans before s (t ++ after))
      (tail : SeqSpans ps (before ++ s) t after) : SeqSpans (p :: ps) before (s ++ t) after

/-- Some stretch of the text is described by the whole expression. -/
def Regex.Matches (r : Regex) (text : List Char) : Prop :=
  ∃ before middle after, text = before ++ middle ++ after ∧
    Piece.SeqSpans r.pieces before middle after

/-! ## Deciding by places -/

/-- A place in a text: the characters still ahead, with their number. -/
structure Place where
  ahead : Nat
  chars : List Char
  deriving DecidableEq, Repr

namespace Place

/-- Every place of a text of `n` characters, the first one first. -/
def allFrom (n : Nat) : List Char → List Place
  | [] => [⟨n, []⟩]
  | c :: cs => ⟨n, c :: cs⟩ :: allFrom (n - 1) cs

/-- Steps over one character of the class. -/
def step? (cls : CharClass) (p : Place) : Option Place :=
  match p.chars with
  | [] => none
  | c :: cs => if cls.contains c then some ⟨p.ahead - 1, cs⟩ else none

/-- The places from `chars` on through characters of the class, while at least `low` are ahead. -/
def runFrom (cls : CharClass) (low ahead : Nat) : List Char → List Place
  | [] => if low ≤ ahead then [⟨ahead, []⟩] else []
  | c :: cs =>
    if low ≤ ahead then
      ⟨ahead, c :: cs⟩ :: (if cls.contains c then runFrom cls low (ahead - 1) cs else [])
    else []

/-- The places reached from any of the given ones by a run of the class. A run stops where the
next given place takes over, so no place is listed twice. -/
def runs (cls : CharClass) : List Place → List Place
  | [] => []
  | [p] => runFrom cls 0 p.ahead p.chars
  | p :: q :: ps => runFrom cls (q.ahead + 1) p.ahead p.chars ++ runs cls (q :: ps)

/-- Keeps the first of adjacent equal places. -/
def dedup : List Place → List Place
  | [] => []
  | [p] => [p]
  | p :: q :: ps => if p.ahead == q.ahead then dedup (q :: ps) else p :: dedup (q :: ps)

/-- The union of two lists of places, each with the first place first. -/
def union (ps qs : List Place) : List Place :=
  dedup (ps.merge qs fun p q => q.ahead ≤ p.ahead)

end Place

/-- The places behind the atom, for a text of `size` characters. -/
def Atom.advance (size : Nat) (ps : List Place) : Atom → List Place
  | .one cls => ps.filterMap (Place.step? cls)
  | .star cls => Place.runs cls ps
  | .plus cls => Place.runs cls (ps.filterMap (Place.step? cls))
  | .textStart => ps.filter (·.ahead == size)
  | .textEnd => ps.filter (·.ahead == 0)

def Piece.advance (size : Nat) (ps : List Place) : Piece → List Place
  | .atom a => a.advance size ps
  | .group branches =>
    branches.foldl (fun found branch => Place.union found (branch.foldl (Atom.advance size) ps)) []

/-- Whether some stretch of the text is described by the expression. -/
def Regex.isMatch (r : Regex) (text : List Char) : Bool :=
  let size := text.length
  !(r.pieces.foldl (Piece.advance size) (Place.allFrom size text)).isEmpty

end SourceBundle
