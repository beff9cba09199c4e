import SourceBundle.RegexSource

/-!
# Translation of path patterns

A pattern is read from left to right into tokens. Where it may begin in a path is its anchor, and
a trailing slash decides what may follow. `translate` writes the expression of all three.
-/

namespace SourceBundle

/-- Where a pattern may begin. -/
inductive Anchor where
  /-- A leading slash: at the root, whether or not the path is written with a slash itself. -/
  | root
  /-- Leading stars and a slash: below any directory. -/
  | anyDepth
  /-- Neither: at the root. -/
  | bare
  deriving DecidableEq, Repr

inductive PatternToken where
  /-- Two stars between slashes. -/
  | between
  /-- Two stars and a slash. -/
  | leading
  /-- A slash and two stars. -/
  | trailing
  | star
  | question
  | bracket (negated : Bool) (items : List ClassMember)
  | literal (c : Char)
  deriving DecidableEq, Repr

namespace PatternToken

/-! ## Bracket expressions -/

/-- The members of a bracket expression up to its closing bracket, without their backslashes, and
how many characters they and the bracket take. -/
def members? : List Char → Option (List Char × Nat)
  | [] => none
  | ['\\'] => none
  | ']' :: _ => some ([], 1)
  | '\\' :: c :: cs => (members? cs).map fun (ms, n) => (c :: ms, n + 2)
  | c :: cs => (members? cs).map fun (ms, n) => (c :: ms, n + 1)

/-- A bracket right after the opening one is a member. -/
def firstMembers? : List Char → Option (List Char × Nat)
  | ']' :: cs => (members? cs).map fun (ms, n) => (']' :: ms, n + 1)
  | cs => members? cs

/-- Two members around a hyphen are a range; written the wrong way round they are three members. -/
def classItems : List Char → List ClassMember
  | lo :: '-' :: hi :: ms =>
    if lo ≤ hi then .range lo hi :: classItems ms
    else .single lo :: .single '-' :: .single hi :: classItems ms
  | c :: ms => .single c :: classItems ms
  | [] => []

/-- The bracket expression whose opening bracket stands before the text, with the number of
characters it takes. -/
def bracket? : List Char → Option (PatternToken × Nat)
  | [] => none
  | c :: cs =>
    if c == '!' || c == '^' then
      (firstMembers? cs).map fun (ms, n) => (.bracket true (classItems ms), n + 1)
    else
      (firstMembers? (c :: cs)).map fun (ms, n) => (.bracket false (classItems ms), n)

/-! ## The scan -/

/-- The tokens of a pattern behind its anchor. `skip` characters already belong to a token. -/
def scanFrom : Nat → List Char → List PatternToken
  | _, [] => []
  | skip + 1, _ :: cs => scanFrom skip cs
  | 0, '/' :: '*' :: '*' :: '/' :: cs => .between :: scanFrom 0 cs
  | 0, '*' :: '*' :: '/' :: cs => .leading :: scanFrom 0 cs
  | 0, '/' :: '*' :: '*' :: cs => .trailing :: scanFrom 0 cs
  | 0, '\\' :: c :: cs => .literal c :: scanFrom 0 cs
  | 0, '*' :: cs => .star :: scanFrom 0 cs
  | 0, '?' :: cs => .question :: scanFrom 0 cs
  | 0, '[' :: cs =>
    match bracket? cs with
    | some (token, n) => token :: scanFrom n cs
    | none => .literal '[' :: scanFrom 0 cs
  | 0, c :: cs => .literal c :: scanFrom 0 cs

def scan (body : List Char) : List PatternToken :=
  scanFrom 0 body

/-- The expression of one token. A negated bracket expression never takes a slash. -/
def piece : PatternToken → Piece
  | .between => .group [[.one (.only '/')],
      [.one (.only '/'), .plus .notNewline, .one (.only '/')]]
  | .leading => .group [[], [.star .notNewline, .one (.only '/')]]
  | .trailing => .group [[], [.one (.only '/'), .star .notNewline]]
  | .star => .atom (.star .notSlash)
  | .question => .atom (.one .notSlash)
  | .bracket true items => .atom (.one (.members true (.single '/' :: items)))
  | .bracket false items => .atom (.one (.members false items))
  | .literal c => .atom (.one (.only c))

end PatternToken

namespace Anchor

/-- The anchor of a pattern and the text behind it. The stars of a pattern that begins with a slash,
two stars and a slash stay in the text, where they may match nothing. -/
def split : List Char → Anchor × List Char
  | '/' :: '*' :: '*' :: '/' :: cs => (.root, '*' :: '*' :: '/' :: cs)
  | '/' :: cs => (.root, cs)
  | '*' :: '*' :: '/' :: cs => (.anyDepth, cs)
  | cs => (.bare, cs)

def pieces : Anchor → List Piece
  | .root => [.atom .textStart, .group [[], [.one (.only '/')]]]
  | .anyDepth => [.atom .textStart, .group [[], [.star .notNewline, .one (.only '/')]]]
  | .bare => [.atom .textStart]

end Anchor

/-- What may follow a pattern: with a trailing slash anything, else nothing or a deeper path. -/
def tailPieces (directoryOnly : Bool) : List Piece :=
  let tail := if directoryOnly then [.star .notNewline] else [.one (.only '/'), .star .notNewline]
  [.group [[], tail], .atom .textEnd]

/-- A pattern read into its parts. -/
structure PathPattern where
  anchor : Anchor
  tokens : List PatternToken
  directoryOnly : Bool
  deriving DecidableEq, Repr

namespace PathPattern

def ofChars (pattern : List Char) : PathPattern :=
  let (anchor, body) := Anchor.split pattern
  ⟨anchor, PatternToken.scan body, pattern.getLast? == some '/'⟩

def regex (p : PathPattern) : Regex :=
  ⟨p.anchor.pieces ++ p.tokens.map PatternToken.piece ++ tailPieces p.directoryOnly⟩

end PathPattern

/-- The source text of the expression that a pattern stands for. -/
def translate (pattern : List Char) : List Char :=
  (PathPattern.ofChars pattern).regex.source

end SourceBundle
