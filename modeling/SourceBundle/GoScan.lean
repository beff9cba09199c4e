import SourceBundle.IdentifierLetters

/-!
# Places in a Go source and its tokens

A cursor stands between two characters of a source. The scanners below say how long a token is that
begins at the cursor; blanks and comments before a token are skipped.
-/

namespace SourceBundle.Go

structure Cursor where
  rest : List Char
  /-- The number of characters ahead. -/
  left : Nat
  /-- The number of line feeds behind. -/
  row : Nat
  deriving DecidableEq, Repr

namespace Cursor

/-- The start of a source, behind a byte order mark. -/
def ofText (text : List Char) : Cursor :=
  match text with
  | '\uFEFF' :: cs => ⟨cs, cs.length, 0⟩
  | cs => ⟨cs, cs.length, 0⟩

def next (c : Cursor) : Cursor :=
  match c.rest with
  | [] => c
  | ch :: cs => ⟨cs, c.left - 1, if ch == '\n' then c.row + 1 else c.row⟩

def advance : Nat → Cursor → Cursor
  | 0, c => c
  | n + 1, c => advance n c.next

/-- The characters from one cursor to a later one. -/
def textTo (c d : Cursor) : List Char :=
  c.rest.take (c.left - d.left)

end Cursor

/-! ## Comments and blanks -/

/-- The characters up to the end of a line. -/
def lineLength : List Char → Nat
  | [] => 0
  | c :: cs => if c == '\n' then 0 else lineLength cs + 1

/-- The length of a block comment behind its opening. -/
def blockLength? : List Char → Option Nat
  | [] => none
  | '*' :: '/' :: _ => some 2
  | _ :: cs => (blockLength? cs).map (· + 1)

def commentLength? : List Char → Option Nat
  | '/' :: '/' :: cs => some (lineLength cs + 2)
  | '/' :: '*' :: cs => (blockLength? cs).map (· + 2)
  | _ => none

/-- A blank that does not end a line. -/
def isLineBlank (c : Char) : Bool :=
  c == ' ' || c == '\t' || c == '\r' || c == '\x0b' || c == '\x0c'

/-- A comment with the rows that it begins and ends on. -/
structure Comment where
  text : List Char
  startRow : Nat
  endRow : Nat
  deriving DecidableEq, Repr

/-- Passes blanks and comments and collects the comments. Line ends are passed only where they may
be. `fuel` bounds the number of characters. -/
def skipFrom (pastLines : Bool) : (fuel : Nat) → Cursor → List Comment × Cursor
  | 0, c => ([], c)
  | fuel + 1, c =>
    match c.rest with
    | [] => ([], c)
    | ch :: cs =>
      if isLineBlank ch || (pastLines && ch == '\n') then skipFrom pastLines fuel c.next
      else
        match commentLength? (ch :: cs) with
        | none => ([], c)
        | some n =>
          let behind := c.advance n
          let (comments, last) := skipFrom pastLines fuel behind
          (⟨c.textTo behind, c.row, behind.row⟩ :: comments, last)

namespace Cursor

/-- The next token, wherever it is. -/
def skip (c : Cursor) : Cursor :=
  (skipFrom true c.left c).2

/-- The next token or line end. -/
def skipInLine (c : Cursor) : Cursor :=
  (skipFrom false c.left c).2

end Cursor

/-! ## Words -/

/-- The length of the word that the text begins with; zero where it begins with none. -/
def wordLength : List Char → Nat
  | [] => 0
  | c :: cs => if isIdentifierStart c then (cs.takeWhile isIdentifierPart).length + 1 else 0

/-! ## Numbers -/

def isHexDigit (c : Char) : Bool :=
  c.isDigit || ('a' ≤ c && c ≤ 'f') || ('A' ≤ c && c ≤ 'F')

def isOctalDigit (c : Char) : Bool :=
  '0' ≤ c && c ≤ '7'

def isBinaryDigit (c : Char) : Bool :=
  c == '0' || c == '1'

/-- What may be left behind further digits, each of which may have an underscore before it. -/
def moreDigits (digit : Char → Bool) : List Char → List (List Char)
  | '_' :: d :: cs => if digit d then cs :: moreDigits digit cs else []
  | d :: cs => if digit d then cs :: moreDigits digit cs else []
  | [] => []

/-- What may be left behind a run of digits. -/
def digits (digit : Char → Bool) : List Char → List (List Char)
  | d :: cs => if digit d then cs :: moreDigits digit cs else []
  | [] => []

/-- Passes one of the characters. -/
def oneOf (cs : List Char) : List Char → List (List Char)
  | [] => []
  | d :: ds => if cs.contains d then [ds] else []

/-- Passes one of the characters or nothing. -/
def maybeOneOf (cs : List Char) (text : List Char) : List (List Char) :=
  text :: oneOf cs text

/-- Passes digits or nothing. -/
def maybeDigits (digit : Char → Bool) (text : List Char) : List (List Char) :=
  text :: digits digit text

def integers (text : List Char) : List (List Char) :=
  let afterZero := oneOf ['0'] text
  let octal := ((afterZero.flatMap (maybeOneOf ['o', 'O'])).flatMap (maybeOneOf ['_'])).flatMap
    (digits isOctalDigit)
  let binary := ((afterZero.flatMap (oneOf ['b', 'B'])).flatMap (maybeOneOf ['_'])).flatMap
    (digits isBinaryDigit)
  let hex := ((afterZero.flatMap (oneOf ['x', 'X'])).flatMap (maybeOneOf ['_'])).flatMap
    (digits isHexDigit)
  let decimal := (oneOf "123456789".toList text).flatMap fun cs => cs :: moreDigits Char.isDigit cs
  afterZero ++ decimal ++ octal ++ binary ++ hex

def exponents (marks : List Char) (text : List Char) : List (List Char) :=
  ((oneOf marks text).flatMap (maybeOneOf ['+', '-'])).flatMap (digits Char.isDigit)

def floats (text : List Char) : List (List Char) :=
  let maybeExponent (cs : List Char) := cs :: exponents ['e', 'E'] cs
  let whole := digits Char.isDigit text
  let pointed := ((whole.flatMap (oneOf ['.'])).flatMap (maybeDigits Char.isDigit)).flatMap
    maybeExponent
  let powered := whole.flatMap (exponents ['e', 'E'])
  let fraction := ((oneOf ['.'] text).flatMap (digits Char.isDigit)).flatMap maybeExponent
  let behindMark := (oneOf ['0'] text).flatMap (oneOf ['x', 'X'])
  let hexWhole := (behindMark.flatMap (maybeOneOf ['_'])).flatMap (digits isHexDigit)
  let hexPointed := (hexWhole.flatMap (oneOf ['.'])).flatMap (maybeDigits isHexDigit)
  let hexFraction := (behindMark.flatMap (oneOf ['.'])).flatMap (digits isHexDigit)
  pointed ++ powered ++ fraction ++
    (hexPointed ++ hexWhole ++ hexFraction).flatMap (exponents ['p', 'P'])

/-- The length of the longest number that the text begins with. -/
def numberLength? (text : List Char) : Option Nat :=
  match text with
  | [] => none
  | c :: _ =>
    if c.isDigit || c == '.' then
      let plain := integers text ++ floats text
      let all := plain ++ (plain ++ digits Char.isDigit text).flatMap (oneOf ['i'])
      match all with
      | [] => none
      | first :: others =>
        some (text.length - others.foldl (fun least cs => min least cs.length) first.length)
    else none

/-! ## Characters and strings -/

/-- Whether the text begins with so many characters of a kind. -/
def beginsWith (kind : Char → Bool) (n : Nat) (text : List Char) : Bool :=
  (text.take n).length == n && (text.take n).all kind

/-- The length of the escape behind a backslash in a character literal. -/
def runeEscapeLength? : List Char → Option Nat
  | 'x' :: cs => if beginsWith isHexDigit 2 cs then some 3 else none
  | 'u' :: cs => if beginsWith isHexDigit 4 cs then some 5 else none
  | 'U' :: cs => if beginsWith isHexDigit 8 cs then some 9 else none
  | c :: cs =>
    if beginsWith isOctalDigit 3 (c :: cs) then some 3
    else if "abfnrtv\\'\"".toList.contains c then some 1
    else none
  | [] => none

def runeLength? : List Char → Option Nat
  | '\'' :: '\\' :: cs =>
    (runeEscapeLength? cs).bind fun n =>
      if (cs.drop n).head? == some '\'' then some (n + 3) else none
  | '\'' :: c :: '\'' :: _ => if c == '\'' then none else some 3
  | _ => none

/-- The length of the escape behind a backslash in a string. -/
def stringEscapeLength? : List Char → Option Nat
  | 'x' :: cs => if beginsWith isHexDigit 2 cs then some 3 else none
  | 'u' :: cs => if beginsWith isHexDigit 4 cs then some 5 else none
  | 'U' :: cs => if beginsWith isHexDigit 8 cs then some 9 else none
  | _ :: _ => some 1
  | [] => none

/-- Passes the rest of a raw string behind its opening. -/
def passRaw : (fuel : Nat) → Cursor → Option Cursor
  | 0, _ => none
  | fuel + 1, c =>
    match c.rest with
    | [] => none
    | ch :: _ => if ch == Char.ofNat 0x60 then some c.next else passRaw fuel c.next

/-- Passes the rest of an interpreted string behind its opening. A line may end in it only where a
comment follows. -/
def passInterpreted : (fuel : Nat) → Cursor → Option Cursor
  | 0, _ => none
  | fuel + 1, c =>
    match c.rest with
    | [] => none
    | '"' :: _ => some c.next
    | '\\' :: cs => (stringEscapeLength? cs).bind fun n => passInterpreted fuel (c.advance (n + 1))
    | '\n' :: _ =>
      let mark := passBlanks fuel c
      (commentLength? mark.rest).bind fun n => passInterpreted fuel (mark.advance n)
    | _ => passInterpreted fuel c.next
where
  passBlanks : (fuel : Nat) → Cursor → Cursor
    | 0, c => c
    | fuel + 1, c =>
      match c.rest with
      | ch :: _ => if isLineBlank ch || ch == '\n' then passBlanks fuel c.next else c
      | [] => c

/-- Passes a string of either kind. -/
def passString (c : Cursor) : Option Cursor :=
  match c.rest with
  | '"' :: _ => passInterpreted c.left c.next
  | ch :: _ => if ch == Char.ofNat 0x60 then passRaw c.left c.next else none
  | [] => none

end SourceBundle.Go
