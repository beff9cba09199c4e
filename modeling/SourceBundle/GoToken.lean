import SourceBundle.GoScan

/-!
# Tokens of Go

The tokens that a Go source is cut into for table-driven parsing, how long each of them is at the
beginning of a text, and which of them may be mistaken for one another.
-/

namespace SourceBundle.Go

inductive Token where
  | sign (text : String)
  | word (text : String)
  | identifier
  | lineEnd
  /-- What a raw string holds. -/
  | rawText
  /-- A stretch of an interpreted string without escapes. -/
  | quotedText
  | closingQuote
  | escape
  | int
  | float
  | imaginary
  | rune
  | comment
  deriving DecidableEq, Repr, Inhabited

namespace Token

def quote : Token := .sign "\""

/-- The sign around raw strings. -/
def rawQuote : Token := .sign (String.singleton (Char.ofNat 0x60))

/-- All tokens, in the order in which they are tried. -/
def all : List Token :=
  [.identifier, .lineEnd, .sign ";", .sign "\x00", .word "package", .word "import", .sign ".",
    .word "_", .sign "(", .sign ")", .word "const", .sign ",", .sign "=", .word "var",
    .word "func", .sign "[", .sign "]", .sign "...", .word "type", .sign "*", .word "struct",
    .sign "~", .sign "\x7b", .sign "\x7d", .word "interface", .sign "|", .word "map",
    .word "chan", .sign "<-", .sign ":=", .sign "++", .sign "--"] ++
  ["*=", "/=", "%=", "<<=", ">>=", "&=", "&^=", "+=", "-=", "|=", "^=", ":"].map .sign ++
  ["fallthrough", "break", "continue", "goto", "return", "go", "defer", "if", "else", "for",
    "range", "switch", "case", "default", "select", "new", "make"].map .word ++
  ["+", "-", "!", "^", "&", "/", "%", "<<", ">>", "&^", "==", "!=", "<", "<=", ">", ">=", "&&",
    "||"].map .sign ++
  [rawQuote, .rawText, quote, .quotedText, .closingQuote, .escape, .int, .float, .imaginary,
    .rune] ++
  ["nil", "true", "false", "iota"].map .word ++ [.comment]

/-- Whether a node for the token shows in a tree. -/
def isShown : Token → Bool
  | .lineEnd | .rawText | .quotedText => false
  | _ => true

/-- The name by which a missing token is reported; one that does not show has none. -/
def name : Token → String
  | .sign text => text
  | .word text => if text == "_" then "blank_identifier" else text
  | .identifier => "identifier"
  | .lineEnd | .rawText | .quotedText => ""
  | .closingQuote => "\""
  | .escape => "escape_sequence"
  | .int => "int_literal"
  | .float => "float_literal"
  | .imaginary => "imaginary_literal"
  | .rune => "rune_literal"
  | .comment => "comment"

def isWord : Token → Bool
  | .word _ => true
  | _ => false

/-- Whether no blank may stand before the token. -/
def isImmediate : Token → Bool
  | .rawText | .quotedText | .closingQuote | .escape => true
  | _ => false

/-! ## Lengths -/

/-- The longest of the readings that leave the given texts. -/
def longest? (text : List Char) (left : List (List Char)) : Option Nat :=
  left.foldl (fun best cs => some (max (best.getD 0) (text.length - cs.length))) none

/-- How much of an escape in a string a text begins with, and whether it is whole. -/
def escapeReach : List Char → Nat × Bool
  | '\\' :: 'x' :: cs =>
    let n := (cs.takeWhile isHexDigit).length
    (n + 2, 2 ≤ n)
  | '\\' :: 'u' :: cs => hexReach 4 cs
  | '\\' :: 'U' :: cs => hexReach 8 cs
  | '\\' :: c :: cs =>
    let n := ((c :: cs).take 3 |>.takeWhile Char.isDigit).length
    (if n < 2 then 2 else n + 1, true)
  | ['\\'] => (1, false)
  | _ => (0, false)
where
  hexReach (n : Nat) (cs : List Char) : Nat × Bool :=
    let m := ((cs.take n).takeWhile isHexDigit).length
    (m + 2, m == n)

/-- How much of a character literal a text begins with, where it begins with no whole one. -/
def runeReach : List Char → Nat
  | '\'' :: '\\' :: 'x' :: cs => 3 + ((cs.take 2).takeWhile isHexDigit).length
  | '\'' :: '\\' :: 'u' :: cs => 3 + ((cs.take 4).takeWhile isHexDigit).length
  | '\'' :: '\\' :: 'U' :: cs => 3 + ((cs.take 8).takeWhile isHexDigit).length
  | '\'' :: '\\' :: c :: cs =>
    if isOctalDigit c then 2 + ((((c :: cs).take 3).takeWhile isOctalDigit).length)
    else if "abfnrtv\\'\"".toList.contains c then 3
    else 2
  | ['\'', '\\'] => 2
  | '\'' :: '\'' :: _ => 1
  | '\'' :: _ :: _ => 2
  | ['\''] => 1
  | _ => 0

/-- The length of the token that a text begins with. -/
def length? (text : List Char) : Token → Option Nat
  | .sign s => if s.toList.isPrefixOf text then some s.length else none
  | .word _ => none
  | .identifier =>
    let n := wordLength text
    if n == 0 then none else some n
  | .lineEnd =>
    let n := (text.takeWhile (· == '\n')).length
    if n == 0 then none else some n
  | .rawText => some (text.takeWhile (· != Char.ofNat 0x60)).length
  | .quotedText =>
    let n := (text.takeWhile fun c => c != '"' && c != '\n' && c != '\\').length
    if n == 0 then none else some n
  | .closingQuote => if text.head? == some '"' then some 1 else none
  | .escape =>
    let (n, whole) := escapeReach text
    if whole then some n else none
  | .int => longest? text (integers text)
  | .float => longest? text (floats text)
  | .imaginary =>
    longest? text ((integers text ++ floats text ++ digits Char.isDigit text).flatMap (oneOf ['i']))
  | .rune => runeLength? text
  | .comment => commentLength? text

/-! ## Tokens that begin alike -/

/-- Whether the beginning of one text is a whole shorter one. -/
def extendsText (long short : String) : Bool :=
  short.toList.isPrefixOf long.toList && short.length < long.length

/-- Whether a token may begin with a whole other token. -/
def beginsWith : (long short : Token) → Bool
  | .sign a, .sign b => extendsText a b
  | .word a, .word b => extendsText a b
  | .lineEnd, other => other != .lineEnd
  | .rawText, other => other != .rawText
  | .quotedText, other => other != .quotedText
  | .closingQuote, .sign "\"" => true
  | .float, .sign "." | .float, .int => true
  | .imaginary, .sign "." | .imaginary, .int | .imaginary, .float => true
  | .comment, .sign "/" => true
  | _, _ => false

/-- Whether what is left of the longer token behind the shorter one could begin an operand, so that
the longer one could be meant as two tokens. -/
def isDoubtful (long short : Token) : Bool :=
  beginsWith long short &&
    match long, short with
    | .sign a, .sign b => (a.toList.drop b.length).head?.any fun c => "+-!^*&<".toList.contains c
    | .float, .sign _ | .imaginary, .sign _ | .imaginary, .float => false
    | _, _ => true

end Token

end SourceBundle.Go
