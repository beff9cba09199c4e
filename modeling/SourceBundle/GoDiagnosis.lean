import SourceBundle.GoSyntax
import SourceBundle.PathText
import SourceBundle.TolerantParse

/-!
# Mistakes in Go sources

Where a source that is no Go file goes wrong: the places of mistakes and missing tokens in the tree
that a tolerant parse finds.
-/

namespace SourceBundle.Go

open Lr (Extent Scan ScannedSource Table TokenSet Tree)

/-! ## Scanning -/

/-- The longest of the tokens that a text begins with. -/
def longestToken (codes : List Nat) (length? : Nat → Option Nat) : Option (Nat × Nat) :=
  codes.foldl (fun best code =>
    match length? code with
    | none => best
    | some n => if best.any fun (_, m) => n ≤ m then best else some (code, n)) none

/-- The blanks before a token. Line ends are passed where they are no tokens. -/
def blanksBefore (lineEnds : Bool) (atStart : Bool) (text : List Char) : List Char :=
  let blanks (cs : List Char) := cs.takeWhile fun c => isLineBlank c || (!lineEnds && c == '\n')
  match atStart, text with
  | true, '\uFEFF' :: cs => '\uFEFF' :: blanks cs
  | _, cs => blanks cs

/-- The tokens by code. -/
def tokens : Array Token := Token.all.toArray

/-- The code of a word of the language. -/
def wordCode? (text : List Char) : Option Nat :=
  Token.all.findIdx? (· == .word (String.ofList text))

/-- Scans for some tokens at a place with a text behind it. Tokens that no blank may precede come
first; the end of the source stands for a NUL where it is none itself. -/
def scanText (set : TokenSet) (place : Extent) (text : List Char) : Scan :=
  let codes := lexicon.codes.filter fun code => set.testBit code
  let has (t : Token) : Bool := set.testBit (Token.all.idxOf t)
  let token (code : Nat) : Token := tokens.getD code .lineEnd
  let found (start : Extent) (text : List Char) (code n : Nat) : Scan :=
    let read := text.take n
    let word := if code == lexicon.identifier then wordCode? read else none
    .token code word start (start.join (Extent.ofText read))
  let (immediate, others) := codes.partition fun code => (token code).isImmediate
  match longestToken immediate fun code => (token code).length? text with
  | some (code, n) => found place text code n
  | none =>
    let blanks := blanksBefore (has .lineEnd) (place.bytes == 0) text
    let start := place.join (Extent.ofText blanks)
    match text.drop blanks.length with
    | [] =>
      let nul := Token.all.idxOf (.sign "\x00")
      if set.testBit lexicon.finish then .token lexicon.finish none start start
      else if set.testBit nul then .token nul none start start
      else .nothing start start
    | rest =>
      match longestToken others fun code => (token code).length? rest with
      | some (code, n) => found start rest code n
      | none =>
        let escaped := if blanks.isEmpty && has .escape then (Token.escapeReach rest).1 else 0
        let reach := if has .rune then max escaped (Token.runeReach rest) else escaped
        .nothing start (start.join (Extent.ofText (rest.take reach)))

/-- What is behind each byte that begins a character, and behind the last one. -/
def textsBehind : List Char → List (List Char)
  | [] => [[]]
  | c :: cs => List.replicate c.utf8Size (c :: cs) ++ textsBehind cs

def scannedSource (text : List Char) : ScannedSource :=
  let behind := (textsBehind text).toArray
  { scan := fun set place => scanText set place (behind.getD place.bytes [])
    next? := fun place =>
      match behind.getD place.bytes [] with
      | [] => none
      | c :: _ => some (place.join (Extent.ofChar c))
    size := behind.size - 1 }

/-! ## Tables -/

/-- The table of a syntax, made when it is first wanted. -/
@[noinline]
def laterTable (lex : Lr.Lexicon) (g : Lr.Grammar Token) : Thunk Table :=
  .mk fun _ => .ofGrammar lex g

def table : Thunk Table := laterTable lexicon grammar

/-! ## Mistakes -/

/-- A mistake, or a token that is missing, at a place. -/
structure Mistake where
  place : Extent
  missing : Option String
  deriving DecidableEq, Repr

/-- Rows and columns are counted from 1 where they are shown. -/
def Mistake.message (m : Mistake) (path : String) : String :=
  let what := match m.missing with
    | none => "unexpected syntax"
    | some token => "missing " ++ token
  String.intercalate ":" [PathText.shown path, toString (m.place.rows + 1),
    toString (m.place.columns + 1), " " ++ what]

/-- The name of the token that a tree stands for. -/
def missingName : Lr.Label → String
  | .symbol code => (tokens.getD code .lineEnd).name
  | _ => ""

mutual

/-- The mistakes in a tree behind a place, the outermost ones. -/
def mistakesIn (place : Extent) (name : Option String) : Tree → List Mistake
  | .node d ts =>
    let start := place.join d.before
    let shown := d.shown || name.isSome
    if shown && d.label == .mistake then [⟨start, none⟩]
    else if shown && d.missing then [⟨start, some (name.getD (missingName d.label))⟩]
    else if d.cost == 0 then []
    else mistakesInAll place d.names ts

/-- The mistakes in parts that follow one another. Extra parts take no name. -/
def mistakesInAll (place : Extent) (names : List (Option String)) : List Tree → List Mistake
  | [] => []
  | t :: ts =>
    let name := if t.extra then none else names.head?.join
    mistakesIn place name t ++
      mistakesInAll (place.join t.total) (if t.extra then names else names.tail) ts

end

/-- The mistakes in a source, in its order. -/
def mistakes (text : List Char) : List Mistake :=
  match (Lr.Parser.mk table.get (scannedSource text)).parse with
  | none => []
  | some t => mistakesIn {} none t

/-- The most mistakes of one source that are told. -/
def toldMistakes : Nat := 10

/-- What is told about a source that is no Go file: its first mistakes, and that there is one in any
case. -/
def diagnosis (text : List Char) (path : String) : List String :=
  match (mistakes text).take toldMistakes with
  | [] => [PathText.shown path ++ ": syntax error"]
  | told => told.map (·.message path)

end SourceBundle.Go
