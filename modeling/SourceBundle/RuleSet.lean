import SourceBundle.Blank
import SourceBundle.PatternTranslation

/-!
# Rule sets

An ordered list of path rules. The last rule that matches a path decides it, but an exclusion only
takes back an inclusion that an earlier rule made.
-/

namespace SourceBundle

/-- One compiled line of a rule list. -/
structure Rule where
  regex : Regex
  negated : Bool
  /-- Position of the line in its list, counted from one, skipped lines included. -/
  lineNo : Nat
  /-- The line without surrounding blanks. -/
  text : String
  deriving DecidableEq, Repr

namespace Rule

/-- Whether the rule matches the path, leaving aside whether it includes or excludes. -/
def isMatch (rule : Rule) (path : String) : Bool :=
  rule.regex.isMatch path.toList

def display (rule : Rule) : String :=
  s!"{rule.text} (line {rule.lineNo})"

/-- Takes one exclamation mark off a text, or puts one on. -/
def flipText : List Char → List Char
  | '!' :: cs => cs
  | cs => '!' :: cs

/-- The rule with inclusion and exclusion exchanged. -/
def negate (rule : Rule) : Rule :=
  { rule with negated := !rule.negated, text := String.ofList (flipText rule.text.toList) }

/-- Splits off the exclamation marks: whether their number is odd, and the pattern behind them. -/
def splitNegation : List Char → Bool × List Char
  | '!' :: cs => ((splitNegation cs).map not id)
  | cs => (false, cs)

/-- Compiles one line. Blank lines, comments, lone exclamation marks and patterns that are too large
give no rule. -/
def compile? (line : String) (lineNo : Nat) : Option Rule :=
  let text := trimBlank line.toList
  match text with
  | [] => none
  | '#' :: _ => none
  | _ =>
    let (negated, body) := splitNegation text
    if body.isEmpty then none
    else (Regex.compile? (translate body)).map fun regex =>
      ⟨regex, negated, lineNo, String.ofList text⟩

end Rule

/-- What a rule set says about a path, with the rule that decided it. -/
structure Verdict where
  included : Bool
  decisive : Option Rule
  deriving DecidableEq, Repr

structure RuleSet where
  rules : List Rule := []
  deriving DecidableEq, Repr

namespace RuleSet

/-- Compiles lines whose first one has the given number. -/
def rulesFrom : Nat → List String → List Rule
  | _, [] => []
  | n, line :: lines => (Rule.compile? line n).toList ++ rulesFrom (n + 1) lines

def compile (lines : List String) : RuleSet :=
  ⟨rulesFrom 1 lines⟩

/-- One rule's say after the verdict of the rules before it. -/
def judge (path : String) (verdict : Verdict) (rule : Rule) : Verdict :=
  if rule.isMatch path then
    if rule.negated then
      if verdict.included then ⟨false, some rule⟩ else verdict
    else ⟨true, some rule⟩
  else verdict

def explain (set : RuleSet) (path : String) : Verdict :=
  set.rules.foldl (judge path) ⟨false, none⟩

def includes (set : RuleSet) (path : String) : Bool :=
  (set.explain path).included

/-- Puts the rules of `other` first, where they lose ties. -/
def withLowerPrecedence (set other : RuleSet) : RuleSet :=
  ⟨other.rules ++ set.rules⟩

/-- Puts the rules of `other` last, where they win ties. -/
def withHigherPrecedence (set other : RuleSet) : RuleSet :=
  ⟨set.rules ++ other.rules⟩

/-- Turns a list of what to ignore into exclusions. -/
def negateAll (set : RuleSet) : RuleSet :=
  ⟨set.rules.map Rule.negate⟩

def size (set : RuleSet) : Nat :=
  set.rules.length

end RuleSet

end SourceBundle
