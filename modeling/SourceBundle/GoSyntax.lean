import SourceBundle.GoToken
import SourceBundle.LrTable

/-!
# The rules of Go sources

Go's syntax as rules for table-driven parsing. Top-level statements are allowed, so that parts of
programs can be read, and several phrases are wider than the language: what a phrase means is not
checked here. The order of the rules settles otherwise equal choices.
-/

namespace SourceBundle.Go

open Lr (NamedRule Side)
open Lr.Rule (chain anyOf optional anyMany separated)

namespace Syntax

def sign (s : String) : Lr.Rule Token := .token (.sign s)

def word (s : String) : Lr.Rule Token := .token (.word s)

def phrase (name : String) : Lr.Rule Token := .rule name

def identifier : Lr.Rule Token := .token .identifier

/-- An identifier that is known as something else. -/
def known (name : String) : Lr.Rule Token := .called name identifier

def typeName : Lr.Rule Token := known "type_identifier"

def fieldName : Lr.Rule Token := known "field_identifier"

def packageName : Lr.Rule Token := known "package_identifier"

def labelName : Lr.Rule Token := known "label_name"

def terminator : Lr.Rule Token :=
  anyOf [.token .lineEnd, sign ";", sign "\x00"]

def commaSeparated (r : Lr.Rule Token) : Lr.Rule Token :=
  separated (sign ",") r

def braced (r : Lr.Rule Token) : Lr.Rule Token :=
  chain [sign "\x7b", r, sign "\x7d"]

def parenthesized (r : Lr.Rule Token) : Lr.Rule Token :=
  chain [sign "(", r, sign ")"]

def bracketed (r : Lr.Rule Token) : Lr.Rule Token :=
  chain [sign "[", r, sign "]"]

/-- Members with terminators between them. -/
def members (r : Lr.Rule Token) : Lr.Rule Token :=
  optional (chain [r, anyMany (.seq terminator r), optional terminator])

def expression : Lr.Rule Token := phrase "expression"

def anyType : Lr.Rule Token := .alt (phrase "simple type") (phrase "parenthesized type")

def stringValue : Lr.Rule Token := .alt (phrase "raw string") (phrase "interpreted string")

def result : Lr.Rule Token := optional (.alt (phrase "parameters") (phrase "simple type"))

def anySign (signs : List String) : Lr.Rule Token := anyOf (signs.map sign)

def products : List String := ["*", "/", "%", "<<", ">>", "&", "&^"]

def sums : List String := ["+", "-", "|", "^"]

def comparisons : List String := ["==", "!=", "<", "<=", ">", ">="]

def assignments : List String := (products ++ sums).map (· ++ "=") ++ ["="]

def statementsHere : Lr.Rule Token := optional (phrase "statements")

/-- An empty statement with a label. -/
def bareLabel : Lr.Rule Token := .called "labeled_statement" (phrase "bare label")

/-- A function that takes a type. -/
def allocator : Lr.Rule Token := .called "identifier" (.alt (word "new") (word "make"))

def primary : Int := 7

def unary : Int := 6

/-- Operators from loose to tight. -/
def binary (rank : Int) (signs : List String) : Lr.Rule Token :=
  .ranked rank (some .left) (chain [expression, anySign signs, expression])

def shown (name : String) (body : Lr.Rule Token) : NamedRule Token := { name, body }

def silent (name : String) (body : Lr.Rule Token) : NamedRule Token :=
  { name, hidden := true, body }

/-! ## Declarations -/

def declarationRules : List (NamedRule Token) :=
  [shown "source" (.seq
      (anyMany (.alt (.seq (phrase "statement") terminator)
        (.seq (anyOf topLevel) terminator)))
      (optional (anyOf topLevel))),
    shown "package clause" (.seq (word "package") packageName),
    shown "import declaration"
      (.seq (word "import") (.alt (phrase "import") (phrase "import list"))),
    shown "import"
      (.seq (optional (anyOf [phrase "dot", word "_", packageName])) stringValue),
    shown "dot" (sign "."),
    shown "import list" (parenthesized (members (phrase "import"))),
    silent "declaration" (anyOf [phrase "const declaration", phrase "type declaration",
      phrase "var declaration"]),
    shown "const declaration" (.seq (word "const")
      (.alt (phrase "const") (parenthesized (anyMany (.seq (phrase "const") terminator))))),
    shown "const" (.ranked 0 (some .left) (.seq (commaSeparated identifier)
      (optional (chain [optional anyType, sign "=", phrase "expressions"])))),
    shown "var declaration" (.seq (word "var") (.alt (phrase "var") (phrase "var list"))),
    shown "var" (.seq (commaSeparated identifier)
      (.alt (.seq anyType (optional (.seq (sign "=") (phrase "expressions"))))
        (.seq (sign "=") (phrase "expressions")))),
    shown "var list" (parenthesized (anyMany (.seq (phrase "var") terminator))),
    shown "function declaration" (.ranked 1 (some .right) (chain [word "func", identifier,
      optional (phrase "type parameters"), phrase "parameters", result,
      optional (phrase "block")])),
    shown "method declaration" (.ranked 1 (some .right) (chain [word "func",
      phrase "parameters", fieldName, phrase "parameters", result, optional (phrase "block")])),
    shown "type parameters"
      (bracketed (.seq (commaSeparated (phrase "type parameter")) (optional (sign ",")))),
    shown "type parameter"
      (.seq (commaSeparated identifier) (.called "type_constraint" (phrase "type element"))),
    shown "parameters" (parenthesized (optional (.seq
      (optional (commaSeparated (.alt (phrase "parameter") (phrase "variadic parameter"))))
      (optional (sign ","))))),
    shown "parameter" (.seq (optional (commaSeparated identifier)) anyType),
    shown "variadic parameter" (chain [optional identifier, sign "...", anyType]),
    shown "type alias" (chain [typeName, sign "=", anyType]),
    shown "type declaration" (.seq (word "type") (anyOf [phrase "type", phrase "type alias",
      parenthesized (anyMany (.seq (.alt (phrase "type") (phrase "type alias")) terminator))])),
    shown "type" (chain [typeName, optional (phrase "type parameters"), anyType]),
    shown "expressions" (commaSeparated expression)]
where
  topLevel : List (Lr.Rule Token) :=
    [phrase "package clause", phrase "function declaration", phrase "method declaration",
      phrase "import declaration"]

/-! ## Types -/

def typeRules : List (NamedRule Token) :=
  [shown "parenthesized type" (parenthesized anyType),
    silent "simple type" (anyOf (.weighted (-1) typeName ::
      ["generic type", "qualified type", "pointer type", "struct type", "interface type",
        "array type", "slice type", "map type", "channel type", "function type",
        "negated type"].map phrase)),
    shown "generic type" (.weighted 1 (.seq
      (anyOf [typeName, phrase "qualified type", phrase "negated type"])
      (phrase "type arguments"))),
    shown "type arguments" (.weighted 2
      (bracketed (.seq (commaSeparated (phrase "type element")) (optional (sign ","))))),
    shown "pointer type" (.ranked unary none (.seq (sign "*") anyType)),
    shown "array type" (.ranked 0 (some .right) (.seq (bracketed expression) anyType)),
    shown "literal array type" (.seq (bracketed (sign "...")) anyType),
    shown "slice type" (.ranked 0 (some .right) (chain [sign "[", sign "]", anyType])),
    shown "struct type" (.seq (word "struct") (phrase "fields")),
    shown "negated type" (.ranked 0 (some .left) (.seq (sign "~") anyType)),
    shown "fields" (braced (members (phrase "field"))),
    shown "field" (.seq
      (.alt (.seq (commaSeparated fieldName) anyType)
        (.seq (optional (sign "*"))
          (anyOf [typeName, phrase "qualified type", phrase "generic type"])))
      (optional stringValue)),
    shown "interface type" (.seq (word "interface")
      (braced (members (.alt (phrase "method") (phrase "type element"))))),
    shown "method" (chain [fieldName, phrase "parameters", result]),
    shown "type element" (separated (sign "|") anyType),
    shown "map type" (.ranked 0 (some .right) (chain [word "map", bracketed anyType, anyType])),
    shown "channel type" (.ranked 0 (some .left) (anyOf [.seq (word "chan") anyType,
      chain [word "chan", sign "<-", anyType],
      .ranked unary none (chain [sign "<-", word "chan", anyType])])),
    shown "function type"
      (.ranked 0 (some .right) (chain [word "func", phrase "parameters", result]))]

/-! ## Statements -/

def statementRules : List (NamedRule Token) :=
  [shown "block" (braced statementsHere),
    silent "statements" (.alt
      (chain [phrase "statement", anyMany (.seq terminator (phrase "statement")),
        optional (.seq terminator (optional bareLabel))])
      bareLabel),
    silent "statement" (anyOf (["declaration", "simple statement", "return", "go", "defer", "if",
      "for", "switch", "type switch", "select", "labeled statement", "fallthrough", "break",
      "continue", "goto", "block", "empty statement"].map phrase)),
    shown "empty statement" (sign ";"),
    silent "simple statement" (anyOf (["expression statement", "send", "increment", "decrement",
      "assignment", "short declaration"].map phrase)),
    shown "expression statement" expression,
    shown "send" (chain [expression, sign "<-", expression]),
    shown "receive" (.seq
      (optional (.seq (phrase "expressions") (.alt (sign "=") (sign ":=")))) expression),
    shown "increment" (.seq expression (sign "++")),
    shown "decrement" (.seq expression (sign "--")),
    shown "assignment" (chain [phrase "expressions", anySign assignments, phrase "expressions"]),
    shown "short declaration" (chain [phrase "expressions", sign ":=", phrase "expressions"]),
    shown "labeled statement" (chain [labelName, sign ":", phrase "statement"]),
    shown "bare label" (.seq labelName (sign ":")),
    shown "fallthrough" (.ranked 0 (some .left) (word "fallthrough")),
    shown "break" (.seq (word "break") (optional labelName)),
    shown "continue" (.seq (word "continue") (optional labelName)),
    shown "goto" (.seq (word "goto") labelName),
    shown "return" (.seq (word "return") (optional (phrase "expressions"))),
    shown "go" (.seq (word "go") expression),
    shown "defer" (.seq (word "defer") expression),
    shown "if" (chain [word "if", optional (.seq (phrase "simple statement") (sign ";")),
      expression, phrase "block",
      optional (.seq (word "else") (.alt (phrase "block") (phrase "if")))]),
    shown "for" (chain [word "for",
      optional (anyOf [expression, phrase "for clause", phrase "range clause"]),
      phrase "block"]),
    shown "for clause" (chain [optional (phrase "simple statement"), sign ";",
      optional expression, sign ";", optional (phrase "simple statement")]),
    shown "range clause" (chain [
      optional (.seq (phrase "expressions") (.alt (sign "=") (sign ":="))), word "range",
      expression]),
    shown "switch" (chain [word "switch", initializer, optional expression,
      braced (anyMany (.alt (phrase "case") (phrase "default")))]),
    shown "case" (chain [word "case", phrase "expressions", sign ":", statementsHere]),
    shown "default" (chain [word "default", sign ":", statementsHere]),
    shown "type switch" (chain [word "switch", phrase "type guard",
      braced (anyMany (.alt (phrase "type case") (phrase "default")))]),
    silent "type guard" (chain [initializer, optional (.seq (phrase "expressions") (sign ":=")),
      expression, sign ".", sign "(", word "type", sign ")"]),
    shown "type case" (chain [word "case", commaSeparated anyType, sign ":", statementsHere]),
    shown "select" (chain [word "select",
      braced (anyMany (.alt (phrase "communication") (phrase "default")))]),
    shown "communication"
      (chain [word "case", .alt (phrase "send") (phrase "receive"), sign ":", statementsHere])]
where
  initializer : Lr.Rule Token := optional (.seq (phrase "simple statement") (sign ";"))

/-! ## Expressions -/

def expressionRules : List (NamedRule Token) :=
  [silent "expression" (anyOf (
      ["unary", "binary", "selector", "index", "slice", "call", "assertion", "conversion",
        "instantiation"].map phrase ++
      [identifier, allocator, phrase "composite", phrase "function literal", stringValue,
        .token .int, .token .float, .token .imaginary, .token .rune, word "nil", word "true",
        word "false", word "iota", phrase "parenthesized"])),
    shown "parenthesized" (parenthesized expression),
    shown "call" (.ranked primary none (.alt
      (.seq allocator (.called "argument_list" (phrase "allocation arguments")))
      (chain [expression, optional (phrase "type arguments"), phrase "arguments"]))),
    shown "variadic argument" (.ranked 0 (some .right) (.seq expression (sign "..."))),
    shown "allocation arguments" (parenthesized (optional
      (chain [anyType, anyMany (.seq (sign ",") expression), optional (sign ",")]))),
    shown "arguments" (parenthesized (optional (.seq
      (optional (commaSeparated (anyOf [expression, anyType, phrase "variadic argument"])))
      (optional (sign ","))))),
    shown "selector" (.ranked primary none (chain [expression, sign ".", fieldName])),
    shown "index" (.ranked primary none (.seq expression (bracketed expression))),
    shown "slice" (.ranked primary none (.seq expression (bracketed (.alt
      (chain [optional expression, sign ":", optional expression])
      (chain [optional expression, sign ":", expression, sign ":", expression]))))),
    shown "assertion"
      (.ranked primary none (chain [expression, sign ".", parenthesized anyType])),
    shown "conversion"
      (.weighted (-1) (.seq anyType (parenthesized (.seq expression (optional (sign ",")))))),
    shown "instantiation" (.ranked primary none
      (.seq anyType (bracketed (.seq (commaSeparated anyType) (optional (sign ",")))))),
    shown "composite" (.ranked (-1) none (.seq
      (anyOf [phrase "map type", phrase "slice type", phrase "array type",
        phrase "literal array type", phrase "struct type", typeName, phrase "generic type",
        phrase "qualified type"])
      (phrase "literal value"))),
    shown "literal value" (braced (optional (.seq
      (optional (commaSeparated (.alt (phrase "literal element") (phrase "keyed element"))))
      (optional (sign ","))))),
    shown "literal element" (.alt expression (phrase "literal value")),
    shown "keyed element"
      (chain [phrase "literal element", sign ":", phrase "literal element"]),
    shown "function literal"
      (chain [word "func", phrase "parameters", result, phrase "block"]),
    shown "unary" (.ranked unary none
      (.seq (anySign ["+", "-", "!", "^", "*", "&", "<-"]) expression)),
    shown "binary" (anyOf [binary 5 products, binary 4 sums, binary 3 comparisons,
      binary 2 ["&&"], binary 1 ["||"]]),
    shown "qualified type" (chain [packageName, sign ".", typeName]),
    shown "raw string" (chain [.token Token.rawQuote,
      .called "raw_string_literal_content" (.token .rawText), .token Token.rawQuote]),
    shown "interpreted string" (chain [.token Token.quote,
      anyMany (.alt (.called "interpreted_string_literal_content" (.token .quotedText))
        (.token .escape)),
      .token .closingQuote])]

/-- All rules. The first one is a whole source. -/
def rules : List (NamedRule Token) :=
  declarationRules ++ typeRules ++ statementRules ++ expressionRules

end Syntax

/-- Go's syntax, spread out into productions. -/
def grammar : Lr.Grammar Token :=
  .ofRules Token.all Syntax.rules

/-- What there is to know about Go's tokens. After a mistake every token is looked for but line ends
and what strings hold. -/
def lexicon : Lr.Lexicon :=
  let tokens := Token.all.toArray
  let token (code : Nat) : Token := tokens.getD code .lineEnd
  { finish := tokens.size
    comment := Token.all.idxOf .comment
    lineEnd := Token.all.idxOf .lineEnd
    identifier := Token.all.idxOf .identifier
    isWord := fun code => (token code).isWord
    beginsWith := fun long short => (token long).beginsWith (token short)
    isDoubtful := fun long short => (token long).isDoubtful (token short)
    isShown := fun code => (token code).isShown }

end SourceBundle.Go
