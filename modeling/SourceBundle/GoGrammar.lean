/-!
# The grammar of Go sources

Each phrase of the language is described by a form: tokens in sequence, choices, repetition, and
other phrases. Line ends matter: a form may have to begin on the line where the phrase before it
ends, because a line end would have closed that phrase.
-/

namespace SourceBundle.Go

/-- What the first word of an expression must not be, since it would begin something else. -/
inductive Lead where
  | operand
  /-- The first value that a function gives back. -/
  | returned
  /-- The first statement of a block. -/
  | blockStatement
  /-- A statement of a list, where a case may follow. -/
  | listStatement
  /-- A statement behind a label of a list. -/
  | labelledStatement
  /-- A statement behind a label where nothing else may stand. -/
  | innerStatement
  | topStatement
  /-- The head of a loop, where a range may stand. -/
  | loop
  deriving DecidableEq, Repr

/-- The operators that may stand behind an expression besides those that continue it. -/
inductive Ending where
  /-- None. -/
  | closed
  /-- Those behind the first expression of a simple statement. -/
  | statement
  /-- Those behind a further expression on the left of an assignment. -/
  | assignment
  /-- Those behind the first expression of a communication. -/
  | communication
  /-- Those behind a further expression on the left of a communication. -/
  | received
  deriving DecidableEq, Repr

/-- Where an expression stands. -/
structure Around where
  /-- A line end closes the expression. -/
  line : Bool := false
  /-- A block follows the expression. -/
  header : Bool := false
  ending : Ending := .closed
  lead : Lead := .operand
  /-- The expression may be the guard of a type switch. -/
  guarded : Bool := false
  deriving DecidableEq, Repr

/-- What else may stand where a type stands. -/
inductive Beside where
  | nothing
  /-- A value, so that the words for values are no names. -/
  | value
  /-- A name with an array type behind it, so that brackets behind the first name may hold a
  value. -/
  | name
  deriving DecidableEq, Repr

/-- What closes a type early. -/
inductive Closing where
  | nothing
  | lineEnd
  /-- A line end, or a word that begins a case where a type could follow. -/
  | lineEndOrCase
  deriving DecidableEq, Repr

inductive Phrase where
  | expression (a : Around)
  | unary (a : Around)
  | primary (a : Around)
  | operand (a : Around)
  | suffix (a : Around)
  | type (closing : Closing) (beside : Beside)
  | typeArguments (beside : Beside)
  | parameters
  | literalValue
  | block
  | statements (lead : Lead)
  | statement (lead : Lead)
  | ifStatement
  deriving DecidableEq, Repr

inductive Form where
  | empty
  /-- A word of the language. -/
  | word (w : String)
  /-- A name, which must not be one of the words that mean something here. -/
  | name (reserved : List String)
  /-- A sign that does not begin one of the longer signs that may stand here. -/
  | sign (s : String) (longer : List String)
  /-- An operator between two operands. -/
  | operator (ending : Ending)
  | number
  | rune
  | string
  /-- The end of a line, a semicolon or a NUL. -/
  | terminator
  | phrase (p : Phrase)
  | seq (first second : Form)
  | alt (first second : Form)
  | many (f : Form)
  /-- Begins on the same line. -/
  | sameLine (f : Form)
  /-- Takes nothing, where the form cannot be read. -/
  | notNext (f : Form)
  /-- Adds to the weight of a reading. Of two readings of one text the heavier is meant. -/
  | weighted (weight : Int) (f : Form)
  deriving Repr

namespace Form

/-- Forms one after another. -/
def chain : List Form → Form
  | [] => .empty
  | [f] => f
  | f :: fs => .seq f (chain fs)

/-- One of the forms. -/
def oneOf : List Form → Form
  | [] => .notNext .empty
  | [f] => f
  | f :: fs => .alt f (oneOf fs)

def optional (f : Form) : Form :=
  .alt f .empty

def punctuation (s : String) : Form :=
  .sign s []

/-- Forms with commas between them. -/
def commaList (f : Form) : Form :=
  .seq f (.many (.seq (punctuation ",") f))

def maybeComma : Form :=
  optional (punctuation ",")

/-- A list in which even a lone comma may stand. -/
def looseList (f : Form) : Form :=
  .seq (optional (commaList f)) maybeComma

/-- On the same line where a line end would close what is before. -/
def closedByLine (line : Bool) (f : Form) : Form :=
  if line then .sameLine f else f

end Form

open Form

/-! ## Words and operators -/

def typeWords : List String := ["struct", "interface", "map", "chan", "func"]

def operandWords : List String :=
  typeWords ++ ["nil", "true", "false", "iota", "new", "make"]

def statementWords : List String :=
  operandWords ++ ["const", "type", "var", "if", "for", "switch", "select", "return", "go", "defer",
    "goto", "fallthrough", "break", "continue"]

def caseWords : List String := ["case", "default"]

def Lead.reserved : Lead → List String
  | .operand => operandWords
  | .returned => operandWords ++ caseWords
  | .blockStatement | .innerStatement => statementWords
  | .listStatement | .labelledStatement => statementWords ++ caseWords
  | .topStatement => statementWords ++ ["package", "import"]
  | .loop => operandWords ++ ["range"]

/-- Where a statement behind a label stands. -/
def Lead.behindLabel : Lead → Lead
  | .blockStatement | .listStatement => .labelledStatement
  | _ => .innerStatement

def binaryOperators : List String :=
  ["*", "/", "%", "<<", ">>", "&", "&^", "+", "-", "|", "^", "==", "!=", "<", "<=", ">", ">=", "&&",
    "||"]

def assignmentOperators : List String :=
  ["*=", "/=", "%=", "<<=", ">>=", "&=", "&^=", "+=", "-=", "|=", "^="]

def Ending.operators : Ending → List String
  | .closed => []
  | .statement => ["++", "--", "<-", "=", ":="] ++ assignmentOperators
  | .assignment => ["=", ":="] ++ assignmentOperators
  | .communication => ["<-", "=", ":="]
  | .received => ["=", ":="]

namespace Around

/-- Inside brackets of some kind. -/
def inner : Around := {}

/-- Behind an operator. -/
def further (a : Around) : Around :=
  { a with lead := .operand, guarded := false }

end Around

/-! ## Types -/

/-- On the same line where a line end would close the type before. -/
def closedBy (c : Closing) (f : Form) : Form :=
  closedByLine (c != .nothing) f

def typeForm (c : Closing) : Form := .phrase (.type c .nothing)

/-- A union of types, as constraints have it. -/
def typeElement (c : Closing) (beside : Beside) : Form :=
  .seq (.phrase (.type c beside))
    (.many (.seq (closedBy c (punctuation "|")) (typeForm c)))

/-- A named type, perhaps of another package, perhaps with type arguments. -/
def namedType (c : Closing) (reserved : List String) (beside : Beside) : Form :=
  let name := .name reserved
  let qualified := chain [name, closedBy c (punctuation "."), .name []]
  let inBrackets := if beside = .name then .value else .nothing
  let generic := .alt (.seq name (closedBy c (.phrase (.typeArguments inBrackets))))
    (.seq qualified (closedBy c (.phrase (.typeArguments .nothing))))
  oneOf [.weighted (-1) name, qualified, .weighted 1 generic]

/-- A type that does not begin with one of some words. -/
def typeBut (words : List String) (c : Closing) : Form :=
  .seq (.notNext (oneOf (words.map .word))) (typeForm c)

/-- What a function gives back. A type or a parenthesis behind the parameters belongs to it. -/
def result (c : Closing) (words : List String) : Form :=
  .alt (closedBy c (.alt (.phrase .parameters) (typeBut words c)))
    (.notNext (closedBy c (.alt (punctuation "(") (punctuation "["))))

def functionType (c : Closing) : Form :=
  chain [.word "func", .phrase .parameters, result c (if c = .lineEndOrCase then caseWords else [])]

def negatedType (c : Closing) : Form :=
  .seq (punctuation "~") (typeForm c)

def negatedGeneric (c : Closing) : Form :=
  .weighted 1
    (.seq (negatedType c) (closedBy c (.phrase (.typeArguments .nothing))))

def fieldTag : Form :=
  optional (.sameLine .string)

/-- Several names of one type; a single name, whose type begins on its line; or a type alone. -/
def namedFields : Form :=
  .alt (.seq (.name []) (.sameLine (typeForm .lineEndOrCase)))
    (chain [.name [], .sameLine (punctuation ","), commaList (.name []), typeForm .lineEndOrCase])

def embeddedField : Form :=
  oneOf [namedType .lineEndOrCase [] .name, negatedGeneric .nothing,
    .seq (punctuation "*") (.alt (namedType .lineEndOrCase [] .nothing) (negatedGeneric .nothing))]

/-- Of two readings the one with an embedded type comes first: brackets behind its name are type
arguments rather than the length of an array. -/
def field : Form :=
  .seq (.alt embeddedField namedFields) fieldTag

/-- Members with terminators between them, in braces. -/
def memberList (member : Form) : Form :=
  chain [punctuation "\x7b",
    optional (chain [member, .many (.seq .terminator member), optional .terminator]),
    punctuation "\x7d"]

def structType : Form :=
  .seq (.word "struct") (memberList field)

def methodElement : Form :=
  chain [.name typeWords, .sameLine (.phrase .parameters), result .lineEndOrCase []]

def interfaceElement : Form :=
  .alt methodElement (typeElement .lineEndOrCase .nothing)

def interfaceType : Form :=
  .seq (.word "interface") (memberList interfaceElement)

def mapType (c : Closing) : Form :=
  chain [.word "map", punctuation "[", typeForm .nothing, punctuation "]", typeForm c]

def sliceType (c : Closing) : Form :=
  chain [punctuation "[", punctuation "]", typeForm c]

def arrayType (c : Closing) : Form :=
  chain [punctuation "[", .phrase (.expression .inner), punctuation "]", typeForm c]

def channelType (c : Closing) : Form :=
  oneOf [.seq (.word "chan") (typeForm c),
    chain [.word "chan", punctuation "<-", typeForm c],
    chain [punctuation "<-", .word "chan", typeForm c]]

def parenthesizedType (beside : Beside) : Form :=
  chain [punctuation "(", .phrase (.type .nothing beside), punctuation ")"]

/-- Names of parameters of one type. Only the first may not be a word for a type. -/
def parameterNames : Form :=
  .seq (.name typeWords) (.many (.seq (punctuation ",") (.name [])))

def parameter : Form :=
  oneOf [.phrase (.type .nothing .name), .seq parameterNames (typeForm .nothing),
    chain [optional (.name typeWords), punctuation "...", typeForm .nothing]]

/-- Names with a constraint, behind the first name. -/
def constraintTail : Form :=
  .seq (.many (.seq (punctuation ",") (.name []))) (typeElement .nothing .nothing)

def typeParameters (reserved : List String) : Form :=
  chain [punctuation "[", .name reserved, constraintTail,
    .many (chain [punctuation ",", .name [], constraintTail]), maybeComma, punctuation "]"]

/-! ## Expressions -/

def expr (a : Around) : Form := .phrase (.expression a)

def argument : Form :=
  .alt (.seq (expr .inner) (optional (punctuation "..."))) (.phrase (.type .nothing .value))

def arguments : Form :=
  chain [punctuation "(", looseList argument, punctuation ")"]

/-- The arguments of an allocation: a type, then expressions. -/
def allocationArguments : Form :=
  chain [punctuation "(",
    optional (chain [typeForm .nothing, .many (.seq (punctuation ",") (expr .inner)), maybeComma]),
    punctuation ")"]

/-- A list of types in brackets. -/
def instantiation : Form :=
  chain [punctuation "[", commaList (typeForm .nothing), maybeComma, punctuation "]"]

/-- A value in the parentheses of a conversion. -/
def converted : Form :=
  .weighted (-1) (chain [punctuation "(", expr .inner, maybeComma, punctuation ")"])

/-- The types without a name that a value in braces may follow. -/
def literalType : Form :=
  oneOf [mapType .nothing, sliceType .nothing, arrayType .nothing,
    chain [punctuation "[", punctuation "...", punctuation "]", typeForm .nothing], structType,
    negatedGeneric .nothing]

/-- The types without a name that may convert a value. -/
def conversionType : Form :=
  oneOf [mapType .nothing, sliceType .nothing, arrayType .nothing, structType, interfaceType,
    channelType .nothing, functionType .nothing, negatedType .nothing, negatedGeneric .nothing,
    parenthesizedType .value]

/-- A name of another package at the start of an expression. -/
def qualifiedOperand (a : Around) : Form :=
  chain [.name a.lead.reserved, closedByLine a.line (.sign "." ["..."]), .name []]

/-- A named type with type arguments at the start of an expression. -/
def genericOperand (a : Around) : Form :=
  .weighted 1
    (.alt (.seq (qualifiedOperand a) (.phrase (.typeArguments .nothing)))
      (.seq (.name a.lead.reserved) (closedByLine a.line (.phrase (.typeArguments .nothing)))))

/-- A value made from a named type, by braces, a conversion or type arguments. A line end closes a
bare name only, and before a block a bare name is no type. -/
def namedOperand (a : Around) : Form :=
  let bare := .weighted (-1) instantiation
  .alt
    (.seq (.name a.lead.reserved)
      (closedByLine a.line (if a.header then bare else .alt (.phrase .literalValue) bare)))
    (.seq (.alt (qualifiedOperand a) (genericOperand a))
      (oneOf [.phrase .literalValue, instantiation, converted]))

/-- An allocation, or the name of one as a value. -/
def allocation (a : Around) : Form :=
  .seq (.alt (.word "new") (.word "make"))
    (.alt (closedByLine a.line allocationArguments)
      (.notNext (closedByLine a.line (punctuation "("))))

/-- A conversion to a pointer, where it is not just an operator before a value. -/
def pointerConversion (a : Around) : List Form :=
  if a.guarded then [chain [punctuation "*", .phrase (.type .nothing .value), converted]] else []

def constantWord : Form :=
  oneOf [.word "nil", .word "true", .word "false", .word "iota"]

def functionLiteral : Form :=
  chain [.word "func", .phrase .parameters, result .nothing [], .phrase .block]

def operandForm (a : Around) : Form :=
  oneOf ([.name a.lead.reserved, namedOperand a, .number, .string, .rune, constantWord,
    allocation a, chain [punctuation "(", expr .inner, punctuation ")"], functionLiteral,
    .seq literalType (.phrase .literalValue),
    .seq conversionType (.alt converted instantiation)] ++ pointerConversion a)

def bracketSuffix : Form :=
  .seq (punctuation "[")
    (.alt
      (.seq (optional (expr .inner))
        (oneOf [chain [punctuation ":", optional (expr .inner), punctuation "]"],
          chain [punctuation ":", expr .inner, punctuation ":", expr .inner, punctuation "]"]]))
      (.seq (expr .inner) (punctuation "]")))

def suffixForm (a : Around) : Form :=
  let asserted :=
    if a.guarded then .seq (.notNext (.word "type")) (typeForm .nothing) else typeForm .nothing
  closedByLine a.line
    (oneOf [.seq (.sign "." ["..."])
        (.alt (.name []) (chain [punctuation "(", asserted, punctuation ")"])),
      bracketSuffix, .seq (.phrase (.typeArguments .value)) arguments, arguments])

def unaryOperator : Form :=
  oneOf (["+", "-", "!", "^", "*", "&", "<-"].map punctuation)

def expressionList (a : Around) : Form :=
  .seq (expr a) (.many (.seq (closedByLine a.line (punctuation ",")) (expr a.further)))

def literalElement : Form :=
  .alt (expr .inner) (.phrase .literalValue)

def keyedElement : Form :=
  .seq literalElement (optional (.seq (punctuation ":") literalElement))

/-! ## Simple statements -/

/-- Further expressions on the left of an assignment. No line end closes them. -/
def furtherTargets (ending : Ending) : Form :=
  .many (.seq (punctuation ",") (expr { ending }))

def assignmentSign : Form :=
  oneOf (.sign "=" ["=="] :: punctuation ":=" :: assignmentOperators.map punctuation)

/-- What may follow the first expression of a statement that ends in a value. -/
def valueTail (a right : Around) : Form :=
  .alt (.seq (closedByLine a.line (punctuation "<-")) (expr right.further))
    (.seq (closedByLine a.line (.seq (furtherTargets .assignment) assignmentSign))
      (expressionList right))

def stepTail (a : Around) : Form :=
  closedByLine a.line (.alt (punctuation "++") (punctuation "--"))

/-- An expression, a send, a step or an assignment: the first expression stands in `a`, those
behind an assignment sign in `right`. -/
def simpleStatement (a right : Around) : Form :=
  .seq (expr { a with ending := .statement }) (oneOf [.empty, stepTail a, valueTail a right])

/-- A simple statement on lines of its own. -/
def ownLine (lead : Lead) : Around := { line := true, lead }

def onLine : Around := { line := true }

/-! ## Declarations -/

def values : Form :=
  .seq (punctuation "=") (expressionList onLine)

/-- Names of constants. A line end behind any of them would close the specification. -/
def constNames : Form :=
  .seq (.name []) (.many (.seq (.sameLine (punctuation ",")) (.name [])))

/-- Constants with values, which a type may precede. -/
def initializedConsts : Form :=
  .seq constNames (.sameLine (.seq (optional (typeBut caseWords .nothing)) values))

def constSpec : Form :=
  .alt constNames initializedConsts

/-- Variables with values, which a type may precede. -/
def initializedVars : Form :=
  .seq (commaList (.name [])) (.alt (.seq (typeForm .lineEndOrCase) (.sameLine values)) values)

def varSpec : Form :=
  .alt (.seq (commaList (.name [])) (typeForm .lineEndOrCase)) initializedVars

def typeSpec : Form :=
  .alt (chain [.name [], optional (typeParameters operandWords), typeForm .lineEndOrCase])
    (chain [.name [], punctuation "=", typeForm .lineEndOrCase])

/-- What an array type begins with. -/
def arrayLength : Form :=
  chain [punctuation "[", expr .inner, punctuation "]"]

/-- Specifications in parentheses, each with its terminator. -/
def specGroup (spec : Form) : Form :=
  chain [punctuation "(", .many (.seq spec .terminator), punctuation ")"]

def declaration (word : String) (spec : Form) : Form :=
  .seq (.word word) (.alt spec (specGroup spec))

/-! ## Statements -/

def label (lead : Lead) : Form :=
  .seq (.name lead.reserved) (.sameLine (.sign ":" [":="]))

def inHeader : Around := { header := true, ending := .statement }

def ifHeader : Form :=
  .alt (expr inHeader)
    (chain [simpleStatement { header := true } {}, punctuation ";", expr { header := true }])

def forHeader : Form :=
  oneOf [expr { inHeader with lead := .loop },
    chain [optional (simpleStatement { header := true, lead := .loop } { lead := .loop }),
      punctuation ";", optional (expr .inner), punctuation ";",
      optional (simpleStatement { header := true } { header := true })],
    chain [optional (.seq (expr { inHeader with lead := .loop })
        (.seq (furtherTargets .assignment) (.alt (.sign "=" ["=="]) (punctuation ":=")))),
      .word "range", expr { header := true }]]

/-- A statement before the value of a switch. -/
def switchStart : Form :=
  .seq (simpleStatement { header := true, guarded := true } { guarded := true })
    (punctuation ";")

/-- The value of a switch, if there is one. -/
def switchValue : Form :=
  let value (ending : Ending) := optional (expr { header := true, ending, guarded := true })
  .alt (value .statement) (.seq switchStart (value .received))

/-- The value of a type switch, perhaps with a name for it. -/
def typeGuard : Form :=
  .seq
    (.alt (.phrase (.primary { header := true, guarded := true }))
      (chain [expr { inHeader with guarded := true }, furtherTargets .assignment, punctuation ":=",
        .phrase (.primary { guarded := true })]))
    (chain [.sign "." ["..."], punctuation "(", .word "type", punctuation ")"])

def caseBody : Form :=
  .seq (punctuation ":") (optional (.phrase (.statements .listStatement)))

def cases (head : Form) : Form :=
  chain [punctuation "\x7b",
    .many (.alt (chain [.word "case", head, caseBody]) (.seq (.word "default") caseBody)),
    punctuation "\x7d"]

def switchStatement : Form :=
  .seq (.word "switch")
    (.alt (.seq switchValue (cases (expressionList .inner)))
      (chain [optional switchStart, typeGuard, cases (commaList (typeForm .nothing))]))

def communication : Form :=
  .seq (expr { ending := .communication })
    (oneOf [.empty, .seq (punctuation "<-") (expr .inner),
      chain [furtherTargets .received, .alt (.sign "=" ["=="]) (punctuation ":="),
        expr .inner]])

def selectStatement : Form :=
  .seq (.word "select") (cases communication)

def returnedValues : Form :=
  expressionList (ownLine .returned)

/-- Where a loop goes on. -/
def targetLabel : Form :=
  optional (.sameLine (.name caseWords))

/-- Statements that end in a value. -/
def valueStatement (lead : Lead) : Form :=
  oneOf [.seq (expr { ownLine lead with ending := .statement }) (valueTail (ownLine lead) onLine),
    .seq (.word "go") (expr onLine), .seq (.word "defer") (expr onLine),
    .seq (.word "return") (.sameLine returnedValues),
    .seq (.word "const") initializedConsts, .seq (.word "var") initializedVars]

def statementForm (lead : Lead) : Form :=
  oneOf [simpleStatement (ownLine lead) onLine,
    declaration "const" constSpec, declaration "var" varSpec, declaration "type" typeSpec,
    .seq (.word "return") (optional (.sameLine returnedValues)),
    .seq (.word "go") (expr onLine), .seq (.word "defer") (expr onLine),
    .phrase .ifStatement, chain [.word "for", optional forHeader, .phrase .block],
    switchStatement, selectStatement, .seq (label lead) (.phrase (.statement lead.behindLabel)),
    .word "fallthrough", .seq (.word "break") targetLabel, .seq (.word "continue") targetLabel,
    .seq (.word "goto") (.name []),
    .phrase .block, punctuation ";"]

/-! ## The top level -/

def packageClause : Form :=
  .seq (.word "package") (.name [])

def importSpec : Form :=
  .alt .string (.seq (.alt (punctuation ".") (.name [])) .string)

def importDeclaration : Form :=
  .seq (.word "import")
    (.alt importSpec
      (chain [punctuation "(",
        optional (chain [importSpec, .many (.seq .terminator importSpec), optional .terminator]),
        punctuation ")"]))

/-- The parts of a function declaration. -/
def functionParts : List Form :=
  [.word "func", .name [], optional (typeParameters []), .phrase .parameters, result .lineEnd [],
    optional (.sameLine (.phrase .block))]

/-- The parts of a method declaration. -/
def methodParts : List Form :=
  [.word "func", .phrase .parameters, .name typeWords, .phrase .parameters, result .lineEnd [],
    optional (.sameLine (.phrase .block))]

/-- A name and a parenthesis behind the first parameters of a function make it a method. -/
def methodStart : Form :=
  chain [.word "func", .phrase .parameters, .name typeWords, punctuation "("]

def topStatement : Form :=
  .seq (.notNext methodStart) (.phrase (.statement .topStatement))

/-- The statements that the end of the source may close. -/
def closedStatement : Form :=
  .alt (valueStatement .topStatement)
    (chain [label .topStatement, .many (label .innerStatement), valueStatement .innerStatement])

/-- The form of each phrase. -/
def Phrase.form : Phrase → Form
  | .expression a =>
    .seq (.phrase (.unary a))
      (.many (.seq (closedByLine a.line (.operator a.ending)) (.phrase (.unary a.further))))
  | .unary a => .alt (.phrase (.primary a)) (.seq unaryOperator (.phrase (.unary a.further)))
  | .primary a => .seq (.phrase (.operand a)) (.many (.phrase (.suffix a)))
  | .operand a => operandForm a
  | .suffix a => suffixForm a
  | .type c beside =>
    let inside := if beside = .value then .value else .nothing
    oneOf [namedType c (if beside = .value then operandWords else typeWords) beside,
      .seq (punctuation "*") (.phrase (.type c inside)), structType, interfaceType,
      sliceType c, arrayType c, mapType c, channelType c, functionType c,
      negatedType c, negatedGeneric c, parenthesizedType inside]
  | .typeArguments beside =>
    .weighted 2 (chain [punctuation "[", typeElement .nothing beside,
      .many (.seq (punctuation ",") (typeElement .nothing .nothing)), maybeComma, punctuation "]"])
  | .parameters => chain [punctuation "(", looseList parameter, punctuation ")"]
  | .literalValue => chain [punctuation "\x7b", looseList keyedElement, punctuation "\x7d"]
  | .block =>
    chain [punctuation "\x7b", optional (.phrase (.statements .blockStatement)), punctuation "\x7d"]
  | .statements lead =>
    .alt
      (chain [.phrase (.statement lead),
        .many (.seq .terminator (.phrase (.statement .listStatement))),
        optional (.seq .terminator (optional (label .listStatement)))])
      (label lead)
  | .statement lead => statementForm lead
  | .ifStatement =>
    chain [.word "if", ifHeader, .phrase .block,
      optional (.sameLine (.seq (.word "else") (.alt (.phrase .block) (.phrase .ifStatement))))]

end SourceBundle.Go
