import SourceBundle.GoReading

/-!
# Go files

What a Go source declares at its top level: functions, methods, types with their fields and methods,
constants and variables, among comments and semicolons. The parts of a declaration are found by
reading its forms again between its two ends.
-/

namespace SourceBundle.Go

/-- A part of a source and what surrounds it, in the order of the source. -/
inductive Piece (α : Type) where
  | comment (c : Comment)
  /-- A semicolon or NUL that ends an item. -/
  | mark
  | item (startRow endRow : Nat) (value : α)
  deriving Repr

/-- Struct fields: the names, none of them for an embedded type, and the text of the type. -/
structure Field where
  names : List (List Char)
  type : List Char
  deriving DecidableEq, Repr

/-- A method of an interface, or an element of another kind. -/
inductive InterfaceMember where
  | method (name : List Char) (signature : List Char)
  | element
  deriving DecidableEq, Repr

inductive TypeShape where
  | struct (members : List (Piece Field))
  | interface (members : List (Piece InterfaceMember))
  | other
  deriving Repr

structure TypeSpec where
  name : List Char
  shape : TypeShape
  deriving Repr

/-- Names of constants or variables, with the text of their type. -/
structure ValueSpec where
  names : List (List Char)
  type : Option (List Char)
  deriving DecidableEq, Repr

/-- The texts of what stands behind the name of a function; a part that is not there is empty. -/
structure FunctionTail where
  typeParameters : List Char
  parameters : List Char
  result : List Char
  body : List Char
  deriving DecidableEq, Repr

inductive Declaration where
  | function (name : List Char) (tail : FunctionTail)
  /-- A method with the text of its receiver and of the receiver's type. -/
  | method (receiver : List Char) (type : Option (List Char)) (name : List Char)
      (tail : FunctionTail)
  | types (specs : List TypeSpec)
  | constants (specs : List ValueSpec)
  | variables (specs : List ValueSpec)
  /-- Whatever declares no symbol. -/
  | other
  deriving Repr

structure File where
  pieces : List (Piece Declaration)
  deriving Repr

/-! ## Parts -/

/-- The ways to read forms one after another: the cursor behind each of them. -/
def readings (fuel : Nat) : List Form → Cursor → List (List Cursor)
  | [], _ => [[]]
  | f :: fs, c =>
    (f.ends fuel c).flatMap fun d => (readings fuel fs d).map (d :: ·)

/-- The first way to read forms that ends at a given cursor. -/
def readingTo (fuel : Nat) (fs : List Form) (c stop : Cursor) : Option (List Cursor) :=
  (readings fuel fs c).find? fun ds => (ds.getLastD c).left == stop.left

/-- The text of the part between two cursors, without what was skipped before it. -/
def partText (c d : Cursor) : List Char :=
  if c.left == d.left then [] else c.skip.textTo d

/-- The texts of parts that follow one another. -/
def partTexts : Cursor → List Cursor → List (List Char)
  | _, [] => []
  | c, d :: ds => partText c d :: partTexts d ds

/-- The texts of forms read from one cursor to another. -/
def textsTo (fuel : Nat) (fs : List Form) (c stop : Cursor) : Option (List (List Char)) :=
  (readingTo fuel fs c stop).map (partTexts c)

/-- The names of a comma list between two cursors. `count` bounds their number. -/
def namesTo (fuel : Nat) : (count : Nat) → Cursor → Cursor → List (List Char)
  | 0, _, _ => []
  | count + 1, c, stop =>
    match (Form.name []).ends fuel c with
    | [] => []
    | d :: _ =>
      partText c d ::
        (if d.left == stop.left then []
          else match (Form.punctuation ",").ends fuel d with
            | [] => []
            | e :: _ => namesTo fuel count e stop)

/-- The piece that a terminator is; a line end is none. -/
def terminatorPieces {α : Type} (c : Cursor) : List (Piece α) :=
  if c.rest.head? == some '\n' then [] else [.mark]

/-! ## Members -/

/-- The pieces of a list in braces, from the cursor behind the opening brace. `member` reads what
stands between two cursors. -/
def memberPieces {α : Type} (fuel : Nat) (form : Form) (member : Cursor → Cursor → α) :
    (count : Nat) → Cursor → Option (List (Piece α))
  | 0, _ => none
  | count + 1, c =>
    let (before, start) := skipFrom true c.left c
    match start.rest with
    | '\x7d' :: _ => some (before.map .comment)
    | _ =>
      (form.ends fuel start).findSome? fun stop =>
        let (behind, next) := skipFrom false stop.left stop
        let here := before.map Piece.comment ++ .item start.row stop.row (member start stop) ::
          behind.map .comment
        match next.rest with
        | '\x7d' :: _ => some here
        | '\n' :: _ | ';' :: _ | '\x00' :: _ =>
          (memberPieces fuel form member count next.next).map fun rest =>
            here ++ terminatorPieces next ++ rest
        | _ => none

/-- A field between two cursors. -/
def readField (fuel : Nat) (c stop : Cursor) : Field :=
  match readingTo fuel [Form.commaList (.name []), typeForm .lineEndOrCase, fieldTag] c stop with
  | some [d, e, _] => ⟨namesTo fuel c.left c d, partText d e⟩
  | _ =>
    match readingTo fuel [embeddedField, fieldTag] c stop with
    | some (d :: _) => ⟨[], partText c d⟩
    | _ => ⟨[], []⟩

def readInterfaceMember (fuel : Nat) (c stop : Cursor) : InterfaceMember :=
  match textsTo fuel [.name typeWords, .sameLine (.phrase .parameters), result .lineEndOrCase []] c stop with
  | some [name, parameters, result] =>
    .method name (parameters ++ if result.isEmpty then [] else ' ' :: result)
  | _ => .element

/-- The shape of the type at a cursor. -/
def readShape (fuel : Nat) (c : Cursor) : TypeShape :=
  match readings fuel [.word "struct", Form.punctuation "\x7b"] c with
  | [_, d] :: _ =>
    .struct ((memberPieces fuel field (readField fuel) d.left d).getD [])
  | _ =>
    match readings fuel [.word "interface", Form.punctuation "\x7b"] c with
    | [_, d] :: _ =>
      .interface ((memberPieces fuel interfaceElement (readInterfaceMember fuel) d.left d).getD [])
    | _ => .other

/-! ## Specifications -/

/-- Whether the brackets between two cursors hold the length of an array rather than type
parameters. Where they may be either, the heavier reading is meant; of equal ones it is the array in
a group of specifications and the type parameters elsewhere. -/
def isArrayLength (fuel : Nat) (grouped : Bool) (c stop : Cursor) : Bool :=
  match arrayLength.weight? fuel c stop, (typeParameters operandWords).weight? fuel c stop with
  | some array, some parameters => parameters < array || (grouped && parameters == array)
  | array, _ => array.isSome

def readTypeSpec (fuel : Nat) (grouped : Bool) (c stop : Cursor) : Option TypeSpec :=
  match readingTo fuel [.name [], typeParameters operandWords, typeForm .lineEndOrCase] c stop with
  | some [d, e, _] =>
    some ⟨partText c d, if isArrayLength fuel grouped d e then .other else readShape fuel e⟩
  | _ =>
    match readingTo fuel [.name [], Form.optional (Form.punctuation "="), typeForm .lineEndOrCase] c stop with
    | some [d, e, _] => some ⟨partText c d, readShape fuel e⟩
    | _ => none

/-- A specification of constants or variables between two cursors. -/
def readValueSpec (fuel : Nat) (c stop : Cursor) : Option ValueSpec :=
  let names := Form.commaList (.name [])
  match readingTo fuel [names, typeForm .nothing, values] c stop with
  | some [d, e, _] => some ⟨namesTo fuel c.left c d, some (partText d e)⟩
  | _ =>
    match readingTo fuel [names, typeForm .lineEndOrCase] c stop with
    | some [d, e] => some ⟨namesTo fuel c.left c d, some (partText d e)⟩
    | _ =>
      match readingTo fuel [names, Form.optional values] c stop with
      | some (d :: _) => some ⟨namesTo fuel c.left c d, none⟩
      | _ => none

/-- The specifications of a group, from the cursor behind its parenthesis. `count` bounds their
number. -/
def readGroup {α : Type} (fuel : Nat) (spec : Form) (read : Cursor → Cursor → Option α) :
    (count : Nat) → Cursor → List α
  | 0, _ => []
  | count + 1, c =>
    ((readings fuel [spec, .terminator] c).filterMap fun
      | [d, e] => some (d, e)
      | _ => none).head?.elim [] fun (d, e) =>
        (read c d).toList ++ readGroup fuel spec read count e

/-- The specifications behind the word of a declaration. `read` is told whether they are grouped. -/
def readSpecs {α : Type} (fuel : Nat) (spec : Form)
    (read : (grouped : Bool) → (c stop : Cursor) → Option α) (c stop : Cursor) : List α :=
  match (Form.punctuation "(").ends fuel c with
  | d :: _ => readGroup fuel spec (read true) d.left d
  | [] => (read false c stop).toList

/-! ## Functions -/

/-- The text of the type in the first entry of a parameter list that is not variadic, from the cursor
behind the parenthesis or a comma. -/
def readReceiverType (fuel : Nat) : (count : Nat) → Cursor → Cursor → Option (List Char)
  | 0, _, _ => none
  | count + 1, c, stop =>
    let others := Form.chain [.many (.seq (Form.punctuation ",") parameter), Form.maybeComma,
      Form.punctuation ")"]
    match readingTo fuel [parameterNames, typeForm .nothing, others] c stop with
    | some [d, e, _] => some (partText d e)
    | _ =>
      match readingTo fuel [typeForm .nothing, others] c stop with
      | some [d, _] => some (partText c d)
      | _ =>
        match readingTo fuel [parameter, Form.punctuation ",", Form.seq parameter others] c stop with
        | some [_, e, _] => readReceiverType fuel count e stop
        | _ => none

def readFunction (fuel : Nat) (c stop : Cursor) : Option Declaration :=
  match textsTo fuel functionParts c stop with
  | some [_, name, typeParameters, parameters, result, body] =>
    some (.function name ⟨typeParameters, parameters, result, body⟩)
  | _ => none

def readMethod (fuel : Nat) (c stop : Cursor) : Option Declaration :=
  match readingTo fuel methodParts c stop with
  | some (d :: ds) =>
    match partTexts c (d :: ds) with
    | [_, receiver, name, parameters, result, body] =>
      let type := do
        let opened ← ((Form.punctuation "(").ends fuel d).head?
        readReceiverType fuel opened.left opened (← ds.head?)
      some (.method receiver type name ⟨[], parameters, result, body⟩)
    | _ => none
  | _ => none

/-! ## The top level -/

/-- What stands between two cursors at the top level. -/
def readDeclaration (fuel : Nat) (c stop : Cursor) : Declaration :=
  let behind (word : String) : Option Cursor := ((Form.word word).ends fuel c).head?
  match behind "type", behind "const", behind "var", behind "func" with
  | some d, _, _, _ => .types (readSpecs fuel typeSpec (readTypeSpec fuel) d stop)
  | _, some d, _, _ => .constants (readSpecs fuel constSpec (fun _ => readValueSpec fuel) d stop)
  | _, _, some d, _ => .variables (readSpecs fuel varSpec (fun _ => readValueSpec fuel) d stop)
  | _, _, _, some _ => ((readFunction fuel c stop).or (readMethod fuel c stop)).getD .other
  | _, _, _, _ => .other

/-- The declarations that the end of a source may follow directly. -/
def topDeclaration : Form :=
  Form.oneOf [Form.chain functionParts, Form.chain methodParts, packageClause, importDeclaration]

/-- Whether the end of the source may close what stands between two cursors. -/
def closedByEnd (fuel : Nat) (c stop : Cursor) : Bool :=
  ((Form.alt topDeclaration closedStatement).ends fuel c).any (·.left == stop.left)

/-- The pieces of the source from a cursor on, if it is well formed. `value` reads what stands between
two cursors, `count` bounds the number of pieces. -/
def topPieces {α : Type} (fuel : Nat) (value : Cursor → Cursor → α) :
    (count : Nat) → Cursor → Option (List (Piece α))
  | 0, _ => none
  | count + 1, c =>
    let (before, start) := skipFrom true c.left c
    if start.rest.isEmpty then some (before.map .comment)
    else
      ((Form.alt topDeclaration topStatement).ends fuel start).findSome? fun stop =>
        let (behind, next) := skipFrom false stop.left stop
        let here := before.map Piece.comment ++
          .item start.row stop.row (value start stop) :: behind.map .comment
        match next.rest with
        | [] => if closedByEnd fuel start stop then some here else none
        | '\n' :: _ | ';' :: _ | '\x00' :: _ =>
          (topPieces fuel value count next.next).map fun rest =>
            here ++ terminatorPieces next ++ rest
        | _ => none

/-- How deep the reading of a text of that length can go. -/
def depthBound (length : Nat) : Nat :=
  64 * (length + 4)

/-- The file that a text is, if it is well formed. -/
def File.read? (text : List Char) : Option File :=
  let start := Cursor.ofText text
  let fuel := depthBound start.left
  (topPieces fuel (readDeclaration fuel) (start.left + 1) start).map File.mk

end SourceBundle.Go
