import SourceBundle.GoDoc
import SourceBundle.Outline

/-!
# Symbols of a Go file

The symbols that the declarations at the top level of a Go file give: one for each function, method
and type, and one for each name of a constant or variable. Fields are children of their struct,
methods of their interface. The names of a grouped declaration share its documentation.
-/

namespace SourceBundle.Go

def text (cs : List Char) : String :=
  String.ofList cs

/-- A field has a symbol for each of its names; an embedded type is named by its text. -/
def Field.symbols (f : Field) (doc : Option String) : List Symbol :=
  if f.names.isEmpty then [.symbol .field (text f.type) (some (text f.type)) doc []]
  else f.names.map fun name => .symbol .field (text name) (some (text f.type)) doc []

def InterfaceMember.symbols (m : InterfaceMember) (doc : Option String) : List Symbol :=
  match m with
  | .method name signature => [.symbol .method (text name) (some (text signature)) doc []]
  | .element => []

/-- A type is a struct, an interface or of another kind; only the first two have children. -/
def TypeSpec.symbol (s : TypeSpec) (doc : Option String) : Symbol :=
  match s.shape with
  | .struct members =>
    .symbol .struct (text s.name) none doc
      ((documented members).flatMap fun (f, fieldDoc) => f.symbols fieldDoc)
  | .interface members =>
    .symbol .interface (text s.name) none doc
      ((documented members).flatMap fun (m, memberDoc) => m.symbols memberDoc)
  | .other => .symbol .type (text s.name) none doc []

def ValueSpec.symbols (s : ValueSpec) (kind : SymbolKind) (doc : Option String) : List Symbol :=
  s.names.map fun name => .symbol kind (text name) (s.type.map text) doc []

/-- Type parameters, parameters and the result behind a blank. -/
def FunctionTail.signature (t : FunctionTail) : List Char :=
  t.typeParameters ++ t.parameters ++ if t.result.isEmpty then [] else ' ' :: t.result

namespace Declaration

/-- The symbols of a declaration. A method is named after the type of its receiver. -/
def symbols (d : Declaration) (doc : Option String) : List Symbol :=
  match d with
  | .function name tail =>
    [.symbol .function (text name) (some (text ("func ".toList ++ name ++ tail.signature))) doc []]
  | .method receiver type name tail =>
    let qualified := type.elim name (· ++ '.' :: name)
    let signature := "func ".toList ++ receiver ++ ' ' :: name ++ tail.signature
    [.symbol .method (text qualified) (some (text signature)) doc []]
  | .types specs => specs.map (·.symbol doc)
  | .constants specs => specs.flatMap (·.symbols .const doc)
  | .variables specs => specs.flatMap (·.symbols .var doc)
  | .other => []

end Declaration

/-- The symbols of a file in the order of the source. -/
def File.symbols (f : File) : List Symbol :=
  (documented f.pieces).flatMap fun (d, doc) => d.symbols doc

end SourceBundle.Go
