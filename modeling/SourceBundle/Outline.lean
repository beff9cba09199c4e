/-!
# Outlines

The symbols that a source file declares, with their signatures and documentation, or the places
where it could not be read.
-/

namespace SourceBundle

inductive SymbolKind where
  | function
  | method
  | struct
  | interface
  | type
  | field
  | const
  | var
  deriving DecidableEq, Repr

namespace SymbolKind

def name : SymbolKind → String
  | .function => "function"
  | .method => "method"
  | .struct => "struct"
  | .interface => "interface"
  | .type => "type"
  | .field => "field"
  | .const => "const"
  | .var => "var"

/-- The name in capitals, as headings show it. -/
def heading : SymbolKind → String
  | .function => "FUNCTION"
  | .method => "METHOD"
  | .struct => "STRUCT"
  | .interface => "INTERFACE"
  | .type => "TYPE"
  | .field => "FIELD"
  | .const => "CONST"
  | .var => "VAR"

end SymbolKind

/-- A declared name. Fields and methods of a type are its children. -/
inductive Symbol where
  | symbol (kind : SymbolKind) (name : String) (signature doc : Option String)
      (children : List Symbol)
  deriving Repr

namespace Symbol

def kind : Symbol → SymbolKind
  | .symbol kind _ _ _ _ => kind

def name : Symbol → String
  | .symbol _ name _ _ _ => name

def signature : Symbol → Option String
  | .symbol _ _ signature _ _ => signature

def doc : Symbol → Option String
  | .symbol _ _ _ doc _ => doc

def children : Symbol → List Symbol
  | .symbol _ _ _ _ children => children

mutual

/-- The number of symbols, nested ones included. -/
def count : Symbol → Nat
  | .symbol _ _ _ _ children => 1 + countAll children
termination_by structural s => s

def countAll : List Symbol → Nat
  | [] => 0
  | s :: ss => s.count + countAll ss
termination_by structural ss => ss

end

end Symbol

structure Outline where
  path : String
  /-- The symbols in the order of the source. -/
  symbols : List Symbol := []
  /-- Mistakes in the source. -/
  errors : List String := []
  deriving Repr

namespace Outline

def hasErrors (o : Outline) : Bool :=
  !o.errors.isEmpty

def symbolCount (o : Outline) : Nat :=
  Symbol.countAll o.symbols

end Outline

end SourceBundle
