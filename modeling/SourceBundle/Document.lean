import SourceBundle.Content
import SourceBundle.FileTree
import SourceBundle.JsonText
import SourceBundle.OutlineRegistry
import SourceBundle.TextLines
import SourceBundle.Blank

/-!
# Documents

What a bundle says, apart from how it is written: the drawing of the tree, the outlines and the
contents, each section present or left out. `render` writes a document as headed text or as JSON.
-/

namespace SourceBundle

inductive OutputFormat where
  | text
  | json
  deriving DecidableEq, Repr

namespace OutputFormat

def extension : OutputFormat → String
  | .text => "txt"
  | .json => "json"

end OutputFormat

structure OutputOptions where
  format : OutputFormat := .text
  tree : Bool := true
  dump : Bool := true
  outline : Bool := false
  skipBinary : Bool := true
  sizes : Bool := false
  deriving DecidableEq, Repr

namespace OutputOptions

/-- Whether every section is left out. -/
def isEmpty (o : OutputOptions) : Bool :=
  !o.tree && !o.dump && !o.outline

end OutputOptions

/-- The sections of a bundle. Files are named by their relative paths. -/
structure Document where
  timestamp : String
  tree : Option String
  outlines : Option (List (String × Outline))
  contents : Option (List (String × Content))
  deriving Repr

namespace Document

/-! ## Gathering -/

def files (entries : List PathEntry) : List PathEntry :=
  entries.filter fun e => !e.isDir

/-- The outline of a file, if an outliner takes it. -/
def outlineOf? (fs : FileSystem) (registry : OutlineRegistry) (entry : PathEntry) :
    Except OutputError (Option (String × Outline)) :=
  match registry.outlinerFor? entry.path with
  | none => .ok none
  | some outliner => do
    let text := match ← Content.load fs entry.path false with
      | .text text => text
      | .binary => ""
    let outline ← (outliner.outline text entry.path).mapError .outline
    return some (entry.relative, outline)

def gatherOutlines (fs : FileSystem) (registry : OutlineRegistry) (entries : List PathEntry) :
    Except OutputError (List (String × Outline)) := do
  return (← (files entries).mapM (outlineOf? fs registry)).filterMap id

def gatherContents (fs : FileSystem) (skipBinary : Bool) (entries : List PathEntry) :
    Except OutputError (List (String × Content)) :=
  (files entries).mapM fun entry => do
    return (entry.relative, ← Content.load fs entry.path skipBinary)

/-- Gathers a section that is wanted. -/
def optional {ε α : Type} (wanted : Bool) (gather : Except ε α) : Except ε (Option α) :=
  if wanted then some <$> gather else .ok none

/-- Gathers the sections in the order in which the format writes them, so that the first thing that
goes wrong is the one nearest to the top of the output. -/
def gather (fs : FileSystem) (registry : OutlineRegistry) (options : OutputOptions)
    (timestamp : String) (entries : List PathEntry) : Except OutputError Document := do
  let tree := if options.tree then some (TreeNode.renderEntries options.sizes entries) else none
  match options.format with
  | .text =>
    let outlines ← optional options.outline (gatherOutlines fs registry entries)
    let contents ← optional options.dump (gatherContents fs options.skipBinary entries)
    return ⟨timestamp, tree, outlines, contents⟩
  | .json =>
    let contents ← optional options.dump (gatherContents fs options.skipBinary entries)
    let outlines ← optional options.outline (gatherOutlines fs registry entries)
    return ⟨timestamp, tree, outlines, contents⟩

/-! ## Headed text -/

/-- A signature that says something. -/
def shownSignature (signature : Option String) : Option String :=
  signature.filter (· != "")

def docText (indent : String) : Option String → String
  | none => ""
  | some doc =>
    indent ++ "  Documentation:\n" ++
      String.join ((textLines (trimBlank doc.toList)).map fun line =>
        indent ++ "    " ++ String.ofList line ++ "\n")

/-- The lines of one symbol without its children. -/
def symbolText (depth : Nat) (kind : SymbolKind) (name : String) (signature doc : Option String) :
    String :=
  let indent := String.ofList (List.replicate (2 * depth) ' ')
  let suffix := match shownSignature signature with
    | some signature => s!" ({signature})"
    | none => ""
  indent ++ kind.heading ++ ": " ++ name ++ suffix ++ "\n" ++ docText indent doc

mutual

def symbolTreeText (depth : Nat) : Symbol → String
  | .symbol kind name signature doc children =>
    symbolText depth kind name signature doc ++ symbolsText (depth + 1) children
termination_by structural s => s

def symbolsText (depth : Nat) : List Symbol → String
  | [] => ""
  | s :: ss => symbolTreeText depth s ++ symbolsText depth ss
termination_by structural ss => ss

end

def outlineText (o : Outline) : String :=
  if o.hasErrors then "Parsing errors:\n" ++ String.intercalate "\n" o.errors ++ "\n"
  else symbolsText 0 o.symbols

def contentText : Content → String
  | .text text => text
  | .binary => "<binary file>"

/-- The name that headings give to the program. -/
def generator : String := "sourcepack"

def treeSection : Option String → String
  | none => ""
  | some drawing => "## File Tree\n\n" ++ drawing ++ "\n"

def outlineSection : Option (List (String × Outline)) → String
  | none => ""
  | some outlines =>
    "## Language-Specific Outlines\n\n" ++
      String.join (outlines.map fun (path, o) => "\n### File: " ++ path ++ "\n" ++ outlineText o)

def contentSection : Option (List (String × Content)) → String
  | none => ""
  | some contents =>
    "## File Contents\n\n" ++
      String.join (contents.map fun (path, c) =>
        "--- File: " ++ path ++ "\n" ++ contentText c ++ "\n\n")

def renderText (d : Document) : String :=
  "## Generated with " ++ generator ++ " at: " ++ d.timestamp ++ "\n\n" ++ treeSection d.tree ++
    outlineSection d.outlines ++ contentSection d.contents

/-! ## JSON -/

def textField (name : String) : Option String → List (String × JsonValue)
  | none => []
  | some text => [(name, .text text)]

/-- A list that is empty is left out. -/
def listField (name : String) : List JsonValue → List (String × JsonValue)
  | [] => []
  | values => [(name, .list values)]

mutual

def symbolJson : Symbol → JsonValue
  | .symbol kind name signature doc children =>
    .record ([("type", .text kind.name), ("name", .text name)] ++
      textField "signature" (shownSignature signature) ++ textField "documentation" doc ++
      listField "children" (symbolsJson children))
termination_by structural s => s

def symbolsJson : List Symbol → List JsonValue
  | [] => []
  | s :: ss => symbolJson s :: symbolsJson ss
termination_by structural ss => ss

end

def contentJson (path : String) : Content → JsonValue
  | .text text => .record [("path", .text path), ("content", .text text)]
  | .binary => .record [("path", .text path), ("binary", .flag true)]

def outlineJson (path : String) (o : Outline) : JsonValue :=
  .record ([("path", .text path)] ++ listField "symbols" (symbolsJson o.symbols) ++
    listField "errors" (o.errors.map .text))

def toJson (d : Document) : JsonValue :=
  .record ([("timestamp", .text d.timestamp)] ++ textField "tree" d.tree ++
    listField "files" ((d.contents.getD []).map fun (path, c) => contentJson path c) ++
    listField "outlines" ((d.outlines.getD []).map fun (path, o) => outlineJson path o))

def renderJson (d : Document) : String :=
  d.toJson.pretty

def render (d : Document) : OutputFormat → String
  | .text => d.renderText
  | .json => d.renderJson

/-! ## The whole output -/

/-- The text of the document for the selected paths. -/
def generate (fs : FileSystem) (registry : OutlineRegistry) (options : OutputOptions)
    (timestamp : String) (entries : List PathEntry) : Except OutputError String := do
  return (← gather fs registry options timestamp entries).render options.format

/-- Writes a finished document to a file, with the directories on the way to it. Those directories
stay where the file cannot be written. -/
def writeTo (fs : FileSystem) (path document : String) : FileSystem × Except OutputError Unit :=
  match fs.ensureParents path with
  | (fs, .error cause) => (fs, .error (.write path cause))
  | (fs, .ok ()) =>
    match fs.write path (Utf8.encode document.toList) with
    | .error cause => (fs, .error (.write path cause))
    | .ok written => (written, .ok ())

end Document

end SourceBundle
