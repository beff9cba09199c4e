import SourceBundle.LetterCase
import SourceBundle.PathEntry
import SourceBundle.SizeText
import SourceBundle.StableSort
import SourceBundle.Utf8

/-!
# File trees

The selected paths as a tree, and its drawing: one line for a node, the lines of its children
below it behind branches.
-/

namespace SourceBundle

inductive TreeKind where
  | directory
  | file (size : Nat)
  deriving DecidableEq, Repr

inductive TreeNode where
  | node (name path : String) (kind : TreeKind) (children : List TreeNode)
  deriving Repr

namespace TreeNode

def name : TreeNode → String
  | .node name _ _ _ => name

def path : TreeNode → String
  | .node _ path _ _ => path

def kind : TreeNode → TreeKind
  | .node _ _ kind _ => kind

def children : TreeNode → List TreeNode
  | .node _ _ _ children => children

def directory (name path : String) : TreeNode :=
  .node name path .directory []

def file (name path : String) (size : Nat) : TreeNode :=
  .node name path (.file size) []

def isDirectory (t : TreeNode) : Bool :=
  t.kind == .directory

def withChildren (t : TreeNode) (children : List TreeNode) : TreeNode :=
  .node t.name t.path t.kind children

def addChild (t : TreeNode) (child : TreeNode) : TreeNode :=
  t.withChildren (t.children ++ [child])

/-! ## Order -/

/-- What names are ordered by. -/
def sortKey (name : String) : List UInt8 :=
  Utf8.encode (lowercase name.toList)

/-- Directories come before files, and names in the order of their lowercase forms. -/
def precedes (a b : TreeNode) : Bool :=
  match a.kind, b.kind with
  | .directory, .file _ => true
  | .file _, .directory => false
  | _, _ => bytesLe (sortKey a.name) (sortKey b.name)

mutual

/-- Puts the children in order at every depth. -/
def sorted : TreeNode → TreeNode
  | .node name path kind children =>
    .node name path kind (stableSort precedes (sortedAll children))
termination_by structural t => t

def sortedAll : List TreeNode → List TreeNode
  | [] => []
  | t :: ts => t.sorted :: sortedAll ts
termination_by structural ts => ts

end

/-! ## Building -/

/-- Whether a node is a directory of that name. -/
def isDirectoryNamed (name : String) (t : TreeNode) : Bool :=
  t.isDirectory && t.name == name

/-- Changes the first node that passes the test. -/
def updateFirst (test : TreeNode → Bool) (f : TreeNode → TreeNode) : List TreeNode → List TreeNode
  | [] => []
  | t :: ts => if test t then f t :: ts else t :: updateFirst test f ts

/-- The tree with a directory of that name among the children. -/
def ensureDirectory (t : TreeNode) (name path : String) : TreeNode :=
  if t.children.any (isDirectoryNamed name) then t else t.addChild (directory name path)

/-- Adds an entry at the end of a chain of names, with the directories on the way to it. -/
def insert (entry : PathEntry) : List String → TreeNode → TreeNode
  | [], t => t
  | [name], t =>
    if entry.isDir then t.ensureDirectory name entry.path
    else t.addChild (file name entry.path (entry.size.getD 0))
  | name :: next :: rest, t =>
    let t := t.ensureDirectory name (PathText.ancestor (rest.length + 1) entry.path)
    t.withChildren
      (updateFirst (isDirectoryNamed name) (insert entry (next :: rest)) t.children)

/-- The first of the entries with the least depth. -/
def shallowest : PathEntry → List PathEntry → PathEntry
  | best, [] => best
  | best, entry :: entries =>
    shallowest (if entry.depth < best.depth then entry else best) entries

/-- The root of the tree, named by the first name of the shallowest entry. -/
def rootOf (entry : PathEntry) : TreeNode :=
  directory ((PathText.pieces entry.relative).headD "")
    (PathText.ancestor (entry.depth - 1) entry.path)

def ofEntries? : List PathEntry → Option TreeNode
  | [] => none
  | entry :: entries =>
    let root := rootOf (shallowest entry entries)
    some ((entry :: entries).foldl
      (fun t e => insert e ((PathText.pieces e.relative).drop 1) t) root).sorted

/-! ## Drawing -/

/-- A node's own line. -/
def label (sizes : Bool) (name : String) (kind : TreeKind) : List Char :=
  name.toList ++
    match kind with
    | .directory => ['/']
    | .file size => if sizes then [' ', '['] ++ (sizeText size).toList ++ [']'] else []

/-- The lines of a child that has children after it. -/
def middleBlock : List (List Char) → List (List Char)
  | [] => []
  | line :: lines => ("├── ".toList ++ line) :: lines.map ("│   ".toList ++ ·)

/-- The lines of the last child. -/
def lastBlock : List (List Char) → List (List Char)
  | [] => []
  | line :: lines => ("└── ".toList ++ line) :: lines.map ("    ".toList ++ ·)

mutual

def lines (sizes : Bool) : TreeNode → List (List Char)
  | .node name _ kind children => label sizes name kind :: childLines sizes children
termination_by structural t => t

def childLines (sizes : Bool) : List TreeNode → List (List Char)
  | [] => []
  | t :: ts =>
    (if ts.isEmpty then lastBlock (t.lines sizes) else middleBlock (t.lines sizes)) ++
      childLines sizes ts
termination_by structural ts => ts

end

/-- The drawing of a tree. -/
def render (sizes : Bool) (t : TreeNode) : String :=
  String.ofList ((t.lines sizes).flatMap (· ++ ['\n']))

/-- What is drawn where no path is selected. -/
def emptyDrawing : String := "< no paths found >\n"

def renderEntries (sizes : Bool) (entries : List PathEntry) : String :=
  match ofEntries? entries with
  | some t => t.render sizes
  | none => emptyDrawing

end TreeNode

end SourceBundle
