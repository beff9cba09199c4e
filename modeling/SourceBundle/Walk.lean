import SourceBundle.BundleError
import SourceBundle.FileSystem
import SourceBundle.PathEntry
import SourceBundle.RuleSet
import SourceBundle.StableSort

/-!
# Walking a directory

Every file below a directory is met once, names in the order of their bytes, and those that the
rules include are listed behind the directories that lead to them. Links are leaves unless they are
followed; a followed link must not lead to a directory that is being walked. A directory that cannot
be listed ends the walk.
-/

namespace SourceBundle

structure WalkOptions where
  /-- The greatest number of names below the walked directory. -/
  maxDepth : Option Nat := none
  followLinks : Bool := false
  deriving DecidableEq, Repr

namespace Walk

/-- A leaf that a walk meets. -/
structure Leaf where
  /-- The names from the walked directory to it. -/
  names : List String
  size : Nat
  deriving DecidableEq, Repr

/-- A directory that is being walked: its place, and the path by which it was reached. -/
structure Open where
  place : List String
  path : String
  deriving DecidableEq, Repr

/-- The order in which the names of a directory are met. -/
def nameLe (a b : String) : Bool :=
  bytesLe (DiskName.bytes a) (DiskName.bytes b)

def inNameOrder (entries : List (String × DiskNode)) : List (String × DiskNode) :=
  stableSort (fun a b => nameLe a.1 b.1) entries

/-- The error for a directory that cannot be listed, or a link that leads nowhere. -/
def entryError (path : String) (cause : IoError) : WalkError :=
  if cause.isDenial then .permissionDenied path
  else .io path (.other s!"IO error for operation on {PathText.shown path}: {cause.message}")

/-- The error for a link to a directory that is being walked. -/
def loopError (path ancestor : String) : WalkError :=
  .io path (.other (s!"File system loop found: {PathText.shown path} points to an ancestor " ++
    PathText.shown ancestor))

/-- The leaves below the innermost of the open directories, at most `depth` names down. -/
def leavesFrom (fs : FileSystem) (follow : Bool) :
    (depth : Nat) → (names : List String) → Open → List Open → Except WalkError (List Leaf)
  | 0, _, _, _ => .ok []
  | depth + 1, names, here, above => do
    let entries ← (fs.list here.path).mapError (entryError here.path)
    let leaves ← (inNameOrder entries).mapM fun (name, node) => do
      let names := names ++ [name]
      let path := PathText.join here.path name
      match node with
      | .file bytes => pure [⟨names, bytes.length⟩]
      | .directory _ => leavesFrom fs follow depth names ⟨here.place ++ [name], path⟩ (here :: above)
      | .link target =>
        if !follow then pure [⟨names, (PathText.bytes target).length⟩]
        else
          let place ← (fs.resolve path).mapError (entryError path)
          match fs.root.get? place with
          | some (.directory _) =>
            match (here :: above).find? (·.place == place) with
            | some ancestor => throw (loopError path ancestor.path)
            | none => leavesFrom fs follow depth names ⟨place, path⟩ (here :: above)
          | some (.file bytes) => pure [⟨names, bytes.length⟩]
          | _ => pure []
    return leaves.flatten

/-- Every leaf below a directory. A walk without a limit is bounded by the number of directories,
none of which is inside itself. -/
def leaves (fs : FileSystem) (options : WalkOptions) (base : List String) :
    Except WalkError (List Leaf) :=
  leavesFrom fs options.followLinks (options.maxDepth.getD fs.root.count) []
    ⟨base, FileSystem.pathOf base⟩ []

/-- The directory that is walked for a root: the root itself, or the directory that holds it. -/
def base (fs : FileSystem) (root : String) : Except WalkError (List String) :=
  if fs.pathExists root then
    match fs.canonicalize root with
    | .error cause => .error (.io root cause)
    | .ok place =>
      match fs.root.get? place with
      | some (.directory _) => .ok place
      | _ => .ok place.dropLast
  else .error (.notFound root)

/-- The paths of the directories on the way to a relative path, the outermost first. -/
def properAncestors (relative : String) : List String :=
  let pieces := PathText.pieces relative
  (List.range (pieces.length - 1)).map fun n => PathText.ofPieces (pieces.take (n + 1))

/-- Every directory that leads to one of the files, where it is first needed. -/
def directoriesOf (files : List PathEntry) : List String :=
  (files.flatMap fun file => properAncestors file.relative).foldl
    (fun seen directory => if seen.contains directory then seen else seen ++ [directory]) []

/-- Lists the directories that lead to the files before the files. -/
def withAncestors (displayBase : List String) (files : List PathEntry) : List PathEntry :=
  (directoriesOf files).map (fun relative =>
    .directory (PathText.join (FileSystem.pathOf displayBase) relative) relative) ++ files

/-- Names as the rules and the entries show them. -/
def shownPath (names : List String) : String :=
  PathText.ofPieces (names.map DiskName.shown)

/-- The size of a leaf, if the leaf can be asked for it by its path. -/
def sizeAt (fs : FileSystem) (follow : Bool) (path : String) (leaf : Leaf) : Option Nat :=
  match fs.locate follow path with
  | .ok _ => some leaf.size
  | .error _ => none

/-- The files below the base that the rules include. Rules see paths from the base, entries show
them from its parent. -/
def selected (fs : FileSystem) (rules : RuleSet) (follow : Bool) (base : List String)
    (leaves : List Leaf) : List PathEntry :=
  (leaves.filter fun leaf => rules.includes (shownPath leaf.names)).map fun leaf =>
    let path := FileSystem.pathOf (base ++ leaf.names)
    .file path (shownPath (base.drop (base.length - 1) ++ leaf.names)) (sizeAt fs follow path leaf)

def collect (fs : FileSystem) (root : String) (rules : RuleSet) (options : WalkOptions) :
    Except WalkError (List PathEntry) := do
  let base ← base fs root
  let leaves ← leaves fs options base
  return withAncestors base.dropLast (selected fs rules options.followLinks base leaves)

end Walk

end SourceBundle
