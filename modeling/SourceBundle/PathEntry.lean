import SourceBundle.PathText

/-!
# Path entries

A selected file, or a directory on the way to one.
-/

namespace SourceBundle

structure PathEntry where
  /-- The absolute path. -/
  path : String
  /-- The path from the parent of the walked directory, so that it begins with the directory's own
  name. -/
  relative : String
  depth : Nat
  isDir : Bool
  /-- Size in bytes, for files that have told it. -/
  size : Option Nat
  deriving DecidableEq, Repr

namespace PathEntry

/-- The number of names in a relative path. -/
def depthOf (relative : String) : Nat :=
  ((PathText.pieces relative).filter (· != "")).length

def directory (path relative : String) : PathEntry :=
  ⟨path, relative, depthOf relative, true, none⟩

def file (path relative : String) (size : Option Nat) : PathEntry :=
  ⟨path, relative, depthOf relative, false, size⟩

/-- What stands behind the last slash. -/
def name (entry : PathEntry) : String :=
  (PathText.pieces entry.relative).getLast?.getD entry.relative

end PathEntry

end SourceBundle
