import SourceBundle.IoError
import SourceBundle.PathText

/-!
# File systems

A tree of directories, files and symbolic links, with the rules by which a path is followed through
it. A place in the tree is the list of names that leads to it from the root directory. `locate`
follows a path; listing, reading, writing and the making of directories are stated on the places it
finds. Each of them can be refused, for want of permission or of space or for any other cause.
-/

namespace SourceBundle

inductive DiskNode where
  | file (bytes : List UInt8)
  | link (target : String)
  | directory (entries : List (String × DiskNode))
  deriving Inhabited

namespace DiskNode

def isDirectory : DiskNode → Bool
  | .directory _ => true
  | _ => false

def isFile : DiskNode → Bool
  | .file _ => true
  | _ => false

/-- The entries of a directory; nothing else has any. -/
def entries : DiskNode → List (String × DiskNode)
  | .directory es => es
  | _ => []

def child? (node : DiskNode) (name : String) : Option DiskNode :=
  node.entries.lookup name

/-- The node at a place below this one. -/
def get? : DiskNode → List String → Option DiskNode
  | node, [] => some node
  | node, name :: names => (node.child? name).bind fun child => child.get? names

/-- Gives an entry of that name a new node, or adds one. -/
def setEntry (name : String) (node : DiskNode) :
    List (String × DiskNode) → List (String × DiskNode)
  | [] => [(name, node)]
  | (other, old) :: es =>
    if other == name then (name, node) :: es else (other, old) :: setEntry name node es

/-- Puts a node at a place, with directories on the way to it. -/
def set : DiskNode → List String → DiskNode → DiskNode
  | _, [], node => node
  | tree, name :: names, node =>
    .directory (setEntry name (((tree.child? name).getD (.directory [])).set names node)
      tree.entries)

mutual

/-- The number of nodes in the tree. -/
def count : DiskNode → Nat
  | .file _ | .link _ => 1
  | .directory es => 1 + countEntries es
termination_by structural node => node

def countEntries : List (String × DiskNode) → Nat
  | [] => 0
  | (_, node) :: es => node.count + countEntries es
termination_by structural es => es

end

end DiskNode

/-- Where a path leads. -/
inductive Location where
  /-- Something is there. -/
  | found (place : List String)
  /-- Nothing is there, but the directory that would hold it is. -/
  | absent (directory : List String) (name : String)
  deriving DecidableEq, Repr

namespace Location

def place : Location → List String
  | .found place => place
  | .absent directory name => directory ++ [name]

end Location

/-- What the system is asked to do at a place. -/
inductive Request where
  /-- To look for a name in a directory. -/
  | search
  /-- To name the entries of a directory. -/
  | list
  /-- To read a file. -/
  | read
  /-- To make what is not there, or to give a file new contents. -/
  | write
  deriving DecidableEq, Repr

structure FileSystem where
  root : DiskNode
  /-- The place that relative paths start from. -/
  workingDirectory : List String := []
  /-- Why the system does not do what is asked at a place. -/
  refuses : Request → List String → Option OsError := fun _ _ => none
  deriving Inhabited

namespace FileSystem

/-! ## Following paths -/

/-- How far the names of a path lead without passing through a link. -/
inductive Hop where
  | arrived (location : Location)
  | throughLink (place : List String) (target : String) (rest : List String)
  deriving Repr

/-- The longest name of an entry, in bytes. -/
def maxNameSize : Nat := 255

/-- A path has fewer bytes than this. -/
def maxPathSize : Nat := 4096

/-- Why a name cannot be looked for in a directory. An empty name asks for nothing. -/
def barred (fs : FileSystem) (place : List String) (name : String) : Option OsError :=
  if name == "" then none else fs.refuses .search place

/-- Follows names from a place up to the first link. The last name is followed through a link only
where `followLast` says so. -/
def hop (fs : FileSystem) (followLast : Bool) :
    List String → List String → Except OsError Hop
  | place, [] => .ok (.arrived (.found place))
  | place, name :: rest =>
    match fs.root.get? place with
    | some (.directory es) =>
      match fs.barred place name with
      | some e => .error e
      | none =>
        if PathText.isTrivial name then hop fs followLast place rest
        else if name == ".." then hop fs followLast place.dropLast rest
        else if maxNameSize < (DiskName.bytes name).length then .error .nameTooLong
        else
          match es.lookup name with
          | none => if rest.isEmpty then .ok (.arrived (.absent place name)) else .error .notFound
          | some (.link target) =>
            if rest.isEmpty && !followLast then .ok (.arrived (.found (place ++ [name])))
            else .ok (.throughLink place target rest)
          | some _ => hop fs followLast (place ++ [name]) rest
    | _ => .error .notDirectory

/-- Follows names from a place through at most `links` links. -/
def locateFrom (fs : FileSystem) (followLast : Bool) :
    Nat → List String → List String → Except OsError Location
  | links, place, names => do
    match ← hop fs followLast place names with
    | .arrived location => .ok location
    | .throughLink place target rest =>
      match links with
      | 0 => .error .tooManyLinks
      | links + 1 =>
        locateFrom fs followLast links (if PathText.isAbsolute target then [] else place)
          (PathText.pieces target ++ rest)

/-- The number of links that one path may pass through. -/
def maxLinks : Nat := 40

/-- Follows the pieces of a path. -/
def locatePieces (fs : FileSystem) (followLast : Bool) (absolute : Bool) (pieces : List String) :
    Except OsError Location :=
  locateFrom fs followLast maxLinks (if absolute then [] else fs.workingDirectory) pieces

/-- Refuses a path that no file system takes. -/
def checkPath (path : String) : Except IoError Unit :=
  if (PathText.bytes path).contains 0 then .error .nulInPath
  else if path == "" then .error (.os .notFound)
  else if maxPathSize ≤ (PathText.bytes path).length then .error (.os .nameTooLong)
  else .ok ()

def locate (fs : FileSystem) (followLast : Bool) (path : String) : Except IoError Location := do
  checkPath path
  (fs.locatePieces followLast (PathText.isAbsolute path) (PathText.pieces path)).mapError .os

/-- The place of what a path names, through all links. -/
def resolve (fs : FileSystem) (path : String) : Except IoError (List String) := do
  match ← fs.locate true path with
  | .found place => .ok place
  | .absent _ _ => .error (.os .notFound)

/-- What a path names, through all links. -/
def node? (fs : FileSystem) (path : String) : Option DiskNode :=
  match fs.resolve path with
  | .ok place => fs.root.get? place
  | .error _ => none

/-- The absolute path of a place. -/
def pathOf (place : List String) : String :=
  "/" ++ PathText.ofPieces place

/-- The place of what a path names, if the place can also be reached by its own absolute path. -/
def canonicalize (fs : FileSystem) (path : String) : Except IoError (List String) := do
  let place ← fs.resolve path
  let _ ← fs.resolve (pathOf place)
  return place

/-! ## Asking and reading -/

def pathExists (fs : FileSystem) (path : String) : Bool :=
  (fs.node? path).isSome

def isDirectory (fs : FileSystem) (path : String) : Bool :=
  (fs.node? path).any (·.isDirectory)

def isFile (fs : FileSystem) (path : String) : Bool :=
  (fs.node? path).any (·.isFile)

/-- Goes on where the system does what is asked at a place. -/
def allow (fs : FileSystem) (request : Request) (place : List String) : Except IoError Unit :=
  match fs.refuses request place with
  | some e => .error (.os e)
  | none => .ok ()

/-- The entries of the directory that a path names. -/
def list (fs : FileSystem) (path : String) : Except IoError (List (String × DiskNode)) := do
  let place ← fs.resolve path
  match fs.root.get? place with
  | some (.directory es) =>
    fs.allow .list place
    return es
  | _ => .error (.os .notDirectory)

/-- The bytes of the file that a path names. -/
def read (fs : FileSystem) (path : String) : Except IoError (List UInt8) := do
  let place ← fs.resolve path
  fs.allow .read place
  match fs.root.get? place with
  | some (.file bytes) => .ok bytes
  | some (.directory _) => .error (.os .isDirectory)
  | _ => .error (.os .notFound)

/-! ## Writing -/

/-- Puts a node at a place. -/
def put (fs : FileSystem) (place : List String) (node : DiskNode) : FileSystem :=
  { fs with root := fs.root.set place node }

/-- The refusal of a path that cannot name a file, because it ends in a slash or in dots: whatever is
wrong on the way to its end comes first. -/
def refuseDirectoryPath (fs : FileSystem) (path : String) : IoError :=
  let pieces := PathText.pieces path
  let way :=
    if pieces.getLast? == some "" then ((pieces.reverse.dropWhile (· == "")).drop 1).reverse
    else pieces.dropLast
  match fs.locatePieces true (PathText.isAbsolute path) (way ++ ["."]) with
  | .error e => .os e
  | .ok _ => .os .isDirectory

/-- Gives the file that a path names new contents, and makes it where there is none. -/
def write (fs : FileSystem) (path : String) (bytes : List UInt8) : Except IoError FileSystem := do
  checkPath path
  if ["", ".", ".."].contains ((PathText.pieces path).getLast?.getD "") then
    .error (fs.refuseDirectoryPath path)
  let location ← fs.locate true path
  if (fs.root.get? location.place).any (·.isDirectory) then .error (.os .isDirectory)
  fs.allow .write location.place
  return fs.put location.place (.file bytes)

/-- Makes one directory in a directory that is there. -/
def makeDirectory (fs : FileSystem) (path : String) : Except IoError FileSystem := do
  match ← fs.locate false path with
  | .found _ => .error (.os .alreadyExists)
  | .absent directory name =>
    fs.allow .write (directory ++ [name])
    return fs.put (directory ++ [name]) (.directory [])

/-- A directory that is already there is as good as one just made. -/
def ensureDirectory (fs : FileSystem) (path : String) : Except IoError FileSystem :=
  match fs.makeDirectory path with
  | .error e => if fs.isDirectory path then .ok fs else .error e
  | made => made

/-- Makes a directory and those on the way to it. Directories made before something went wrong stay.
`fuel` bounds the number of steps of the path. -/
def ensureDirectories : Nat → FileSystem → String → FileSystem × Except IoError Unit
  | 0, fs, _ => (fs, .ok ())
  | fuel + 1, fs, path =>
    if path == "" then (fs, .ok ())
    else
      match fs.ensureDirectory path with
      | .ok made => (made, .ok ())
      | .error cause =>
        match cause == .os .notFound, PathText.parent? path with
        | true, some parent =>
          match ensureDirectories fuel fs parent with
          | (fs, .error cause) => (fs, .error cause)
          | (fs, .ok ()) =>
            match fs.ensureDirectory path with
            | .ok made => (made, .ok ())
            | .error cause => (fs, .error cause)
        | _, _ => (fs, .error cause)

/-- Makes the directories that are to hold what a path names. -/
def ensureParents (fs : FileSystem) (path : String) : FileSystem × Except IoError Unit :=
  match PathText.parent? path with
  | none => (fs, .ok ())
  | some parent => ensureDirectories (PathText.pieces path).length fs parent

end FileSystem

end SourceBundle
