import SourceBundle.BundlePlan

/-!
# Command lines

The options of the program, how they are written as arguments or as environment variables, and the
reading of both. What the environment says counts only for options that the arguments leave open.
-/

namespace SourceBundle

inductive CommandOption where
  | dir
  | output
  | stdout
  | filter
  | ignoreFile
  | gitignore
  | noTree
  | noDump
  | outline
  | sizes
  | includeBinary
  | format
  | maxDepth
  | noColor
  | verbose
  | help
  | version
  deriving DecidableEq, Repr

namespace CommandOption

/-- Options written with two dashes and a name. -/
def longNames : List (String × CommandOption) :=
  [("output", output), ("stdout", stdout), ("filter", filter), ("ignore-file", ignoreFile),
   ("gitignore", gitignore), ("no-tree", noTree), ("no-dump", noDump), ("outline", outline),
   ("sizes", sizes), ("include-binary", includeBinary), ("format", format),
   ("max-depth", maxDepth), ("no-color", noColor), ("verbose", verbose), ("help", help),
   ("version", version)]

/-- Options written with one dash and a letter. -/
def shortNames : List (Char × CommandOption) :=
  [('o', output), ('f', filter), ('v', verbose), ('h', help), ('V', version)]

/-- Options that an environment variable can set. -/
def variableNames : List (String × CommandOption) :=
  [("SOURCEPACK_DIR", dir), ("SOURCEPACK_OUTPUT", output), ("SOURCEPACK_STDOUT", stdout),
   ("SOURCEPACK_FILTER", filter), ("SOURCEPACK_IGNORE_FILE", ignoreFile),
   ("SOURCEPACK_GITIGNORE", gitignore), ("SOURCEPACK_NO_TREE", noTree),
   ("SOURCEPACK_NO_DUMP", noDump), ("SOURCEPACK_OUTLINE", outline),
   ("SOURCEPACK_SIZES", sizes), ("SOURCEPACK_INCLUDE_BINARY", includeBinary),
   ("SOURCEPACK_FORMAT", format), ("SOURCEPACK_MAX_DEPTH", maxDepth),
   ("SOURCEPACK_NO_COLOR", noColor)]

/-- Whether a value follows the option. -/
def takesValue : CommandOption → Bool
  | dir | output | filter | ignoreFile | format | maxDepth => true
  | _ => false

end CommandOption

/-- What arguments and environment say; an option that neither names is open. -/
structure CommandSettings where
  dir : Option String := none
  output : Option String := none
  stdout : Option Bool := none
  filters : Option (List String) := none
  ignoreFiles : Option (List String) := none
  gitignore : Option Bool := none
  noTree : Option Bool := none
  noDump : Option Bool := none
  outline : Option Bool := none
  sizes : Option Bool := none
  includeBinary : Option Bool := none
  format : Option OutputFormat := none
  maxDepth : Option Nat := none
  noColor : Option Bool := none
  verbosity : Nat := 0
  deriving DecidableEq, Repr

/-- Why a command line leads to no run. -/
inductive CommandStop where
  | usage
  | help
  | version
  deriving DecidableEq, Repr

namespace CommandSettings

/-- Sets an option that may be given once. -/
def once {α : Type} (current : Option α) (value : Option α) : Except CommandStop (Option α) :=
  match current, value with
  | none, some value => .ok (some value)
  | _, _ => .error .usage

/-- A path has at least one character. -/
def readPath (value : String) : Option String :=
  if value == "" then none else some value

def readFlag (value : String) : Option Bool :=
  match value with
  | "true" => some true
  | "false" => some false
  | _ => none

def readFormat (value : String) : Option OutputFormat :=
  match value with
  | "text" => some .text
  | "json" => some .json
  | _ => none

/-- A number of 64 bits in decimal digits, with or without a plus sign. -/
def readNumber (value : String) : Option Nat :=
  let digits := match value.toList with
    | '+' :: cs => cs
    | cs => cs
  if digits.isEmpty || !digits.all Char.isDigit then none
  else
    let n := digits.foldl (fun n c => 10 * n + (c.toNat - '0'.toNat)) 0
    if n < UInt64.size then some n else none

def readPaths (value : String) : Option (List String) :=
  (splitText ',' value).mapM readPath

/-- Applies one occurrence of an option. Lists grow; everything else may be given once. -/
def set (s : CommandSettings) (option : CommandOption) (value : String) :
    Except CommandStop CommandSettings :=
  match option with
  | .dir => do return { s with dir := ← once s.dir (readPath value) }
  | .output => do return { s with output := ← once s.output (readPath value) }
  | .stdout => do return { s with stdout := ← once s.stdout (readFlag value) }
  | .filter => .ok { s with filters := some (s.filters.getD [] ++ splitText ',' value) }
  | .ignoreFile =>
    match readPaths value with
    | some paths => .ok { s with ignoreFiles := some (s.ignoreFiles.getD [] ++ paths) }
    | none => .error .usage
  | .gitignore => do return { s with gitignore := ← once s.gitignore (readFlag value) }
  | .noTree => do return { s with noTree := ← once s.noTree (readFlag value) }
  | .noDump => do return { s with noDump := ← once s.noDump (readFlag value) }
  | .outline => do return { s with outline := ← once s.outline (readFlag value) }
  | .sizes => do return { s with sizes := ← once s.sizes (readFlag value) }
  | .includeBinary => do return { s with includeBinary := ← once s.includeBinary (readFlag value) }
  | .format => do return { s with format := ← once s.format (readFormat value) }
  | .maxDepth => do return { s with maxDepth := ← once s.maxDepth (readNumber value) }
  | .noColor => do return { s with noColor := ← once s.noColor (readFlag value) }
  | .verbose => .ok { s with verbosity := s.verbosity + 1 }
  | .help => .error .help
  | .version => .error .version

/-- Whether arguments or environment name the option. -/
def names (s : CommandSettings) : CommandOption → Bool
  | .dir => s.dir.isSome
  | .output => s.output.isSome
  | .stdout => s.stdout.isSome
  | .filter => s.filters.isSome
  | .ignoreFile => s.ignoreFiles.isSome
  | .gitignore => s.gitignore.isSome
  | .noTree => s.noTree.isSome
  | .noDump => s.noDump.isSome
  | .outline => s.outline.isSome
  | .sizes => s.sizes.isSome
  | .includeBinary => s.includeBinary.isSome
  | .format => s.format.isSome
  | .maxDepth => s.maxDepth.isSome
  | .noColor => s.noColor.isSome
  | .verbose => s.verbosity != 0
  | .help | .version => false

/-! ## Arguments -/

/-- What one argument says: the settings after it, and the option whose value comes next. -/
abbrev ArgumentStep := Except CommandStop (CommandSettings × Option CommandOption)

/-- The name of a long option and the value behind an equals sign, if there is one. -/
def splitLong (body : List Char) : String × Option String :=
  let name := String.ofList (body.takeWhile (· != '='))
  match body.dropWhile (· != '=') with
  | [] => (name, none)
  | _ :: value => (name, some (String.ofList value))

def readLong (s : CommandSettings) (body : List Char) : ArgumentStep :=
  let (name, value?) := splitLong body
  match CommandOption.longNames.lookup name with
  | none => .error .usage
  | some option =>
    match option.takesValue, value? with
    | true, some value => do return (← s.set option value, none)
    | true, none => .ok (s, some option)
    | false, some _ => .error .usage
    | false, none => do return (← s.set option "true", none)

/-- Reads letters behind one dash. The first option that takes a value takes the rest. -/
def readShort : CommandSettings → List Char → ArgumentStep
  | s, [] => .ok (s, none)
  | s, c :: cs =>
    match CommandOption.shortNames.lookup c with
    | none => .error .usage
    | some option =>
      if option.takesValue then
        match cs with
        | [] => .ok (s, some option)
        | '=' :: value => do return (← s.set option (String.ofList value), none)
        | value => do return (← s.set option (String.ofList value), none)
      else
        match s.set option "true" with
        | .error stop => .error stop
        | .ok s => readShort s cs

/-- Reads arguments one after another. Behind two dashes every argument is a directory. -/
def readArguments : (onlyNames : Bool) → (waiting : Option CommandOption) → CommandSettings →
    List String → Except CommandStop CommandSettings
  | _, none, s, [] => .ok s
  | _, some _, _, [] => .error .usage
  | true, some _, _, _ :: _ => .error .usage
  | true, none, s, arg :: args => do readArguments true none (← s.set .dir arg) args
  | false, waiting, s, arg :: args =>
    match arg.toList, waiting with
    | ['-', '-'], waiting => readArguments true waiting s args
    | '-' :: '-' :: _, some _ => .error .usage
    | '-' :: '-' :: body, none => do
      let (s, waiting) ← readLong s body
      readArguments false waiting s args
    | ['-'], some option => do readArguments false none (← s.set option arg) args
    | ['-'], none => do readArguments false none (← s.set .dir arg) args
    | '-' :: _, some _ => .error .usage
    | '-' :: letters, none => do
      let (s, waiting) ← readShort s letters
      readArguments false waiting s args
    | _, some option => do readArguments false none (← s.set option arg) args
    | _, none => do readArguments false none (← s.set .dir arg) args

/-- Lets the environment set what the arguments leave open. -/
def readEnvironment (environment : String → Option String) (s : CommandSettings) :
    Except CommandStop CommandSettings :=
  CommandOption.variableNames.foldlM (fun read (name, option) =>
    match environment name with
    | some value => if s.names option then .ok read else read.set option value
    | none => .ok read) s

/-- Arguments and environment together. Standard output and an output file exclude each other. -/
def read (arguments : List String) (environment : String → Option String) :
    Except CommandStop CommandSettings := do
  let s ← readEnvironment environment (← readArguments false none {} arguments)
  if s.output.isSome && s.stdout.isSome then .error .usage else .ok s

/-! ## What the settings ask for -/

/-- The plan of the bundle, where the registry is the program's own. -/
def plan (s : CommandSettings) (registry : OutlineRegistry) : BundlePlan where
  root := s.dir.getD "."
  filters := s.filters.getD defaultFilters
  ignoreFiles := s.ignoreFiles.getD []
  gitignore := s.gitignore.getD false
  options :=
    { format := s.format.getD .text
      tree := !s.noTree.getD false
      dump := !s.noDump.getD false
      outline := s.outline.getD false
      skipBinary := !s.includeBinary.getD false
      sizes := s.sizes.getD false }
  walk := { maxDepth := s.maxDepth }
  registry := registry

/-- The file that the document goes to, if it goes to one. -/
def target? (s : CommandSettings) : Option String :=
  if s.stdout.getD false then none
  else some (s.output.getD ("sourcepack." ++ (s.format.getD .text).extension))

end CommandSettings

end SourceBundle
