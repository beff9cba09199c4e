import SourceBundle.CommandLine

/-!
# Runs of the program

One run, from its arguments and the file system it finds to what it prints and leaves behind.
-/

namespace SourceBundle

/-- Where a run prints to. -/
inductive Stream where
  | output
  | error
  deriving DecidableEq, Repr

structure Console where
  /-- Why a text cannot be printed. -/
  refuses : Stream → String → Option IoError := fun _ _ => none

/-- What a run shows and leaves. -/
structure RunOutcome where
  exitCode : Nat
  stdout : String
  /-- The message of the error that ended the run. -/
  error : Option String := none
  /-- Whether the command line was refused. -/
  refused : Bool := false
  fileSystem : FileSystem

namespace RunOutcome

def programVersion : String := "sourcepack 0.1.0\n"

def helpText : String :=
  "Pack a source tree into a single document: file tree, outlines and contents\n\n" ++
    "Usage: sourcepack [OPTIONS] [DIR]\n"

/-- The exit code of a run that cannot tell how it has ended. -/
def speechlessCode : Nat := 101

def successReport (path : String) : String :=
  s!"Successfully generated output to: {PathText.shown path}\n"

def errorReport (e : BundleError) : String :=
  s!"error: {e.message}\n"

/-- Ends a run with a report, which has to be printed. -/
def reporting (console : Console) (stream : Stream) (report : String) (out : RunOutcome) :
    RunOutcome :=
  match console.refuses stream report with
  | none => out
  | some _ => { exitCode := speechlessCode, stdout := "", fileSystem := out.fileSystem }

/-- A run that ends with a text. It does not matter whether that is printed. -/
def telling (console : Console) (fs : FileSystem) (text : String) : RunOutcome :=
  { exitCode := 0
    stdout := if (console.refuses .output text).isNone then text else ""
    fileSystem := fs }

/-- A command line that leads to no run. -/
def ofStop (console : Console) (fs : FileSystem) : CommandStop → RunOutcome
  | .usage => { exitCode := 2, stdout := "", refused := true, fileSystem := fs }
  | .help => telling console fs helpText
  | .version => telling console fs programVersion

def ofError (console : Console) (fs : FileSystem) (e : BundleError) : RunOutcome :=
  reporting console .error (errorReport e)
    { exitCode := e.exitCode, stdout := "", error := some e.message, fileSystem := fs }

/-- Sends a finished document where the settings ask. -/
def deliver (console : Console) (fs : FileSystem) (target : Option String) (document : String) :
    RunOutcome :=
  match target with
  | none =>
    match console.refuses .output document with
    | none => { exitCode := 0, stdout := document, fileSystem := fs }
    | some cause => ofError console fs (.output (.stdout cause))
  | some path =>
    match Document.writeTo fs path document with
    | (fs, .ok ()) =>
      reporting console .output (successReport path)
        { exitCode := 0, stdout := successReport path, fileSystem := fs }
    | (fs, .error e) => ofError console fs (.output e)

/-- The run that the settings ask for. -/
def ofSettings (console : Console) (fs : FileSystem) (registry : OutlineRegistry)
    (timestamp : String) (s : CommandSettings) : RunOutcome :=
  match (s.plan registry).build fs timestamp with
  | .error e => ofError console fs e
  | .ok document => deliver console fs s.target? document

def run (fs : FileSystem) (registry : OutlineRegistry) (timestamp : String)
    (arguments : List String) (environment : String → Option String) (console : Console := {}) :
    RunOutcome :=
  match CommandSettings.read arguments environment with
  | .error stop => ofStop console fs stop
  | .ok s => ofSettings console fs registry timestamp s

end RunOutcome

end SourceBundle
