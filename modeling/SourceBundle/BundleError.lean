import SourceBundle.IoError
import SourceBundle.PathText

/-!
# What can go wrong with a bundle

The causes for which no bundle is made, each with its message, and the exit codes of the program.
-/

namespace SourceBundle

inductive WalkError where
  | notFound (path : String)
  | permissionDenied (path : String)
  | io (path : String) (cause : IoError)
  deriving DecidableEq, Repr

namespace WalkError

def message : WalkError → String
  | .notFound path => s!"path not found: {PathText.shown path}"
  | .permissionDenied path => s!"permission denied: {PathText.shown path}"
  | .io path cause => s!"IO error at {PathText.shown path}: {cause.message}"

end WalkError

/-- Why an outliner gives no outline. Mistakes in the source text are not among these. -/
inductive OutlineError where
  | unavailable (language : String)
  | parse (path : String) (text : String)
  deriving DecidableEq, Repr

namespace OutlineError

def message : OutlineError → String
  | .unavailable language => s!"failed to initialize {language} parser"
  | .parse path text => s!"parse error in {PathText.shown path}: {text}"

end OutlineError

inductive OutputError where
  | content (path : String) (cause : IoError)
  | outline (cause : OutlineError)
  | write (path : String) (cause : IoError)
  | stdout (cause : IoError)
  deriving DecidableEq, Repr

namespace OutputError

def message : OutputError → String
  | .content path cause => s!"failed to read {PathText.shown path}: {cause.message}"
  | .outline cause => cause.message
  | .write path cause => s!"failed to write {PathText.shown path}: {cause.message}"
  | .stdout cause => s!"failed to write to stdout: {cause.message}"

end OutputError

/-- A file of rules that cannot be read. -/
structure RuleFileError where
  path : String
  cause : IoError
  deriving DecidableEq, Repr

namespace RuleFileError

def message (e : RuleFileError) : String :=
  s!"failed to read pattern file {PathText.shown e.path}: {e.cause.message}"

end RuleFileError

inductive BundleError where
  | emptyOutput
  | pathNotFound (path : String)
  | ignoreFile (cause : RuleFileError)
  | walk (cause : WalkError)
  | output (cause : OutputError)
  deriving DecidableEq, Repr

namespace BundleError

def message : BundleError → String
  | .emptyOutput => "An empty output is not allowed (no dump, no tree, and no outline)."
  | .pathNotFound path => s!"path not found: {PathText.shown path}"
  | .ignoreFile cause => s!"cannot load ignore file: {cause.message}"
  | .walk cause => s!"walk error: {cause.message}"
  | .output cause => s!"output error: {cause.message}"

def exitCode : BundleError → Nat
  | .emptyOutput => 2
  | .pathNotFound _ => 3
  | .walk (.notFound _) => 3
  | .ignoreFile _ => 4
  | .walk _ => 1
  | .output _ => 1

end BundleError

end SourceBundle
