import SourceBundle.BundleError
import SourceBundle.FileSystem
import SourceBundle.RuleSet
import SourceBundle.Utf8

/-!
# Rule files

A rule file is read as text, whatever its bytes, and split at line feeds. Further lines may follow
it and are numbered after its own.
-/

namespace SourceBundle.RuleSet

/-- The lines of a rule file. A line feed at the end makes one more line, an empty one. -/
def linesOfBytes (bytes : List UInt8) : List String :=
  (splitAtEach '\n' (Utf8.decode bytes)).map String.ofList

def ofBytes (bytes : List UInt8) (further : List String) : RuleSet :=
  let lines := linesOfBytes bytes
  ⟨rulesFrom 1 lines ++ rulesFrom (lines.length + 1) further⟩

def ofFile (fs : FileSystem) (path : String) (further : List String) :
    Except RuleFileError RuleSet :=
  match fs.read path with
  | .ok bytes => .ok (ofBytes bytes further)
  | .error cause => .error ⟨path, cause⟩

end SourceBundle.RuleSet
