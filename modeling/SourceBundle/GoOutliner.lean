import SourceBundle.GoDiagnosis
import SourceBundle.GoSymbols
import SourceBundle.OutlineRegistry

/-!
# The outliner for Go
-/

namespace SourceBundle

/-- The outline of a Go source: its symbols if it is well formed, and its mistakes if not. -/
def goOutline (source path : String) : Outline :=
  match Go.File.read? source.toList with
  | some file => { path, symbols := file.symbols }
  | none => { path, errors := Go.diagnosis source.toList path }

def goOutliner : Outliner := ⟨[".go"], fun source path => .ok (goOutline source path)⟩

def OutlineRegistry.standard : OutlineRegistry := ({} : OutlineRegistry).register goOutliner

end SourceBundle
