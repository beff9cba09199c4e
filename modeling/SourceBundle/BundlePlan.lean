import SourceBundle.Document
import SourceBundle.RuleFile
import SourceBundle.Walk

/-!
# Bundle plans

Everything that decides what a bundle holds: the root, the rules with their ignore files, how far to
walk, and the options of the output.
-/

namespace SourceBundle

/-- Everything but what begins with a dot at the root. -/
def defaultFilters : List String := ["*", "!.*"]

structure BundlePlan where
  root : String
  /-- Rules, later ones winning. -/
  filters : List String := defaultFilters
  /-- Files of rules for what to leave out. -/
  ignoreFiles : List String := []
  /-- Whether the root's own ignore file is used too. -/
  gitignore : Bool := false
  options : OutputOptions := {}
  walk : WalkOptions := {}
  registry : OutlineRegistry

namespace BundlePlan

/-- The directory whose ignore file belongs to a root. -/
def ignoreDirectory (fs : FileSystem) (root : String) : String :=
  if fs.isFile root then (PathText.parent? root).getD root else root

/-- The files that the plan ignores by. -/
def ignorePaths (fs : FileSystem) (plan : BundlePlan) : List String :=
  let own := PathText.join (ignoreDirectory fs plan.root) ".gitignore"
  plan.ignoreFiles ++ (if plan.gitignore && fs.isFile own then [own] else [])

/-- Adds the lines of an ignore file, turned into exclusions, over a set of rules. -/
def addIgnoreFile (fs : FileSystem) (rules : RuleSet) (path : String) :
    Except BundleError RuleSet := do
  let ignored ← (RuleSet.ofFile fs path []).mapError .ignoreFile
  return rules.withHigherPrecedence ignored.negateAll

/-- The rules of the plan. -/
def rules (fs : FileSystem) (plan : BundlePlan) : Except BundleError RuleSet :=
  (ignorePaths fs plan).foldlM (addIgnoreFile fs) (RuleSet.compile plan.filters)

/-- The selected paths. -/
def entries (fs : FileSystem) (plan : BundlePlan) : Except BundleError (List PathEntry) := do
  if fs.pathExists plan.root then
    let rules ← plan.rules fs
    (Walk.collect fs plan.root rules plan.walk).mapError .walk
  else .error (.pathNotFound plan.root)

/-- The text of the bundle. -/
def build (fs : FileSystem) (plan : BundlePlan) (timestamp : String) : Except BundleError String := do
  if plan.options.isEmpty then .error .emptyOutput
  else
    let entries ← plan.entries fs
    (Document.generate fs plan.registry plan.options timestamp entries).mapError .output

end BundlePlan

end SourceBundle
