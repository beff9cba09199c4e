import SourceBundle.Program
import SourceBundle.Proofs.BundleStages
import SourceBundle.Proofs.WrittenFiles

/-!
# How runs end

The exit code of a run tells the first of its stages that did not succeed. A run that fails leaves
every file as it was, and one that succeeds touches no file but the one that its document goes to.
-/

namespace SourceBundle

/-- A console that prints what runs report. It may refuse to print a document. -/
structure Console.Reports (console : Console) : Prop where
  success : ∀ path, console.refuses .output (RunOutcome.successReport path) = none
  failure : ∀ e, console.refuses .error (RunOutcome.errorReport e) = none

namespace CommandSettings

end CommandSettings

namespace RunOutcome

section

variable {nothing missing unreadable fails : Prop} (hwanted : ¬nothing) (hthere : ¬missing)
  (hreadable : ¬unreadable)

include hwanted hthere hreadable

end

section

variable {console : Console} {fs fs' : FileSystem} {registry : OutlineRegistry}
  {timestamp document : String} {s : CommandSettings} {arguments : List String}
  {environment : String → Option String}

section

variable (hreports : console.Reports)

include hreports

end

theorem isEmpty_iff {options : OutputOptions} :
    options.isEmpty = true ↔
      options.tree = false ∧ options.dump = false ∧ options.outline = false := by
  simp [OutputOptions.isEmpty, and_assoc]

section

variable (hreports : console.Reports)
  (hbuild : (s.plan registry).build fs timestamp = .ok document)
  (hwanted : (s.plan registry).options.isEmpty = false)
  (hthere : ¬fs.pathExists (s.plan registry).root = false)
  (hreadable : ¬BundlePlan.IgnoreUnreadable fs (s.plan registry))

include hreports hbuild hwanted hthere hreadable

end

/-- A directory that cannot be listed, and a document that cannot be printed. -/
example :
    (run { root := .directory [("p", .directory [])]
           refuses := fun request _ => if request = .list then some .permissionDenied else none }
        {} "now" ["p"] fun _ => none).exitCode = 1 ∧
      (run { root := .directory [("p", .directory [])] } {} "now" ["p", "--stdout"] (fun _ => none)
        { refuses := fun stream _ =>
            if stream = .output then some (.os .permissionDenied) else none }).exitCode = 1 := by
  decide +kernel

end

/-! ## A small project -/

def smallArguments : List String := ["/home/project", "-f", "*,!go.*", "-o", "/out/bundle.txt"]

def smallSettings : CommandSettings where
  dir := some "/home/project"
  filters := some ["*", "!go.*"]
  output := some "/out/bundle.txt"

theorem smallArguments_settled :
    CommandSettings.read smallArguments (fun _ => none) = .ok smallSettings ∧
      (deliver {} .smallProject (some "/out/bundle.txt") BundlePlan.smallBundle).exitCode = 0 := by
  decide +kernel

theorem read_smallArguments :
    CommandSettings.read smallArguments (fun _ => none) = .ok smallSettings :=
  smallArguments_settled.1

theorem plan_smallSettings : smallSettings.plan {} = BundlePlan.smallPlan := rfl

theorem run_smallArguments :
    run .smallProject {} "now" smallArguments (fun _ => none) =
      deliver {} .smallProject (some "/out/bundle.txt") BundlePlan.smallBundle := by
  rw [run, read_smallArguments]
  dsimp only
  rw [ofSettings, plan_smallSettings, BundlePlan.build_smallPlan]
  rfl

end RunOutcome

end SourceBundle
