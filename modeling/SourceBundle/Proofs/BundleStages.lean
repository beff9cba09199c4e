import SourceBundle.Proofs.BundleAgreement
import SourceBundle.Proofs.IgnorePrecedence

/-!
# The stages of a bundle

A bundle is made in stages, each of which can end it: something must be wanted, the root must be
there, the ignore files must be read, the walk must get through, and of every selected file there
must be what is wanted of it.
-/

namespace SourceBundle

namespace Document

variable {fs : FileSystem} {registry : OutlineRegistry} {options : OutputOptions}
  {timestamp : String} {entries : List PathEntry}

/-- Something that is wanted of a file cannot be had. -/
inductive Hindered (fs : FileSystem) (registry : OutlineRegistry) (options : OutputOptions)
    (entries : List PathEntry) : Prop
  | content {entry : PathEntry} {cause : OutputError} (wanted : options.dump = true)
    (listed : entry ∈ files entries)
    (failed : Content.load fs entry.path options.skipBinary = .error cause)
  | outline {entry : PathEntry} {cause : OutputError} (wanted : options.outline = true)
    (listed : entry ∈ files entries) (failed : outlineOf? fs registry entry = .error cause)

theorem exists_optional_iff {ε α : Type} {wanted : Bool} {gather : Except ε α} :
    (∃ section?, optional wanted gather = .ok section?) ↔
      (wanted = true → ∃ found, gather = .ok found) := by
  cases wanted with
  | false => simp [optional]
  | true => cases gather <;> simp [optional, Functor.map, Except.map]

theorem exists_gatherOutlines_iff :
    (∃ outlines, gatherOutlines fs registry entries = .ok outlines) ↔
      ∀ entry ∈ files entries, ∃ outline, outlineOf? fs registry entry = .ok outline := by
  rw [← exists_mapM_ok_iff]
  simp only [gatherOutlines, bind_eq_ok_iff, pure_eq_ok_iff]
  constructor
  · rintro ⟨_, results, hresults, _⟩
    exact ⟨results, hresults⟩
  · rintro ⟨results, hresults⟩
    exact ⟨_, results, hresults, rfl⟩

theorem exists_gatherContents_iff {skipBinary : Bool} :
    (∃ contents, gatherContents fs skipBinary entries = .ok contents) ↔
      ∀ entry ∈ files entries, ∃ content, Content.load fs entry.path skipBinary = .ok content := by
  rw [gatherContents, exists_mapM_ok_iff]
  refine forall₂_congr fun entry _ => ?_
  simp only [bind_eq_ok_iff, pure_eq_ok_iff]
  constructor
  · rintro ⟨_, content, hcontent, _⟩
    exact ⟨content, hcontent⟩
  · rintro ⟨content, hcontent⟩
    exact ⟨_, content, hcontent, rfl⟩

/-- A document is gathered where everything that is wanted of the files can be had. -/
theorem exists_gather_iff :
    (∃ document, gather fs registry options timestamp entries = .ok document) ↔
      ¬Hindered fs registry options entries := by
  have hgather : (∃ document, gather fs registry options timestamp entries = .ok document) ↔
      (∃ outlines, optional options.outline (gatherOutlines fs registry entries) = .ok outlines) ∧
        ∃ contents, optional options.dump (gatherContents fs options.skipBinary entries) =
          .ok contents := by
    simp only [gather_eq_ok_iff]
    constructor
    · rintro ⟨_, outlines, contents, houtlines, hcontents, _⟩
      exact ⟨⟨outlines, houtlines⟩, contents, hcontents⟩
    · rintro ⟨⟨outlines, houtlines⟩, contents, hcontents⟩
      exact ⟨_, outlines, contents, houtlines, hcontents, rfl⟩
  rw [hgather, exists_optional_iff, exists_optional_iff, exists_gatherOutlines_iff,
    exists_gatherContents_iff]
  constructor
  · rintro ⟨houtlines, hcontents⟩ hhindered
    cases hhindered with
    | content wanted listed failed =>
      obtain ⟨content, hload⟩ := hcontents wanted _ listed
      simp [hload] at failed
    | outline wanted listed failed =>
      obtain ⟨outline, houtline⟩ := houtlines wanted _ listed
      simp [houtline] at failed
  · intro hfree
    constructor
    · intro wanted entry listed
      exact exists_ok_iff.mpr fun ⟨cause, failed⟩ => hfree (.outline wanted listed failed)
    · intro wanted entry listed
      exact exists_ok_iff.mpr fun ⟨cause, failed⟩ => hfree (.content wanted listed failed)

end Document

namespace Walk

variable {fs : FileSystem}

end Walk

namespace BundlePlan

variable {fs : FileSystem} {plan : BundlePlan} {timestamp : String}

def IgnoreUnreadable (fs : FileSystem) (plan : BundlePlan) : Prop :=
  ∃ path ∈ plan.ignorePaths fs, ∃ cause, fs.read path = .error cause

theorem rules_cases (fs : FileSystem) (plan : BundlePlan) :
    ¬IgnoreUnreadable fs plan ∧ (∃ rules, plan.rules fs = .ok rules) ∨
      IgnoreUnreadable fs plan ∧ ∃ cause, plan.rules fs = .error (.ignoreFile cause) := by
  by_cases h : IgnoreUnreadable fs plan
  · obtain ⟨cause, hcause, _⟩ := foldlM_addIgnoreFile_error h (RuleSet.compile plan.filters)
    exact .inr ⟨h, cause, hcause⟩
  · have hread : ∀ path ∈ plan.ignorePaths fs, ∃ bytes, fs.read path = .ok bytes :=
      fun path hpath => exists_ok_iff.mpr fun ⟨cause, hcause⟩ => h ⟨path, hpath, cause, hcause⟩
    obtain ⟨contents, hcontents⟩ := exists_mapM_ok_iff.mpr hread
    obtain ⟨rules, hrules, _⟩ :=
      foldlM_addIgnoreFile (mapM_eq_ok_iff.mp hcontents) (RuleSet.compile plan.filters)
    exact .inl ⟨h, rules, hrules⟩

theorem entries_of_included {rules : RuleSet} {base : List String} {found : List Walk.Leaf}
    (hlinks : plan.walk.followLinks = false) (hthere : fs.pathExists plan.root = true)
    (hrules : plan.rules fs = .ok rules) (hbase : Walk.base fs plan.root = .ok base)
    (hleaves : Walk.leaves fs plan.walk base = .ok found)
    (hincluded : ∀ leaf ∈ found, rules.includes (Walk.shownPath leaf.names) = true) :
    plan.entries fs = .ok (Walk.withAncestors base.dropLast (found.map (Walk.fileAt fs base))) := by
  refine entries_eq_ok_iff.mpr ⟨hthere, rules, hrules, ?_⟩
  rw [Walk.collect_eq hbase hleaves, hlinks, Walk.selected, List.filter_eq_self.mpr hincluded]
  rfl

end BundlePlan

end SourceBundle
