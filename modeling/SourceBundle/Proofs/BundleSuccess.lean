import SourceBundle.GoOutliner
import SourceBundle.Proofs.BundleStages
import SourceBundle.Proofs.KeptPaths
import SourceBundle.Proofs.SelectedFiles

/-!
# When a bundle is made

Nothing that can lie below a root keeps a bundle from being made, but a link: a walk that follows no
links takes it for a file, and where its contents are wanted it has to lead to one.
-/

namespace SourceBundle

namespace Document

variable {fs : FileSystem} {registry : OutlineRegistry} {options : OutputOptions}
  {entries : List PathEntry} {path : String}

def Reads (registry : OutlineRegistry) (options : OutputOptions) (path : String) : Prop :=
  options.dump = true ∨ options.outline = true ∧ registry.isSupported path = true

theorem exists_load_iff {skipBinary : Bool} :
    (∃ content, Content.load fs path skipBinary = .ok content) ↔
      ∃ bytes, fs.read path = .ok bytes := by
  rw [Content.load]
  cases fs.read path <;> simp

def OutlinesAll (registry : OutlineRegistry) : Prop :=
  ∀ path outliner, registry.outlinerFor? path = some outliner →
    ∀ text, ∃ outline, outliner.outline text path = .ok outline

theorem standard_outlinesAll : OutlinesAll .standard := by
  intro path outliner houtliner text
  obtain ⟨ext, _, hfound⟩ := Option.bind_eq_some_iff.mp houtliner
  obtain ⟨place, _, hplace⟩ := Option.bind_eq_some_iff.mp hfound
  have houtliners : OutlineRegistry.standard.outliners = [goOutliner] := rfl
  rw [houtliners] at hplace
  rw [List.mem_singleton.mp (List.mem_of_getElem? hplace)]
  exact ⟨_, rfl⟩

theorem exists_outlineOf_iff (h : OutlinesAll registry) {entry : PathEntry} :
    (∃ outline, outlineOf? fs registry entry = .ok outline) ↔
      (registry.isSupported entry.path = true → ∃ bytes, fs.read entry.path = .ok bytes) := by
  rw [outlineOf?, OutlineRegistry.isSupported]
  cases houtliner : registry.outlinerFor? entry.path with
  | none => simp
  | some outliner =>
    have hloads : (∃ content, Content.load fs entry.path false = .ok content) ↔
        ∃ bytes, fs.read entry.path = .ok bytes := exists_load_iff
    rw [← hloads]
    simp only [bind_eq_ok_iff, pure_eq_ok_iff, mapError_eq_ok_iff]
    constructor
    · rintro ⟨_, content, hload, _⟩ _
      exact ⟨content, hload⟩
    · intro hload
      obtain ⟨content, hload⟩ := hload rfl
      obtain ⟨outline, houtline⟩ := h entry.path outliner houtliner _
      exact ⟨_, content, hload, outline, houtline, rfl⟩

/-- What cannot be had of a file is what would have to be read and cannot be. -/
theorem hindered_iff (h : OutlinesAll registry) :
    Hindered fs registry options entries ↔
      ∃ entry ∈ files entries,
        Reads registry options entry.path ∧ ¬∃ bytes, fs.read entry.path = .ok bytes := by
  constructor
  · intro hhindered
    cases hhindered with
    | content wanted listed failed =>
      refine ⟨_, listed, .inl wanted, fun hread => ?_⟩
      obtain ⟨content, hload⟩ := exists_load_iff.mpr hread
      rw [hload] at failed
      cases failed
    | @outline entry cause wanted listed failed =>
      have hnone : ¬∃ outline, outlineOf? fs registry entry = .ok outline :=
        fun hsome => exists_ok_iff.mp hsome ⟨cause, failed⟩
      rw [exists_outlineOf_iff h, Classical.not_imp] at hnone
      exact ⟨_, listed, .inr ⟨wanted, hnone.1⟩, hnone.2⟩
  · rintro ⟨entry, listed, hreads, hunread⟩
    rcases hreads with wanted | ⟨wanted, supported⟩
    · rw [← exists_load_iff, exists_ok_iff, not_not] at hunread
      obtain ⟨cause, failed⟩ := hunread
      exact .content wanted listed failed
    · have hnone : ¬∃ outline, outlineOf? fs registry entry = .ok outline :=
        fun hsome => hunread ((exists_outlineOf_iff h).mp hsome supported)
      rw [exists_ok_iff, not_not] at hnone
      obtain ⟨cause, failed⟩ := hnone
      exact .outline wanted listed failed

end Document

namespace BundlePlan

open Walk Document

variable {fs : FileSystem} {plan : BundlePlan} {timestamp : String}

theorem ignore_readable (hp : fs.root.Proper)
    (hreadable : ∀ place bytes, fs.root.get? place = some (.file bytes) →
      ∃ found, fs.read (FileSystem.pathOf place) = .ok found)
    (hfiles : plan.ignoreFiles = []) : ¬IgnoreUnreadable fs plan := by
  rintro ⟨path, hpath, cause, hcause⟩
  rw [ignorePaths, hfiles, List.nil_append] at hpath
  split at hpath
  next hown =>
    rw [List.mem_singleton] at hpath
    rw [Bool.and_eq_true, ← hpath] at hown
    obtain ⟨bytes, hread⟩ := (FileSystem.exists_read_iff hp hreadable).mpr hown.2
    rw [hread] at hcause
    cases hcause
  next => simp at hpath

theorem exists_base
    (hreadable : ∀ place bytes, fs.root.get? place = some (.file bytes) →
      ∃ found, fs.read (FileSystem.pathOf place) = .ok found)
    (hlistable : ∀ place, fs.DirectoryAt place → fs.Listable place)
    {root : String} (hthere : fs.pathExists root = true) :
    ∃ base, Walk.base fs root = .ok base := by
  rw [FileSystem.pathExists, FileSystem.node?] at hthere
  cases hresolve : fs.resolve root with
  | error e => simp [hresolve] at hthere
  | ok found =>
    have hagain : ∃ again, fs.resolve (FileSystem.pathOf found) = .ok again := by
      rcases FileSystem.cases_of_resolve hresolve with ⟨_, _, hdirectory⟩ | ⟨_, bytes, hfile⟩
      · obtain ⟨es, hlist⟩ := hlistable found hdirectory
        obtain ⟨again, hagain, _⟩ := FileSystem.list_eq_ok_iff.mp hlist
        exact ⟨again, hagain⟩
      · obtain ⟨contents, hread⟩ := hreadable found bytes hfile
        obtain ⟨again, hagain, _⟩ := FileSystem.read_eq_ok_iff.mp hread
        exact ⟨again, hagain⟩
    obtain ⟨node, hnode⟩ := FileSystem.exists_of_resolve hresolve
    exact ⟨_, base_eq_ok_iff.mpr
      ⟨found, node, FileSystem.canonicalize_eq_ok_iff.mpr ⟨hresolve, hagain⟩, hnode, rfl⟩⟩

theorem exists_build_iff (hwanted : plan.options.isEmpty = false) {entries : List PathEntry}
    (hentries : plan.entries fs = .ok entries) :
    (∃ text, plan.build fs timestamp = .ok text) ↔
      ¬Hindered fs plan.registry plan.options entries := by
  have hgathers : (∃ document,
      gather fs plan.registry plan.options timestamp entries = .ok document) ↔
        ¬Hindered fs plan.registry plan.options entries := exists_gather_iff
  rw [← hgathers]
  simp only [build_eq_ok_iff, hwanted, true_and, hentries, Except.ok.injEq]
  constructor
  · rintro ⟨text, _, rfl, document, hgather, _⟩
    exact ⟨document, hgather⟩
  · rintro ⟨document, hgather⟩
    exact ⟨_, entries, rfl, document, hgather, rfl⟩

/-- Where all files can be read and all directories listed, a bundle is made exactly if every selected
link whose contents or outline are wanted leads to a file. The root's own ignore file never stands in
the way, and nor does anything else that lies below the root. -/
theorem build_succeeds_iff (hp : fs.root.Proper)
    (hreadable : ∀ place bytes, fs.root.get? place = some (.file bytes) →
      ∃ found, fs.read (FileSystem.pathOf place) = .ok found)
    (hlistable : ∀ place, fs.DirectoryAt place → fs.Listable place)
    (hthere : fs.pathExists plan.root = true) (hwanted : plan.options.isEmpty = false)
    (hfiles : plan.ignoreFiles = []) (hregistry : plan.registry = .standard)
    (hlinks : plan.walk.followLinks = false) :
    ∃ base rules, Walk.base fs plan.root = .ok base ∧ plan.rules fs = .ok rules ∧
      ((∃ text, plan.build fs timestamp = .ok text) ↔
        ∀ names target, Selected fs rules plan.walk.maxDepth base names →
          fs.root.get? (base ++ names) = some (.link target) →
          Reads .standard plan.options (FileSystem.pathOf (base ++ names)) →
          fs.isFile (FileSystem.pathOf (base ++ names)) = true) := by
  obtain ⟨base, hbase⟩ := exists_base hreadable hlistable hthere
  have hplace := directoryAt_of_base hbase
  obtain ⟨_, rules, hrules⟩ := (rules_cases fs plan).resolve_right fun h =>
    ignore_readable hp hreadable hfiles h.1
  obtain ⟨kept, hkept⟩ := exists_kept hp hplace rules plan.walk.maxDepth
  have hcollect := (collect_eq_ok_iff hp hbase).mpr
    ⟨⟨kept, hkept, rfl⟩, fun names henters => hlistable _ henters.there⟩
  have hwalk : plan.walk = ⟨plan.walk.maxDepth, false⟩ := by rw [← hlinks]
  rw [← hwalk] at hcollect
  have hentries := entries_eq_ok_iff.mpr ⟨hthere, rules, hrules, hcollect⟩
  refine ⟨base, rules, hbase, hrules, ?_⟩
  rw [exists_build_iff hwanted hentries, hregistry, hindered_iff standard_outlinesAll,
    files_withAncestors]
  constructor
  · intro hfree names target hselected _ hreads
    obtain ⟨leaf, hleaf, rfl⟩ := (hkept.selected_iff hplace).mp hselected
    rw [← FileSystem.exists_read_iff hp hreadable]
    by_contra hunread
    exact hfree ⟨fileAt fs base leaf, List.mem_map.mpr ⟨leaf, hleaf, rfl⟩, hreads, hunread⟩
  · rintro hlinked ⟨entry, hentry, hreads, hunread⟩
    obtain ⟨leaf, hleaf, rfl⟩ := List.mem_map.mp hentry
    have hselected : Selected fs rules plan.walk.maxDepth base leaf.names :=
      (hkept.selected_iff hplace).mpr ⟨leaf, hleaf, rfl⟩
    refine hunread ?_
    obtain ⟨node, hnode, hnot⟩ := hselected.leaf
    cases node with
    | directory => simp [DiskNode.isDirectory] at hnot
    | file bytes => exact hreadable _ bytes hnode
    | link target =>
      exact (FileSystem.exists_read_iff hp hreadable).mpr
        (hlinked leaf.names target hselected hnode hreads)

def outlinedPlan : BundlePlan :=
  { smallPlan with options := { outline := true }, registry := .standard }

theorem build_small_project_succeeds_iff :
    ∃ base rules, Walk.base .smallProject outlinedPlan.root = .ok base ∧
      outlinedPlan.rules .smallProject = .ok rules ∧
      ((∃ text, outlinedPlan.build .smallProject "now" = .ok text) ↔
        ∀ names target, Selected .smallProject rules outlinedPlan.walk.maxDepth base names →
          FileSystem.smallProject.root.get? (base ++ names) = some (.link target) →
          Reads .standard outlinedPlan.options (FileSystem.pathOf (base ++ names)) →
          FileSystem.smallProject.isFile (FileSystem.pathOf (base ++ names)) = true) :=
  build_succeeds_iff DiskNode.smallProject_proper (fun _ _ => smallProject_readable)
    (fun _ => smallProject_listable) smallProject_walked.1 rfl rfl rfl rfl

/-! ### A link that leads nowhere -/

def danglingProject : FileSystem where
  root := .directory [("p", .directory [("a.txt", .file [104, 105]), ("gone", .link "nowhere")])]

theorem danglingProject_proper : danglingProject.root.Proper := by
  have hp : (DiskNode.directory [("a.txt", .file [104, 105]), ("gone", .link "nowhere")]).Proper :=
    .directory (by decide) (by decide) (by simp [DiskNode.Proper.file, DiskNode.Proper.link])
  exact .directory (by decide) (by decide) (by simpa using hp)

def danglingPlan : BundlePlan where
  root := "/p"
  registry := .standard

theorem danglingProject_read :
    leavesOf danglingProject.root.count danglingProject.root =
        [⟨["p", "a.txt"], 2⟩, ⟨["p", "gone"], 7⟩] ∧
      danglingProject.read (FileSystem.pathOf ["p", "a.txt"]) = .ok [104, 105] ∧
      ∀ place ∈ DiskNode.directoryPlaces danglingProject.root.count danglingProject.root,
        danglingProject.resolve (FileSystem.pathOf place) = .ok place ∧
          danglingProject.refuses .list place = none := by
  decide +kernel

theorem danglingPlan_walked :
    danglingProject.pathExists danglingPlan.root = true ∧
      Walk.base danglingProject danglingPlan.root = .ok ["p"] ∧
      leaves danglingProject danglingPlan.walk ["p"] = .ok [⟨["a.txt"], 2⟩, ⟨["gone"], 7⟩] ∧
      shownPath ["a.txt"] = "a.txt" ∧ shownPath ["gone"] = "gone" := by
  decide +kernel

theorem danglingProject_readable {place : List String} {bytes : List UInt8}
    (h : danglingProject.root.get? place = some (.file bytes)) :
    ∃ found, danglingProject.read (FileSystem.pathOf place) = .ok found := by
  obtain ⟨hleaves, hfile, -⟩ := danglingProject_read
  have hmem := mem_leavesOf_of_leafSize? danglingProject_proper (size_of_file h)
  rw [hleaves] at hmem
  simp only [List.mem_cons, Leaf.mk.injEq, List.not_mem_nil, or_false] at hmem
  rcases hmem with ⟨rfl, _⟩ | ⟨rfl, _⟩
  · exact ⟨_, hfile⟩
  · have hlink : danglingProject.root.get? ["p", "gone"] = some (.link "nowhere") := rfl
    rw [hlink] at h
    cases h

theorem danglingProject_listable {place : List String} (h : danglingProject.DirectoryAt place) :
    danglingProject.Listable place :=
  FileSystem.listable_of_places danglingProject_proper danglingProject_read.2.2 h

set_option maxRecDepth 100000 in
theorem build_danglingPlan :
    danglingPlan.build danglingProject "now" =
      .error (.output (.content "/p/gone" (.os .notFound))) := by
  obtain ⟨hthere, hbase, hleaves, hfile, hlink⟩ := danglingPlan_walked
  have hrules : danglingPlan.rules danglingProject = .ok (RuleSet.compile defaultFilters) := rfl
  have hincluded : ∀ leaf ∈ ([⟨["a.txt"], 2⟩, ⟨["gone"], 7⟩] : List Leaf),
      (RuleSet.compile defaultFilters).includes (shownPath leaf.names) = true := by
    simp only [List.forall_mem_cons, hfile, hlink]
    exact ⟨by cbv, by cbv, List.forall_mem_nil _⟩
  rw [build, if_neg (by decide), entries_of_included rfl hthere hrules hbase hleaves hincluded]
  decide +kernel

/-- It is not so that a bundle is made of every tree whose files can be read. -/
theorem not_every_tree_is_bundled :
    ¬∀ (fs : FileSystem) (plan : BundlePlan) (timestamp : String), fs.root.Proper →
      (∀ place bytes, fs.root.get? place = some (.file bytes) →
        ∃ found, fs.read (FileSystem.pathOf place) = .ok found) →
      (∀ place, fs.DirectoryAt place → fs.Listable place) →
      fs.pathExists plan.root = true → plan.options.isEmpty = false → plan.ignoreFiles = [] →
      plan.registry = .standard → plan.walk.followLinks = false →
      ∃ text, plan.build fs timestamp = .ok text := by
  intro h
  obtain ⟨text, hbuild⟩ := h danglingProject danglingPlan "now" danglingProject_proper
    (fun _ _ => danglingProject_readable) (fun _ => danglingProject_listable) danglingPlan_walked.1
    rfl rfl rfl rfl
  rw [build_danglingPlan] at hbuild
  cases hbuild

end BundlePlan

end SourceBundle
