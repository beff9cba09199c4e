import SourceBundle.Proofs.RunOutcomes
import SourceBundle.Proofs.SelectedFiles

/-!
# Running again

A run that has written its document can be repeated, and writes the same document with the new time,
as long as the file that it writes is no part of what it takes in.
-/

namespace SourceBundle

open FileSystem

variable {fs fs' : FileSystem} {path : String} {spot : List String} {bytes : List UInt8}

theorem DiskNode.Spared.leafSize?_eq {root root' : DiskNode} {place : List String}
    (h : root.Spared root' place) :
    (root'.get? place).bind DiskNode.leafSize? = (root.get? place).bind DiskNode.leafSize? := by
  have hbare : ∀ there : Option DiskNode,
      (there.map DiskNode.bare).bind DiskNode.leafSize? = there.bind DiskNode.leafSize? := by
    intro there
    cases there with
    | none => rfl
    | some node => cases node <;> rfl
  rw [← hbare (root'.get? place), ← hbare (root.get? place)]
  rcases h with h | ⟨hnone, h⟩
  · rw [h]
  · rw [h, hnone]
    rfl

theorem FileSystem.Written.read_kept {target : String} {written : List UInt8}
    (h : fs.Written fs' target spot written) (hread : fs.read path = .ok bytes)
    (hspot : fs'.resolve path ≠ .ok spot) : fs'.read path = .ok bytes := by
  obtain ⟨place, hresolve, hgranted, hfile⟩ := read_eq_ok_iff.mp hread
  have hresolve' := h.keeps.resolve hresolve
  have hplace : place ≠ spot := by
    rintro rfl
    exact hspot hresolve'
  exact read_eq_ok_iff.mpr
    ⟨place, hresolve', h.refuses ▸ hgranted, ((h.elsewhere place hplace).file_iff bytes).mpr hfile⟩

namespace Document

variable {registry : OutlineRegistry} {options : OutputOptions} {timestamp : String}
  {entries : List PathEntry} {document : Document}

theorem load_kept {skipBinary : Bool} {content : Content}
    (hread : ∀ bytes, fs.read path = .ok bytes → fs'.read path = .ok bytes)
    (hload : Content.load fs path skipBinary = .ok content) :
    Content.load fs' path skipBinary = .ok content := by
  rw [Content.load] at hload ⊢
  cases hfile : fs.read path with
  | error cause => simp [hfile] at hload
  | ok bytes =>
    rw [hfile] at hload
    rw [hread bytes hfile]
    exact hload

theorem outlineOf?_kept {entry : PathEntry} {outline : Option (String × Outline)}
    (hread : ∀ bytes, fs.read entry.path = .ok bytes → fs'.read entry.path = .ok bytes)
    (houtline : outlineOf? fs registry entry = .ok outline) :
    outlineOf? fs' registry entry = .ok outline := by
  rw [outlineOf?] at houtline ⊢
  split at houtline
  next => exact houtline
  next outliner _ =>
    obtain ⟨content, hload, hrest⟩ := bind_eq_ok_iff.mp houtline
    exact bind_eq_ok_iff.mpr ⟨content, load_kept hread hload, hrest⟩

/-- Where the files read as before, the document is the same but for its time. -/
theorem gather_kept
    (hread : ∀ entry ∈ files entries, ∀ bytes,
      fs.read entry.path = .ok bytes → fs'.read entry.path = .ok bytes)
    (hgather : gather fs registry options timestamp entries = .ok document) (timestamp' : String) :
    gather fs' registry options timestamp' entries =
      .ok { document with timestamp := timestamp' } := by
  obtain ⟨outlines, contents, houtlines, hcontents, rfl⟩ := gather_eq_ok_iff.mp hgather
  refine gather_eq_ok_iff.mpr ⟨outlines, contents, ?_, ?_, rfl⟩
  · rw [optional_eq_ok_iff] at houtlines ⊢
    split at houtlines
    next wanted =>
      obtain ⟨found, hfound, rfl⟩ := houtlines
      rw [if_pos wanted]
      refine ⟨found, ?_, rfl⟩
      obtain ⟨results, hresults, hfilter⟩ := bind_eq_ok_iff.mp hfound
      refine bind_eq_ok_iff.mpr ⟨results, mapM_ok_imp hresults ?_, hfilter⟩
      exact fun entry hentry _ houtline => outlineOf?_kept (hread entry hentry) houtline
    next wanted => rwa [if_neg wanted]
  · rw [optional_eq_ok_iff] at hcontents ⊢
    split at hcontents
    next wanted =>
      obtain ⟨found, hfound, rfl⟩ := hcontents
      rw [if_pos wanted]
      refine ⟨found, mapM_ok_imp hfound ?_, rfl⟩
      intro entry hentry result hresult
      obtain ⟨content, hload, hrest⟩ := bind_eq_ok_iff.mp hresult
      exact bind_eq_ok_iff.mpr ⟨content, load_kept (hread entry hentry) hload, hrest⟩
    next wanted => rwa [if_neg wanted]

end Document

namespace BundlePlan

open Walk

variable {plan : BundlePlan} {target timestamp text : String} {rules : RuleSet}
  {base : List String} {written : List UInt8}

/-- The plan takes in what is at the place: as an ignore file, as a file that it lists, or as what
such a file leads to. -/
inductive Takes (fs : FileSystem) (plan : BundlePlan) (place : List String) : Prop
  | ignoreFile {path : String} (named : path ∈ plan.ignorePaths fs)
    (leads : fs.resolve path = .ok place)
  | listed {base : List String} {rules : RuleSet} {names : List String}
    (based : Walk.base fs plan.root = .ok base) (ruled : plan.rules fs = .ok rules)
    (selected : Selected fs rules plan.walk.maxDepth base names) (there : base ++ names = place)
  | followed {base : List String} {rules : RuleSet} {names : List String}
    (based : Walk.base fs plan.root = .ok base) (ruled : plan.rules fs = .ok rules)
    (selected : Selected fs rules plan.walk.maxDepth base names)
    (leads : fs.resolve (pathOf (base ++ names)) = .ok place)

theorem addIgnoreFile_kept (h : fs'.read path = fs.read path) (set : RuleSet) :
    addIgnoreFile fs' set path = addIgnoreFile fs set path := by
  rw [addIgnoreFile, addIgnoreFile, RuleSet.ofFile, RuleSet.ofFile, h]

theorem foldlM_addIgnoreFile_kept {paths : List String}
    (h : ∀ path ∈ paths, fs'.read path = fs.read path) (set : RuleSet) :
    paths.foldlM (addIgnoreFile fs') set = paths.foldlM (addIgnoreFile fs) set := by
  induction paths generalizing set with
  | nil => rfl
  | cons path paths ih =>
    obtain ⟨hpath, hrest⟩ := List.forall_mem_cons.mp h
    simp only [List.foldlM_cons, addIgnoreFile_kept hpath, ih hrest]

theorem rules_kept (hwritten : fs.Written fs' target spot written) (hfree : ¬plan.Takes fs' spot)
    (hown : plan.ignorePaths fs' = plan.ignorePaths fs) (hrules : plan.rules fs = .ok rules) :
    plan.rules fs' = .ok rules := by
  rw [BundlePlan.rules, hown, ← hrules]
  refine foldlM_addIgnoreFile_kept (fun path hpath => ?_) _
  obtain ⟨hreadable, _⟩ | ⟨_, cause, hcause⟩ := rules_cases fs plan
  · obtain ⟨bytes, hread⟩ := exists_ok_iff.mpr fun ⟨cause, hcause⟩ =>
      hreadable ⟨path, hpath, cause, hcause⟩
    have hnamed : path ∈ plan.ignorePaths fs' := by rwa [hown]
    have hspot : fs'.resolve path ≠ .ok spot := fun hleads => hfree (.ignoreFile hnamed hleads)
    rw [hread, hwritten.read_kept hread hspot]
  · rw [hcause] at hrules
    cases hrules

theorem base_kept (hkeeps : fs.Keeps fs') {root : String} (hbase : Walk.base fs root = .ok base) :
    Walk.base fs' root = .ok base := by
  obtain ⟨found, node, hcanonical, hnode, hplace⟩ := base_eq_ok_iff.mp hbase
  obtain ⟨hresolve, again, hagain⟩ := canonicalize_eq_ok_iff.mp hcanonical
  obtain ⟨node', hnode', halike⟩ := hkeeps.root.kept found node hnode
  refine base_eq_ok_iff.mpr ⟨found, node', ?_, hnode', by rw [halike.isDirectory_eq, hplace]⟩
  exact canonicalize_eq_ok_iff.mpr ⟨hkeeps.resolve hresolve, again, hkeeps.resolve hagain⟩

theorem listable_kept {place : List String} (hkeeps : fs.Keeps fs') (h : fs.Listable place) :
    fs'.Listable place := by
  obtain ⟨there, hresolve, ⟨es, hes⟩, hgranted⟩ := listable_iff_resolve.mp h
  exact listable_iff_resolve.mpr
    ⟨there, hkeeps.resolve hresolve, hkeeps.root.directory hes, hkeeps.refuses ▸ hgranted⟩

theorem kept_eq (hwritten : fs.Written fs' target spot written)
    (hfree : ∀ names, Selected fs' rules plan.walk.maxDepth base names → base ++ names ≠ spot)
    (hplace : fs.DirectoryAt base) {kept kept' : List Leaf}
    (hkept : Kept fs rules plan.walk.maxDepth base kept)
    (hkept' : Kept fs' rules plan.walk.maxDepth base kept') : kept' = kept := by
  obtain ⟨es, hes⟩ := hplace
  have hplace' : fs'.DirectoryAt base := hwritten.keeps.root.directory hes
  refine eq_of_mem_iff hkept'.ordered hkept.ordered fun leaf => ?_
  by_cases hspot : base ++ leaf.names = spot
  · have hunlisted' : leaf ∉ kept' := fun hmem =>
      hfree leaf.names ((hkept'.selected_iff hplace').mpr ⟨leaf, hmem, rfl⟩) hspot
    have hunlisted : leaf ∉ kept := by
      intro hmem
      have hselected := (hkept.selected_iff ⟨es, hes⟩).mpr ⟨leaf, hmem, rfl⟩
      have hleaf : LeafAt fs' (base ++ leaf.names) := ⟨_, hspot ▸ hwritten.there, rfl⟩
      exact hfree leaf.names { hselected with leaf := hleaf } hspot
    simp [hunlisted, hunlisted']
  · rw [hkept.mem_iff, hkept'.mem_iff, (hwritten.elsewhere _ hspot).leafSize?_eq]

theorem fileAt_kept {leaf : Leaf} (hp : fs.root.Proper) (hkeeps : fs.Keeps fs')
    (h : Selected fs rules plan.walk.maxDepth base leaf.names) :
    fileAt fs' base leaf = fileAt fs base leaf := by
  obtain ⟨node, hnode, _⟩ := h.leaf
  obtain ⟨node', hnode', _⟩ := hkeeps.root.kept _ node hnode
  have hne : base ++ leaf.names ≠ [] := List.append_ne_nil_of_right_ne_nil base h.below
  rw [fileAt, fileAt, sizeAt, sizeAt, locate_pathOf_eq hp hkeeps.refuses hne hnode hnode']

theorem entries_kept {entries : List PathEntry} (hp : fs.root.Proper)
    (hlinks : plan.walk.followLinks = false) (hwritten : fs.Written fs' target spot written)
    (hfree : ¬plan.Takes fs' spot) (hown : plan.ignorePaths fs' = plan.ignorePaths fs)
    (hmade : ∀ place, fs'.DirectoryAt place → ¬fs.DirectoryAt place → fs'.Listable place)
    (hentries : plan.entries fs = .ok entries) :
    plan.entries fs' = .ok entries ∧ ∀ entry ∈ Document.files entries, ∀ bytes,
      fs.read entry.path = .ok bytes → fs'.read entry.path = .ok bytes := by
  obtain ⟨hthere, rules, hrules, hcollect⟩ := entries_eq_ok_iff.mp hentries
  have hwalk : plan.walk = ⟨plan.walk.maxDepth, false⟩ := by rw [← hlinks]
  rw [hwalk] at hcollect
  obtain ⟨base, _, hbase, _⟩ := exists_of_collect hcollect
  obtain ⟨⟨kept, hkept, rfl⟩, hlistable⟩ := (collect_eq_ok_iff hp hbase).mp hcollect
  have hplace := directoryAt_of_base hbase
  have hrules' := rules_kept hwritten hfree hown hrules
  have hbase' := base_kept hwritten.keeps hbase
  have hplace' := directoryAt_of_base hbase'
  obtain ⟨kept', hkept'⟩ := exists_kept (hwritten.proper hp) hplace' rules plan.walk.maxDepth
  obtain rfl : kept' = kept := kept_eq hwritten
    (fun names hselected hspot => hfree (.listed hbase' hrules' hselected hspot)) hplace hkept
    hkept'
  have hfiles : kept'.map (fileAt fs base) = kept'.map (fileAt fs' base) := by
    refine List.map_congr_left fun leaf hleaf => ?_
    exact (fileAt_kept hp hwritten.keeps ((hkept.selected_iff hplace).mpr ⟨leaf, hleaf, rfl⟩)).symm
  have hlistable' : ∀ names, Enters fs' plan.walk.maxDepth base names →
      fs'.Listable (base ++ names) := by
    intro names henters
    by_cases hthere : fs.DirectoryAt (base ++ names)
    · exact listable_kept hwritten.keeps (hlistable names ⟨hthere, henters.allowed⟩)
    · exact hmade _ henters.there hthere
  rw [hfiles]
  refine ⟨entries_eq_ok_iff.mpr ⟨?_, rules, hrules', ?_⟩, fun entry hentry bytes hread => ?_⟩
  · obtain ⟨node, hnode⟩ := Option.isSome_iff_exists.mp hthere
    obtain ⟨node', hnode', _⟩ := hwritten.keeps.node? hnode
    simp [pathExists, hnode']
  · rw [hwalk]
    exact (collect_eq_ok_iff (hwritten.proper hp) hbase').mpr ⟨⟨kept', hkept', rfl⟩, hlistable'⟩
  · rw [files_withAncestors] at hentry
    obtain ⟨leaf, hleaf, rfl⟩ := List.mem_map.mp hentry
    have hselected := (hkept'.selected_iff hplace').mpr ⟨leaf, hleaf, rfl⟩
    exact hwritten.read_kept hread fun hleads =>
      hfree (.followed hbase' hrules' hselected hleads)

/-- A bundle that has been written to a file that is not taken in is made again with the new time. -/
theorem build_kept (hp : fs.root.Proper) (hlinks : plan.walk.followLinks = false)
    (hwritten : fs.Written fs' target spot written) (hfree : ¬plan.Takes fs' spot)
    (hown : plan.ignorePaths fs' = plan.ignorePaths fs)
    (hmade : ∀ place, fs'.DirectoryAt place → ¬fs.DirectoryAt place → fs'.Listable place)
    (hbuild : plan.build fs timestamp = .ok text) :
    ∃ document : Document,
      text = { document with timestamp := timestamp }.render plan.options.format ∧
      ∀ timestamp', plan.build fs' timestamp' =
        .ok ({ document with timestamp := timestamp' }.render plan.options.format) := by
  obtain ⟨hwanted, entries, hentries, document, hgather, rfl⟩ := build_eq_ok_iff.mp hbuild
  obtain ⟨hentries', hread⟩ := entries_kept hp hlinks hwritten hfree hown hmade hentries
  have htimestamp : document = { document with timestamp := timestamp } := by
    obtain ⟨outlines, contents, _, _, rfl⟩ := Document.gather_eq_ok_iff.mp hgather
    rfl
  refine ⟨document, by rw [← htimestamp], fun timestamp' => ?_⟩
  exact build_eq_ok_iff.mpr
    ⟨hwanted, entries, hentries', _, Document.gather_kept hread hgather timestamp', rfl⟩

end BundlePlan

def Document.bytesAt (document : Document) (format : OutputFormat) (timestamp : String) :
    List UInt8 :=
  Utf8.encode ({ document with timestamp := timestamp }.render format).toList

namespace RunOutcome

open Walk

variable {console : Console} {registry : OutlineRegistry} {timestamp text : String}
  {s : CommandSettings} {arguments : List String} {environment : String → Option String}
  {first : RunOutcome}

theorem exitCode_ne_zero (e : BundleError) : e.exitCode ≠ 0 := by
  cases e with
  | walk cause => cases cause <;> simp [BundleError.exitCode]
  | _ => simp [BundleError.exitCode]

theorem ofError_ne_zero (e : BundleError) : (ofError console fs e).exitCode ≠ 0 := by
  rw [ofError, reporting]
  split
  · exact exitCode_ne_zero e
  · exact Nat.succ_ne_zero 100

theorem exists_written (htarget : s.target? = some path)
    (hcode : (ofSettings console fs registry timestamp s).exitCode = 0) :
    ∃ text, (s.plan registry).build fs timestamp = .ok text ∧
      Document.writeTo fs path text =
        ((ofSettings console fs registry timestamp s).fileSystem, .ok ()) ∧
      console.refuses .output (successReport path) = none := by
  rw [ofSettings] at hcode ⊢
  cases hbuild : (s.plan registry).build fs timestamp with
  | error e =>
    rw [hbuild] at hcode
    exact absurd hcode (ofError_ne_zero e)
  | ok text =>
    rw [hbuild] at hcode
    refine ⟨text, rfl, ?_⟩
    simp only [htarget, deliver] at hcode ⊢
    split at hcode
    next written hwrite =>
      rw [hwrite]
      rw [reporting] at hcode ⊢
      cases hreport : console.refuses .output (successReport path) with
      | none => exact ⟨rfl, rfl⟩
      | some cause => simp [hreport, speechlessCode] at hcode
    next left cause hwrite => exact absurd hcode (ofError_ne_zero (.output cause))

theorem ofSettings_of_writeTo (htarget : s.target? = some path)
    (hreport : console.refuses .output (successReport path) = none)
    (hbuild : (s.plan registry).build fs timestamp = .ok text)
    (hwrite : Document.writeTo fs path text = (fs', .ok ())) :
    (ofSettings console fs registry timestamp s).exitCode = 0 ∧
      (ofSettings console fs registry timestamp s).fileSystem = fs' := by
  simp [ofSettings, hbuild, htarget, deliver, hwrite, reporting, hreport]

/-- A run that has succeeded succeeds again with the same arguments and writes the same document,
with the new time, if the file that it writes is no part of what the plan takes in, the ignore files
are the same as before, and the directories that it has made can be listed. -/
theorem run_again_writes_same (hp : fs.root.Proper)
    (hread : CommandSettings.read arguments environment = .ok s)
    (htarget : s.target? = some path)
    (hfirst : run fs registry timestamp arguments environment console = first)
    (hcode : first.exitCode = 0)
    (hfree : ∀ spot, first.fileSystem.resolve path = .ok spot →
      ¬(s.plan registry).Takes first.fileSystem spot)
    (hown : (s.plan registry).ignorePaths first.fileSystem = (s.plan registry).ignorePaths fs)
    (hmade : ∀ place, first.fileSystem.DirectoryAt place → ¬fs.DirectoryAt place →
      first.fileSystem.Listable place)
    (timestamp' : String) :
    ∃ (document : Document) (second : RunOutcome),
      first.fileSystem.node? path =
        some (.file (document.bytesAt (s.plan registry).options.format timestamp)) ∧
      run first.fileSystem registry timestamp' arguments environment console = second ∧
      second.exitCode = 0 ∧
      second.fileSystem.node? path =
        some (.file (document.bytesAt (s.plan registry).options.format timestamp')) := by
  have hrun : ∀ fs timestamp, run fs registry timestamp arguments environment console =
      ofSettings console fs registry timestamp s := by
    intro fs timestamp
    rw [run, hread]
  subst hfirst
  simp only [hrun, Document.bytesAt] at hcode hfree hown hmade ⊢
  obtain ⟨text, hbuild, hwrite, hreport⟩ := exists_written htarget hcode
  obtain ⟨spot, hwritten⟩ := Document.written_of_writeTo hwrite
  obtain ⟨document, rfl, hagain⟩ :=
    BundlePlan.build_kept hp rfl hwritten (hfree spot hwritten.resolve) hown hmade hbuild
  have hwrite' := Document.writeTo_again hwrite hwritten
    ({ document with timestamp := timestamp' }.render (s.plan registry).options.format)
  obtain ⟨hcode', hleft⟩ := ofSettings_of_writeTo htarget hreport (hagain timestamp') hwrite'
  obtain ⟨spot', hwritten'⟩ := Document.written_of_writeTo hwrite'
  refine ⟨document, _, hwritten.node?, rfl, hcode', ?_⟩
  rw [hleft]
  exact hwritten'.node?

/-! ### A bundle beside its project -/

def bundledProject : FileSystem :=
  (smallProject.put ["out"] (.directory [])).put ["out", "bundle.txt"]
    (.file (Utf8.encode BundlePlan.smallBundle.toList))

theorem bundledProject_written :
    smallProject.locate false "/out" = .ok (.absent [] "out") ∧
      PathText.parent? "/out/bundle.txt" = some "/out" ∧
      (PathText.pieces "/out/bundle.txt").length = 3 ∧ EndsInName "/out/bundle.txt" ∧
      (smallProject.put ["out"] (.directory [])).locate true "/out/bundle.txt" =
        .ok (.absent ["out"] "bundle.txt") ∧
      ((smallProject.put ["out"] (.directory [])).root.get? ["out", "bundle.txt"]).any
        (·.isDirectory) = false := by
  decide +kernel

theorem bundledProject_walked :
    bundledProject.resolve "/out/bundle.txt" = .ok ["out", "bundle.txt"] ∧
      Walk.base bundledProject BundlePlan.smallPlan.root = .ok ["home", "project"] ∧
      BundlePlan.smallPlan.ignorePaths bundledProject = [] ∧
      BundlePlan.smallPlan.ignorePaths .smallProject = [] ∧
      (∀ names ∈ [["go.mod"], ["latest"], ["src", "main.go"]],
        bundledProject.resolve (pathOf (["home", "project"] ++ names)) ≠
          .ok ["out", "bundle.txt"]) ∧
      ∀ place ∈ DiskNode.directoryPlaces bundledProject.root.count bundledProject.root,
        bundledProject.resolve (pathOf place) = .ok place ∧
          bundledProject.refuses .list place = none := by
  decide +kernel

theorem writeTo_smallProject :
    Document.writeTo .smallProject "/out/bundle.txt" BundlePlan.smallBundle =
      (bundledProject, .ok ()) := by
  obtain ⟨hlocate, hparent, hpieces, hends, hplace, hfree⟩ := bundledProject_written
  have hmake : smallProject.makeDirectory "/out" =
      .ok (smallProject.put ["out"] (.directory [])) := by
    rw [makeDirectory, hlocate]
    rfl
  have hparents : smallProject.ensureParents "/out/bundle.txt" =
      (smallProject.put ["out"] (.directory []), .ok ()) := by
    rw [ensureParents, hparent]
    dsimp only
    rw [hpieces, ensureDirectories, if_neg (by decide), ensureDirectory, hmake]
  have hwrite : (smallProject.put ["out"] (.directory [])).write "/out/bundle.txt"
      (Utf8.encode BundlePlan.smallBundle.toList) = .ok bundledProject :=
    write_eq_ok_iff.mpr ⟨hends, .absent ["out"] "bundle.txt", hplace, hfree, rfl, rfl⟩
  rw [Document.writeTo, hparents]
  dsimp only
  rw [hwrite]

theorem not_takes_bundle {spot : List String}
    (hspot : bundledProject.resolve "/out/bundle.txt" = .ok spot) :
    ¬BundlePlan.smallPlan.Takes bundledProject spot := by
  obtain ⟨hbundle, hbase, hnone, -, haway, -⟩ := bundledProject_walked
  rw [hbundle, Except.ok.injEq] at hspot
  subst hspot
  intro htakes
  cases htakes with
  | ignoreFile named leads => simp [hnone] at named
  | listed based ruled selected there =>
    rw [hbase, Except.ok.injEq] at based
    simp [← based] at there
  | @followed base rules names based ruled selected leads =>
    rw [hbase, Except.ok.injEq] at based
    subst based
    obtain ⟨spot, hwritten⟩ := Document.written_of_writeTo writeTo_smallProject
    have hspot : spot = ["out", "bundle.txt"] :=
      Except.ok.inj (hwritten.resolve.symm.trans hbundle)
    have helsewhere : ["home", "project"] ++ names ≠ spot := by simp [hspot]
    obtain ⟨size, hsize⟩ := leafAt_iff.mp selected.leaf
    rw [(hwritten.elsewhere _ helsewhere).leafSize?_eq] at hsize
    have hmem := mem_leavesOf_of_leafSize? DiskNode.smallProject_proper hsize
    rw [smallProject_read.1] at hmem
    simp only [List.cons_append, List.nil_append, List.mem_cons, Leaf.mk.injEq, List.cons.injEq,
      true_and, List.not_mem_nil, or_false] at hmem
    refine haway names ?_ leads
    rcases hmem with ⟨rfl, _⟩ | ⟨rfl, _⟩ | ⟨rfl, _⟩
    all_goals simp

theorem bundledProject_listable {place : List String} (h : bundledProject.DirectoryAt place) :
    bundledProject.Listable place := by
  obtain ⟨spot, hwritten⟩ := Document.written_of_writeTo writeTo_smallProject
  exact listable_of_places (hwritten.proper DiskNode.smallProject_proper)
    bundledProject_walked.2.2.2.2.2 h

theorem run_small_project_again :
    run .smallProject {} "now" smallArguments (fun _ => none) =
        deliver {} .smallProject (some "/out/bundle.txt") BundlePlan.smallBundle ∧
      ∃ (document : Document) (second : RunOutcome),
        bundledProject.node? "/out/bundle.txt" = some (.file (document.bytesAt .text "now")) ∧
        run bundledProject {} "later" smallArguments (fun _ => none) = second ∧
        second.exitCode = 0 ∧
        second.fileSystem.node? "/out/bundle.txt" =
          some (.file (document.bytesAt .text "later")) := by
  have hfirst : (deliver {} .smallProject (some "/out/bundle.txt") BundlePlan.smallBundle) =
      ⟨0, "Successfully generated output to: /out/bundle.txt\n", none, false, bundledProject⟩ := by
    rw [deliver, writeTo_smallProject]
    rfl
  refine ⟨run_smallArguments, ?_⟩
  have hrun := run_smallArguments.trans hfirst
  obtain ⟨-, -, hnone, hnone', -⟩ := bundledProject_walked
  have hown : BundlePlan.smallPlan.ignorePaths bundledProject =
      BundlePlan.smallPlan.ignorePaths .smallProject := hnone.trans hnone'.symm
  exact run_again_writes_same DiskNode.smallProject_proper read_smallArguments rfl hrun rfl
    (fun spot hspot => plan_smallSettings ▸ not_takes_bundle hspot) hown
    (fun _ hplace _ => bundledProject_listable hplace) "later"

/-! ### A bundle in the directory that it is made of -/

def plainProject : FileSystem where
  root := .directory [("w", .directory [("a.txt", .file [104, 105])])]
  workingDirectory := ["w"]

def plainBundle : String :=
  "## Generated with sourcepack at: now\n\n## File Tree\n\nw/\n└── a.txt\n\n" ++
    "## File Contents\n\n--- File: w/a.txt\nhi\n\n"

def packedProject : FileSystem :=
  plainProject.put ["w", "sourcepack.txt"] (.file (Utf8.encode plainBundle.toList))

def packedBundle : String :=
  "## Generated with sourcepack at: now\n\n## File Tree\n\nw/\n├── a.txt\n└── sourcepack.txt\n\n" ++
    "## File Contents\n\n--- File: w/a.txt\nhi\n\n--- File: w/sourcepack.txt\n" ++ plainBundle ++
      "\n\n"

def plainPlan : BundlePlan where
  root := "."
  registry := {}

theorem plainProject_walked :
    plainProject.pathExists plainPlan.root = true ∧
      Walk.base plainProject plainPlan.root = .ok ["w"] ∧
      leaves plainProject plainPlan.walk ["w"] = .ok [⟨["a.txt"], 2⟩] ∧
      shownPath ["a.txt"] = "a.txt" := by
  decide +kernel

theorem packedProject_walked :
    packedProject.pathExists plainPlan.root = true ∧
      Walk.base packedProject plainPlan.root = .ok ["w"] ∧
      leaves packedProject plainPlan.walk ["w"] =
        .ok [⟨["a.txt"], 2⟩, ⟨["sourcepack.txt"], 112⟩] ∧
      shownPath ["a.txt"] = "a.txt" ∧ shownPath ["sourcepack.txt"] = "sourcepack.txt" := by
  decide +kernel

theorem packedProject_written :
    PathText.parent? "sourcepack.txt" = some "" ∧ EndsInName "sourcepack.txt" ∧
      plainProject.locate true "sourcepack.txt" = .ok (.absent ["w"] "sourcepack.txt") ∧
      (plainProject.root.get? ["w", "sourcepack.txt"]).any (·.isDirectory) = false ∧
      packedBundle ≠ plainBundle := by
  decide +kernel

set_option maxRecDepth 100000 in
theorem build_plainProject : plainPlan.build plainProject "now" = .ok plainBundle := by
  obtain ⟨hthere, hbase, hleaves, hfile⟩ := plainProject_walked
  have hrules : plainPlan.rules plainProject = .ok (RuleSet.compile defaultFilters) := rfl
  have hincluded : ∀ leaf ∈ ([⟨["a.txt"], 2⟩] : List Leaf),
      (RuleSet.compile defaultFilters).includes (shownPath leaf.names) = true := by
    simp only [List.forall_mem_cons, hfile]
    exact ⟨by cbv, List.forall_mem_nil _⟩
  rw [BundlePlan.build, if_neg (by decide),
    BundlePlan.entries_of_included rfl hthere hrules hbase hleaves hincluded]
  decide +kernel

set_option maxRecDepth 100000 in
theorem build_packedProject : plainPlan.build packedProject "now" = .ok packedBundle := by
  obtain ⟨hthere, hbase, hleaves, hfile, hpack⟩ := packedProject_walked
  have hrules : plainPlan.rules packedProject = .ok (RuleSet.compile defaultFilters) := rfl
  have hincluded : ∀ leaf ∈ ([⟨["a.txt"], 2⟩, ⟨["sourcepack.txt"], 112⟩] : List Leaf),
      (RuleSet.compile defaultFilters).includes (shownPath leaf.names) = true := by
    simp only [List.forall_mem_cons, hfile, hpack]
    exact ⟨by cbv, by cbv, List.forall_mem_nil _⟩
  rw [BundlePlan.build, if_neg (by decide),
    BundlePlan.entries_of_included rfl hthere hrules hbase hleaves hincluded]
  decide +kernel

theorem writeTo_plainProject :
    Document.writeTo plainProject "sourcepack.txt" plainBundle = (packedProject, .ok ()) := by
  obtain ⟨hparent, hends, hplace, hfree, -⟩ := packedProject_written
  have hparents : plainProject.ensureParents "sourcepack.txt" = (plainProject, .ok ()) := by
    rw [ensureParents, hparent]
    exact ensureDirectories_of_isDirectory _ (.inl rfl)
  have hwrite : plainProject.write "sourcepack.txt" (Utf8.encode plainBundle.toList) =
      .ok packedProject :=
    write_eq_ok_iff.mpr ⟨hends, .absent ["w"] "sourcepack.txt", hplace, hfree, rfl, rfl⟩
  rw [Document.writeTo, hparents]
  dsimp only
  rw [hwrite]

theorem plainProject_proper : plainProject.root.Proper := by
  have hp : (DiskNode.directory [("a.txt", .file [104, 105])]).Proper :=
    .directory (by decide) (by decide) (by simp [DiskNode.Proper.file])
  exact .directory (by decide) (by decide) (by simpa using hp)

/-- It is not so that every run that has written a file writes the same document when it is run
again: without arguments, the file is written to the directory that is bundled. -/
theorem not_every_run_writes_same_again :
    ¬∀ (fs : FileSystem) (registry : OutlineRegistry) (timestamp timestamp' : String)
      (arguments : List String) (environment : String → Option String) (s : CommandSettings)
      (path : String) (first second : RunOutcome), fs.root.Proper →
      CommandSettings.read arguments environment = .ok s → s.target? = some path →
      run fs registry timestamp arguments environment = first → first.exitCode = 0 →
      run first.fileSystem registry timestamp' arguments environment = second →
      second.exitCode = 0 ∧ ∃ document : Document,
        first.fileSystem.node? path =
          some (.file (document.bytesAt (s.plan registry).options.format timestamp)) ∧
        second.fileSystem.node? path =
          some (.file (document.bytesAt (s.plan registry).options.format timestamp')) := by
  intro h
  have hread : CommandSettings.read [] (fun _ => none) = .ok {} := rfl
  have hrun : ∀ fs, run fs {} "now" [] (fun _ => none) = ofSettings {} fs {} "now" {} :=
    fun _ => rfl
  have hreport : ({} : Console).refuses .output (successReport "sourcepack.txt") = none := rfl
  have htarget : ({} : CommandSettings).target? = some "sourcepack.txt" := rfl
  have hplan : ({} : CommandSettings).plan {} = plainPlan := rfl
  obtain ⟨hcode, hfirst⟩ :=
    ofSettings_of_writeTo htarget hreport (hplan ▸ build_plainProject) writeTo_plainProject
  obtain ⟨spot, hwritten⟩ := Document.written_of_writeTo writeTo_plainProject
  have hwrite := Document.writeTo_again writeTo_plainProject hwritten packedBundle
  obtain ⟨_, hsecond⟩ := ofSettings_of_writeTo htarget hreport (hplan ▸ build_packedProject) hwrite
  obtain ⟨_, hwritten'⟩ := Document.written_of_writeTo hwrite
  obtain ⟨_, document, hreads, hreads'⟩ := h plainProject {} "now" "now" [] (fun _ => none) {}
    "sourcepack.txt" _ _ plainProject_proper hread htarget (hrun plainProject) hcode (hrun _)
  rw [hfirst, hwritten.node?, Option.some.injEq] at hreads
  rw [hfirst, hsecond, hwritten'.node?, ← hreads, Option.some.injEq, DiskNode.file.injEq] at hreads'
  have hsame := String.toList_inj.mp (Utf8.encode_injective hreads')
  exact packedProject_written.2.2.2.2 hsame

end RunOutcome

end SourceBundle
