import SourceBundle.BundlePlan
import SourceBundle.Proofs.DocumentGathering
import SourceBundle.Proofs.TreeBuilding
import SourceBundle.Proofs.WalkListing

/-!
# The tree and the contents of a bundle

The tree is built from the paths of the entries, and the contents are read entry by entry. Both show
the same files: those that the rules and the limit of the walk select.
-/

namespace SourceBundle

open PathText

/-! ## The tree of a listing -/

namespace TreeNode

/-- The files of a tree, told by the names that lead to them from its root on. -/
def fileChains (tree : Option TreeNode) : List (List String) :=
  tree.elim [] fun t => (t.spots.filter Spot.isFile).map (·.names)

/-- The names lead from the root of a tree to a directory that it shows. -/
def ShowsDirectory (tree : Option TreeNode) (names : List String) : Prop :=
  ∃ t ∈ tree, ⟨names, .directory⟩ ∈ t.spots

end TreeNode

namespace Walk

/-- The names from the walked directory to a file below it, as they are shown. -/
def shownChain (name : String) (names : List String) : List String :=
  (name :: names).map DiskName.shown

namespace Listing

open TreeNode

variable {fs : FileSystem} {rules : RuleSet} {maxDepth : Option Nat} {parent : List String}
  {name : String} {selection : List (List String)} {directories files : List PathEntry}

theorem pieces_files (h : Listing fs rules maxDepth parent name selection directories files) :
    (files.map fun file => pieces file.relative) = selection.map (shownChain name) := by
  rw [eq_comm, ← List.forall₂_eq_eq_eq, List.forall₂_map_left_iff, List.forall₂_map_right_iff]
  exact h.listed.imp fun names file hfile => hfile.pieces_eq.symm

theorem exists_selected (h : Listing fs rules maxDepth parent name selection directories files)
    {file : PathEntry} (hfile : file ∈ files) :
    ∃ names ∈ selection, pieces file.relative = shownChain name names := by
  have hmem : pieces file.relative ∈ selection.map (shownChain name) :=
    h.pieces_files ▸ List.mem_map.mpr ⟨file, hfile, rfl⟩
  obtain ⟨names, hnames, heq⟩ := List.mem_map.mp hmem
  exact ⟨names, hnames, heq.symm⟩

theorem exists_below (h : Listing fs rules maxDepth parent name selection directories files)
    {directory : PathEntry} (hdirectory : directory ∈ directories) :
    ∃ file ∈ files, ∃ back, back ≠ [] ∧
      pieces file.relative = pieces directory.relative ++ back := by
  obtain ⟨file, hfile, front, back, hfront, hback, hpieces, hrelative⟩ :=
    (h.leading directory.relative).mp (List.mem_map.mpr ⟨directory, hdirectory, rfl⟩)
  have hslash : ∀ piece ∈ front, '/' ∉ piece.toList := by
    intro piece hpiece
    have hmem : piece ∈ pieces file.relative := hpieces ▸ List.mem_append_left back hpiece
    exact no_slash_of_mem_pieces hmem
  refine ⟨file, hfile, back, hback, ?_⟩
  rw [hrelative, pieces_ofPieces hfront hslash, hpieces]

theorem isFile (h : Listing fs rules maxDepth parent name selection directories files)
    {file : PathEntry} (hfile : file ∈ files) : file.isDir = false := by
  obtain ⟨names, hnames⟩ := exists_of_forall₂ h.listed hfile
  exact hnames.isFile

theorem files_eq (h : Listing fs rules maxDepth parent name selection directories files) :
    (directories ++ files).filter (fun entry => !entry.isDir) = files := by
  have hdirectories : directories.filter (fun entry => !entry.isDir) = [] := by
    rw [List.filter_eq_nil_iff]
    intro entry hentry
    simp [h.isDir entry hentry]
  have hfiles : files.filter (fun entry => !entry.isDir) = files := by
    rw [List.filter_eq_self]
    intro entry hentry
    simp [h.isFile hentry]
  rw [List.filter_append, hdirectories, hfiles, List.nil_append]

theorem pieces_eq_cons (h : Listing fs rules maxDepth parent name selection directories files) :
    ∀ entry ∈ directories ++ files,
      pieces entry.relative = DiskName.shown name :: chainOf entry := by
  have hbegins : ∀ entry ∈ directories ++ files,
      (pieces entry.relative).head? = some (DiskName.shown name) := by
    refine List.forall_mem_append.mpr ⟨fun directory hdirectory => ?_, fun file hfile => ?_⟩
    · obtain ⟨file, hfile, back, _, hpieces⟩ := h.exists_below hdirectory
      obtain ⟨names, _, hnames⟩ := h.exists_selected hfile
      obtain ⟨first, rest, hfirst⟩ := List.exists_cons_of_ne_nil (pieces_ne_nil directory.relative)
      rw [hnames, hfirst, shownChain, List.map_cons, List.cons_append, List.cons.injEq] at hpieces
      rw [hfirst, List.head?_cons, hpieces.1]
    · obtain ⟨names, _, hnames⟩ := h.exists_selected hfile
      rw [hnames, shownChain, List.map_cons, List.head?_cons]
  intro entry hentry
  rw [chainOf, List.drop_one]
  exact List.eq_cons_of_mem_head? (hbegins entry hentry)

theorem chainOf_ne_nil (h : Listing fs rules maxDepth parent name selection directories files) :
    ∀ entry ∈ directories ++ files, entry.isDir = false → chainOf entry ≠ [] := by
  intro entry hentry hfile
  rcases List.mem_append.mp hentry with hmem | hmem
  · rw [h.isDir entry hmem] at hfile
    cases hfile
  · obtain ⟨names, hmem, hnames⟩ := h.exists_selected hmem
    rw [chainOf, hnames, shownChain, List.map_cons, List.drop_one, List.tail_cons, ne_eq,
      List.map_eq_nil_iff]
    exact ((h.selected names).mp hmem).below

/-- The tree of a listing has its files, each as often as it is listed. -/
theorem fileChains_perm (h : Listing fs rules maxDepth parent name selection directories files) :
    (fileChains (ofEntries? (directories ++ files))).Perm (selection.map (shownChain name)) := by
  rw [← h.pieces_files]
  cases htree : ofEntries? (directories ++ files) with
  | none =>
    obtain ⟨_, rfl⟩ := List.append_eq_nil_iff.mp (ofEntries?_eq_none_iff.mp htree)
    exact .nil
  | some tree =>
    have hfiles := files_ofEntries? htree h.pieces_eq_cons h.chainOf_ne_nil
    rw [h.files_eq] at hfiles
    refine (hfiles.map (·.names)).trans (.of_eq ?_)
    rw [List.map_map]
    rfl

theorem nodup_selection (h : Listing fs rules maxDepth parent name selection directories files) :
    selection.Nodup := by
  refine h.ordered.imp fun {a b} hlt heq => ?_
  rw [heq] at hlt
  exact List.lt_irrefl _ hlt

theorem exists_file_below (h : Listing fs rules maxDepth parent name selection directories files)
    {front : List String} (hfront : ShowsDirectory (ofEntries? (directories ++ files)) front) :
    ∃ back, back ≠ [] ∧ front ++ back ∈ fileChains (ofEntries? (directories ++ files)) := by
  obtain ⟨tree, htree, hspot⟩ := hfront
  obtain ⟨entry, hentry, _, back, hpieces, hback⟩ :=
    (directory_mem_ofEntries? htree h.pieces_eq_cons h.chainOf_ne_nil).mp hspot
  have hshown : ∀ file ∈ files,
      pieces file.relative ∈ fileChains (ofEntries? (directories ++ files)) := by
    intro file hfile
    rw [h.fileChains_perm.mem_iff, ← h.pieces_files]
    exact List.mem_map.mpr ⟨file, hfile, rfl⟩
  rcases List.mem_append.mp hentry with hdirectory | hfile
  · obtain ⟨file, hfile, rest, hrest, hbelow⟩ := h.exists_below hdirectory
    refine ⟨back ++ rest, by simp [hrest], ?_⟩
    rw [← List.append_assoc, ← hpieces, ← hbelow]
    exact hshown file hfile
  · refine ⟨back, fun hnil => ?_, hpieces ▸ hshown entry hfile⟩
    have hdir := hback hnil
    rw [h.isFile hfile] at hdir
    cases hdir

end Listing

/-- The names are shown as they are. -/
theorem shownChain_of_text {name : String} {names : List String}
    (h : ∀ n ∈ name :: names, DiskName.IsText n) : shownChain name names = name :: names :=
  map_shown_eq_self h

end Walk

/-! ## The bundle -/

namespace BundlePlan

open TreeNode Walk

variable {fs : FileSystem} {plan : BundlePlan}

theorem entries_eq_ok_iff {entries : List PathEntry} :
    plan.entries fs = .ok entries ↔
      fs.pathExists plan.root = true ∧ ∃ rules, plan.rules fs = .ok rules ∧
        collect fs plan.root rules plan.walk = .ok entries := by
  rw [BundlePlan.entries]
  cases fs.pathExists plan.root with
  | false => simp
  | true => simp [bind_eq_ok_iff, mapError_eq_ok_iff]

theorem build_eq_ok_iff {timestamp text : String} :
    plan.build fs timestamp = .ok text ↔
      plan.options.isEmpty = false ∧ ∃ entries, plan.entries fs = .ok entries ∧
        ∃ document, Document.gather fs plan.registry plan.options timestamp entries = .ok document ∧
          document.render plan.options.format = text := by
  rw [build]
  cases plan.options.isEmpty with
  | true => simp
  | false =>
    simp only [Bool.false_eq_true, if_false, true_and, bind_eq_ok_iff, mapError_eq_ok_iff,
      Document.generate_eq_ok_iff]

/-- The tree and the contents show the same files, and these are the selected ones. -/
structure Agreement (fs : FileSystem) (rules : RuleSet) (maxDepth : Option Nat)
    (parent : List String) (name : String) (selection : List (List String))
    (tree : Option TreeNode) (contents : List (String × Content)) : Prop where
  /-- Below the walked directory these are the files that limit and rules select. -/
  selected : ∀ names, names ∈ selection ↔ Selected fs rules maxDepth (parent ++ [name]) names
  once : selection.Nodup
  inTree : (fileChains tree).Perm (selection.map (shownChain name))
  inContents : (contents.map fun c => pieces c.1) = selection.map (shownChain name)
  sameFiles : ∀ chain, chain ∈ fileChains tree ↔ chain ∈ contents.map fun c => pieces c.1
  /-- Names that are no texts can show alike. -/
  texts : (∀ names ∈ selection, ∀ n ∈ name :: names, DiskName.IsText n) →
    (fileChains tree).Nodup ∧ (contents.map fun c => pieces c.1).Nodup ∧
      ∀ names, name :: names ∈ fileChains tree ↔
        Selected fs rules maxDepth (parent ++ [name]) names
  noEmptyDirectory : ∀ front, ShowsDirectory tree front →
    ∃ back, back ≠ [] ∧ front ++ back ∈ fileChains tree

theorem agreement_of_listing {rules : RuleSet} {maxDepth : Option Nat} {parent : List String}
    {name : String} {selection : List (List String)} {directories files : List PathEntry}
    {skipBinary : Bool} {contents : List (String × Content)}
    (h : Listing fs rules maxDepth parent name selection directories files)
    (hcontents : Document.gatherContents fs skipBinary (directories ++ files) = .ok contents) :
    Agreement fs rules maxDepth parent name selection (ofEntries? (directories ++ files))
      contents := by
  have hfiles : Document.files (directories ++ files) = files := h.files_eq
  have hnames := Document.names_of_gatherContents hcontents
  rw [hfiles] at hnames
  have hpieces : (contents.map fun c => pieces c.1) = selection.map (shownChain name) := by
    rw [← h.pieces_files]
    simpa [Function.comp_def] using congrArg (List.map pieces) hnames
  have hperm := h.fileChains_perm
  constructor
  case selected => exact h.selected
  case once => exact h.nodup_selection
  case inTree => exact hperm
  case inContents => exact hpieces
  case sameFiles =>
    intro chain
    rw [hpieces, hperm.mem_iff]
  case texts =>
    intro htexts
    have hchains : selection.map (shownChain name) = selection.map (name :: ·) :=
      List.map_congr_left fun names hmem => shownChain_of_text (htexts names hmem)
    have honce : (selection.map (name :: ·)).Nodup :=
      h.nodup_selection.map (List.cons_injective)
    rw [hpieces, hperm.nodup_iff, hchains]
    refine ⟨honce, honce, fun names => ?_⟩
    rw [hperm.mem_iff, hchains, List.mem_map_of_injective List.cons_injective, h.selected]
  case noEmptyDirectory => exact fun front => h.exists_file_below

/-- A bundle with a tree and contents shows the same files in both: those that the walk selects, each
once, and no directory without one of them. Plans are only made with walks that follow no links. -/
theorem build_shows_selected {timestamp text : String} {parent : List String} {name : String}
    (hp : fs.root.Proper) (hbase : Walk.base fs plan.root = .ok (parent ++ [name]))
    (hlinks : plan.walk.followLinks = false) (htree : plan.options.tree = true)
    (hdump : plan.options.dump = true) (hbuild : plan.build fs timestamp = .ok text) :
    ∃ rules entries document contents selection,
      plan.rules fs = .ok rules ∧ plan.entries fs = .ok entries ∧
      Document.gather fs plan.registry plan.options timestamp entries = .ok document ∧
      text = document.render plan.options.format ∧
      document.tree = some (renderEntries plan.options.sizes entries) ∧
      document.contents = some contents ∧
      Agreement fs rules plan.walk.maxDepth parent name selection (ofEntries? entries) contents := by
  obtain ⟨_, entries, hentries, document, hgather, hrender⟩ := build_eq_ok_iff.mp hbuild
  obtain ⟨_, rules, hrules, hcollect⟩ := entries_eq_ok_iff.mp hentries
  have hwalk : plan.walk = ⟨plan.walk.maxDepth, false⟩ := by rw [← hlinks]
  rw [hwalk] at hcollect
  obtain ⟨selection, directories, files, rfl, hlisting⟩ := exists_listing hp hbase hcollect
  obtain ⟨outlines, contents?, _, hcontents, rfl⟩ := Document.gather_eq_ok_iff.mp hgather
  rw [Document.optional_eq_ok_iff, if_pos hdump] at hcontents
  obtain ⟨contents, hcontents, rfl⟩ := hcontents
  refine ⟨rules, _, _, contents, selection, hrules, hentries, hgather, hrender.symm, ?_, rfl,
    agreement_of_listing hlisting hcontents⟩
  rw [Document.drawing, if_pos htree]

/-! ### A small project -/

def smallPlan : BundlePlan where
  root := "/home/project"
  filters := ["*", "!go.*"]
  registry := {}

def smallBundle : String :=
  "## Generated with sourcepack at: now\n\n" ++
    "## File Tree\n\nproject/\n├── src/\n│   └── main.go\n└── latest\n\n" ++
    "## File Contents\n\n--- File: project/latest\np\n\n--- File: project/src/main.go\np\n\n"

theorem entries_smallPlan : smallPlan.entries .smallProject = .ok smallListing :=
  entries_eq_ok_iff.mpr
    ⟨smallProject_walked.1, RuleSet.compile ["*", "!go.*"], rfl, collect_smallProject⟩

theorem build_smallPlan : smallPlan.build .smallProject "now" = .ok smallBundle := by
  rw [build, if_neg (by decide), entries_smallPlan]
  decide +kernel

theorem build_small_project_shows_selected :
    ∃ rules entries document contents selection,
      smallPlan.rules .smallProject = .ok rules ∧
      smallPlan.entries .smallProject = .ok entries ∧
      Document.gather .smallProject smallPlan.registry smallPlan.options "now" entries =
        .ok document ∧
      smallBundle = document.render smallPlan.options.format ∧
      document.tree = some (renderEntries smallPlan.options.sizes entries) ∧
      document.contents = some contents ∧
      Agreement .smallProject rules smallPlan.walk.maxDepth ["home"] "project"
        selection (ofEntries? entries) contents :=
  build_shows_selected DiskNode.smallProject_proper smallProject_walked.2.1 rfl rfl rfl
    build_smallPlan

end BundlePlan

end SourceBundle
