import Mathlib
import SourceBundle.Proofs.WalkedLeaves

/-!
# What a walk lists

A walk lists the files that its rules and its limit select, once each and in the order of their
paths, behind the directories that lead to them. Every directory stands behind its own parent and
has a selected file below it.
-/

namespace SourceBundle

namespace Walk

open PathText

/-! ## Directories on the way -/

/-- Every directory that is below another one stands behind that one. -/
def ParentsFirst (directories : List String) : Prop :=
  ∀ before directory after, directories = before ++ directory :: after →
    ∀ above name, pieces directory = above ++ [name] → above ≠ [] → ofPieces above ∈ before

theorem ParentsFirst.nil : ParentsFirst [] := by
  intro before directory after h
  simp at h

theorem parentsFirst_concat {directories : List String} {last : String} :
    ParentsFirst (directories ++ [last]) ↔
      ParentsFirst directories ∧
        ∀ above name, pieces last = above ++ [name] → above ≠ [] →
          ofPieces above ∈ directories := by
  constructor
  · intro h
    refine ⟨fun before directory after heq => ?_, h directories last [] rfl⟩
    exact h before directory (after ++ [last]) (by simp [heq])
  · rintro ⟨hfirst, hlast⟩ before directory after heq
    obtain rfl | ⟨after, x, rfl⟩ := List.eq_nil_or_concat' after
    · obtain ⟨rfl, hx⟩ := List.append_inj' heq rfl
      cases hx
      exact hlast
    · rw [← List.cons_append, ← List.append_assoc] at heq
      exact hfirst before directory after (List.append_inj' heq rfl).1

theorem ParentsFirst.append {front back : List String} (hf : ParentsFirst front)
    (hb : ParentsFirst back) : ParentsFirst (front ++ back) := by
  induction back using List.reverseRecOn with
  | nil => simpa using hf
  | append_singleton back last ih =>
    obtain ⟨hback, hlast⟩ := parentsFirst_concat.mp hb
    rw [← List.append_assoc]
    refine parentsFirst_concat.mpr ⟨ih hback, fun above name hpieces hne => ?_⟩
    exact List.mem_append_right front (hlast above name hpieces hne)

theorem parentsFirst_properAncestors (relative : String) :
    ParentsFirst (properAncestors relative) := by
  have hslash : ∀ n, ∀ piece ∈ (pieces relative).take n, '/' ∉ piece.toList :=
    fun n piece hpiece => no_slash_of_mem_pieces (List.mem_of_mem_take hpiece)
  have hprefix : ∀ n, n ≤ (pieces relative).length - 1 →
      ParentsFirst ((List.range n).map fun k => ofPieces ((pieces relative).take (k + 1))) := by
    intro n hn
    induction n with
    | zero => exact .nil
    | succ n ih =>
      rw [List.range_succ, List.map_append, List.map_singleton]
      refine parentsFirst_concat.mpr ⟨ih (by omega), fun above name hpieces hne => ?_⟩
      have hlt : n < (pieces relative).length := by omega
      rw [pieces_ofPieces (by simp [pieces_ne_nil]) (hslash _), List.take_succ_eq_append_getElem hlt]
        at hpieces
      obtain ⟨habove, _⟩ := List.append_inj' hpieces rfl
      cases n with
      | zero => simp [← habove] at hne
      | succ n => exact List.mem_map.mpr ⟨n, by simp, by rw [habove]⟩
  exact hprefix _ le_rfl

theorem mem_properAncestors {relative directory : String} :
    directory ∈ properAncestors relative ↔
      ∃ front back, front ≠ [] ∧ back ≠ [] ∧ pieces relative = front ++ back ∧
        directory = ofPieces front := by
  rw [properAncestors, List.mem_map]
  constructor
  · rintro ⟨n, hn, rfl⟩
    have hlt := List.mem_range.mp hn
    refine ⟨(pieces relative).take (n + 1), (pieces relative).drop (n + 1), ?_, ?_, by simp, rfl⟩
    · simp [pieces_ne_nil]
    · rw [ne_eq, List.drop_eq_nil_iff]
      omega
  · rintro ⟨front, back, hfront, hback, hpieces, rfl⟩
    have hf := List.length_pos_of_ne_nil hfront
    have hb := List.length_pos_of_ne_nil hback
    refine ⟨front.length - 1, List.mem_range.mpr (by simp [hpieces]; omega), ?_⟩
    rw [Nat.sub_add_cancel hf, hpieces, List.take_left' rfl]

def note (seen : List String) (directory : String) : List String :=
  if seen.contains directory then seen else seen ++ [directory]

theorem directoriesOf_eq (files : List PathEntry) :
    directoriesOf files = (files.flatMap fun file => properAncestors file.relative).foldl note [] :=
  rfl

theorem note_cases (seen : List String) (directory : String) :
    directory ∈ seen ∧ note seen directory = seen ∨
      directory ∉ seen ∧ note seen directory = seen ++ [directory] := by
  by_cases h : directory ∈ seen
  · exact .inl ⟨h, by simp [note, h]⟩
  · exact .inr ⟨h, by simp [note, h]⟩

theorem mem_foldl_note {met : List String} {directory : String} :
    directory ∈ met.foldl note [] ↔ directory ∈ met := by
  induction met using List.reverseRecOn with
  | nil => simp
  | append_singleton met last ih =>
    rw [List.foldl_concat, List.mem_append, ← ih, List.mem_singleton]
    obtain ⟨hlast, h⟩ | ⟨_, h⟩ := note_cases (met.foldl note []) last
    · rw [h]
      exact ⟨.inl, fun hd => hd.elim id fun heq => heq ▸ hlast⟩
    · rw [h, List.mem_append, List.mem_singleton]

theorem nodup_foldl_note (met : List String) : (met.foldl note []).Nodup := by
  induction met using List.reverseRecOn with
  | nil => exact List.nodup_nil
  | append_singleton met last ih =>
    rw [List.foldl_concat]
    obtain ⟨_, h⟩ | ⟨hlast, h⟩ := note_cases (met.foldl note []) last
    · rwa [h]
    · rw [h, ← List.concat_eq_append]
      exact ih.concat hlast

theorem ParentsFirst.foldl_note {met : List String} (h : ParentsFirst met) :
    ParentsFirst (met.foldl note []) := by
  induction met using List.reverseRecOn with
  | nil => exact .nil
  | append_singleton met last ih =>
    obtain ⟨hmet, hlast⟩ := parentsFirst_concat.mp h
    rw [List.foldl_concat]
    obtain ⟨_, hnote⟩ | ⟨_, hnote⟩ := note_cases (met.foldl note []) last
    · rw [hnote]
      exact ih hmet
    · rw [hnote]
      refine parentsFirst_concat.mpr ⟨ih hmet, fun above name hpieces hne => ?_⟩
      exact mem_foldl_note.mpr (hlast above name hpieces hne)

theorem mem_directoriesOf {files : List PathEntry} {relative : String} :
    relative ∈ directoriesOf files ↔
      ∃ file ∈ files, ∃ front back, front ≠ [] ∧ back ≠ [] ∧
        pieces file.relative = front ++ back ∧ relative = ofPieces front := by
  rw [directoriesOf_eq, mem_foldl_note, List.mem_flatMap]
  simp only [mem_properAncestors]

theorem nodup_directoriesOf (files : List PathEntry) : (directoriesOf files).Nodup :=
  nodup_foldl_note _

theorem parentsFirst_directoriesOf (files : List PathEntry) :
    ParentsFirst (directoriesOf files) := by
  refine ParentsFirst.foldl_note ?_
  induction files with
  | nil => exact .nil
  | cons file files ih =>
    rw [List.flatMap_cons]
    exact (parentsFirst_properAncestors file.relative).append ih

theorem proper_of_mem_directoriesOf {files : List PathEntry} {relative : String}
    (hfiles : ∀ file ∈ files, ∀ piece ∈ pieces file.relative, ProperName piece)
    (h : relative ∈ directoriesOf files) : ∀ piece ∈ pieces relative, ProperName piece := by
  obtain ⟨file, hfile, front, back, hfront, _, hpieces, rfl⟩ := mem_directoriesOf.mp h
  have hproper := hfiles file hfile
  rw [hpieces, List.forall_mem_append] at hproper
  rw [pieces_ofPieces hfront fun piece hpiece => (hproper.1 piece hpiece).no_slash]
  exact hproper.1

/-! ## The base -/

theorem base_eq_ok_iff {fs : FileSystem} {root : String} {place : List String} :
    base fs root = .ok place ↔
      ∃ found node, fs.canonicalize root = .ok found ∧ fs.root.get? found = some node ∧
        place = if node.isDirectory then found else found.dropLast := by
  have hplace : ∀ {found node}, fs.canonicalize root = .ok found → fs.root.get? found = some node →
      base fs root = .ok (if node.isDirectory then found else found.dropLast) := by
    intro found node hcanonical hnode
    have hresolve := (FileSystem.canonicalize_eq_ok_iff.mp hcanonical).1
    have hthere : fs.pathExists root = true := by
      simp [FileSystem.pathExists, FileSystem.node?, hresolve, hnode]
    rw [base, if_pos hthere, hcanonical]
    cases node <;> simp [hnode, DiskNode.isDirectory]
  constructor
  · intro h
    cases hcanonical : fs.canonicalize root with
    | error cause =>
      rw [base, hcanonical] at h
      split at h <;> simp at h
    | ok found =>
      obtain ⟨node, hnode⟩ :=
        FileSystem.exists_of_resolve (FileSystem.canonicalize_eq_ok_iff.mp hcanonical).1
      rw [hplace hcanonical hnode, Except.ok.injEq] at h
      exact ⟨found, node, rfl, hnode, h.symm⟩
  · rintro ⟨found, node, hcanonical, hnode, rfl⟩
    exact hplace hcanonical hnode

theorem directoryAt_of_base {fs : FileSystem} {root : String} {place : List String}
    (h : base fs root = .ok place) : fs.DirectoryAt place := by
  obtain ⟨found, node, hcanonical, hnode, rfl⟩ := base_eq_ok_iff.mp h
  split
  next hd =>
    obtain ⟨es, rfl⟩ := DiskNode.exists_entries hd
    exact ⟨es, hnode⟩
  next hd =>
    by_cases hfound : found = []
    · have hlocate := FileSystem.locate_of_resolve
        (FileSystem.canonicalize_eq_ok_iff.mp hcanonical).1
      rw [hfound, List.dropLast_nil]
      exact (FileSystem.directoryAt_of_locate hlocate).above
    · obtain ⟨above, habove, hdirectory⟩ := DiskNode.isDirectory_dropLast hnode hfound
      obtain ⟨es, rfl⟩ := DiskNode.exists_entries hdirectory
      exact ⟨es, habove⟩

def LeafAt (fs : FileSystem) (place : List String) : Prop :=
  ∃ node, fs.root.get? place = some node ∧ node.isDirectory = false

theorem leafAt_iff {fs : FileSystem} {place : List String} :
    LeafAt fs place ↔ ∃ size, (fs.root.get? place).bind DiskNode.leafSize? = some size := by
  rw [LeafAt]
  constructor
  · rintro ⟨node, hnode, hleaf⟩
    have hsize : node.leafSize? ≠ none := by simp [DiskNode.leafSize?_eq_none_iff, hleaf]
    obtain ⟨size, hsize⟩ := Option.ne_none_iff_exists'.mp hsize
    exact ⟨size, by simp [hnode, hsize]⟩
  · rintro ⟨size, h⟩
    obtain ⟨node, hnode, hsize⟩ := Option.bind_eq_some_iff.mp h
    refine ⟨node, hnode, Bool.eq_false_iff.mpr fun hd => ?_⟩
    rw [DiskNode.leafSize?_eq_none_iff.mpr hd] at hsize
    cases hsize

/-- The names lead from the base to a file or a link that limit and rules select. Rules see names as
they are shown. -/
structure Selected (fs : FileSystem) (rules : RuleSet) (maxDepth : Option Nat)
    (base names : List String) : Prop where
  below : names ≠ []
  leaf : LeafAt fs (base ++ names)
  allowed : Allows maxDepth names
  included : rules.includes (shownPath names) = true

/-- The entry is that of the file or link to which the names lead from the directory of that name. -/
structure FileOf (parent : List String) (name : String) (names : List String) (file : PathEntry) :
    Prop where
  path : file.path = FileSystem.pathOf (parent ++ name :: names)
  pieces_eq : pieces file.relative = (name :: names).map DiskName.shown
  /-- A name that is no text is not shown as it is, so the path that shows it leads elsewhere. -/
  joined : (∀ n ∈ name :: names, DiskName.IsText n) →
    file.path = join (FileSystem.pathOf parent) file.relative
  depth : file.depth = (pieces file.relative).length
  isFile : file.isDir = false

/-- What a walk lists for the directory of that name: first directories, then files. -/
structure Listing (fs : FileSystem) (rules : RuleSet) (maxDepth : Option Nat)
    (parent : List String) (name : String) (selection : List (List String))
    (directories files : List PathEntry) : Prop where
  selected : ∀ names, names ∈ selection ↔ Selected fs rules maxDepth (parent ++ [name]) names
  /-- Nothing is selected twice. -/
  ordered : selection.Pairwise fun a b => pathBytes a < pathBytes b
  listed : List.Forall₂ (FileOf parent name) selection files
  /-- The directories are those on the way to a file. -/
  leading : ∀ relative, relative ∈ directories.map (·.relative) ↔
    ∃ file ∈ files, ∃ front back, front ≠ [] ∧ back ≠ [] ∧
      pieces file.relative = front ++ back ∧ relative = ofPieces front
  nodup : (directories.map (·.relative)).Nodup
  parentsFirst : ParentsFirst (directories.map (·.relative))
  path : ∀ entry ∈ directories, entry.path = join (FileSystem.pathOf parent) entry.relative
  depth : ∀ entry ∈ directories, entry.depth = (pieces entry.relative).length
  isDir : ∀ entry ∈ directories, entry.isDir = true

section

variable {fs : FileSystem} {rules : RuleSet} {maxDepth : Option Nat} {root : String}
  {parent place names : List String} {name : String} {kept : List Leaf}

def fileAt (fs : FileSystem) (place : List String) (leaf : Leaf) : PathEntry :=
  .file (FileSystem.pathOf (place ++ leaf.names))
    (shownPath (place.drop (place.length - 1) ++ leaf.names))
    (sizeAt fs false (FileSystem.pathOf (place ++ leaf.names)) leaf)

/-- The leaves that limit and rules select, in the order of their paths. -/
structure Kept (fs : FileSystem) (rules : RuleSet) (maxDepth : Option Nat) (place : List String)
    (kept : List Leaf) : Prop where
  ordered : kept.Pairwise fun a b => pathBytes a.names < pathBytes b.names
  mem_iff : ∀ leaf, leaf ∈ kept ↔ Allows maxDepth leaf.names ∧
    rules.includes (shownPath leaf.names) = true ∧
    (fs.root.get? (place ++ leaf.names)).bind DiskNode.leafSize? = some leaf.size

theorem collect_eq {options : WalkOptions} {found : List Leaf} (hbase : base fs root = .ok place)
    (hleaves : leaves fs options place = .ok found) :
    collect fs root rules options = .ok (withAncestors place.dropLast
      (Walk.selected fs rules options.followLinks place found)) := by
  simp only [collect, hbase, hleaves, bind, Except.bind, pure, Except.pure]

theorem exists_of_collect {options : WalkOptions} {entries : List PathEntry}
    (h : collect fs root rules options = .ok entries) :
    ∃ place found, base fs root = .ok place ∧ leaves fs options place = .ok found ∧
      entries = withAncestors place.dropLast
        (Walk.selected fs rules options.followLinks place found) := by
  obtain ⟨place, hbase, h⟩ := bind_eq_ok_iff.mp h
  obtain ⟨found, hleaves, h⟩ := bind_eq_ok_iff.mp h
  exact ⟨place, found, hbase, hleaves, (pure_eq_ok_iff.mp h).symm⟩

theorem kept_leavesOf {es : List (String × DiskNode)} (hp : fs.root.Proper)
    (hes : fs.root.get? place = some (.directory es)) :
    Kept fs rules maxDepth place
      ((leavesOf (maxDepth.getD fs.root.count) (.directory es)).filter fun leaf =>
        rules.includes (shownPath leaf.names)) where
  ordered := (pairwise_leavesOf (hp.of_get? hes).2).filter _
  mem_iff leaf := by
    rw [List.mem_filter, mem_leavesOf_iff_allows hp hes]
    tauto

theorem exists_kept (hp : fs.root.Proper) (hplace : fs.DirectoryAt place) (rules : RuleSet)
    (maxDepth : Option Nat) : ∃ kept, Kept fs rules maxDepth place kept := by
  obtain ⟨es, hes⟩ := hplace
  exact ⟨_, kept_leavesOf hp hes⟩

/-- A walk that follows no links lists the leaves that are selected, if every directory that it
enters can be listed. -/
theorem collect_eq_ok_iff {entries : List PathEntry} (hp : fs.root.Proper)
    (hbase : base fs root = .ok place) :
    collect fs root rules ⟨maxDepth, false⟩ = .ok entries ↔
      (∃ kept, Kept fs rules maxDepth place kept ∧
        entries = withAncestors place.dropLast (kept.map (fileAt fs place))) ∧
      ∀ names, Enters fs maxDepth place names → fs.Listable (place ++ names) := by
  obtain ⟨es, hes⟩ := directoryAt_of_base hbase
  constructor
  · intro h
    obtain ⟨there, found, hthere, hleaves, rfl⟩ := exists_of_collect h
    cases hbase.symm.trans hthere
    obtain ⟨rfl, hlistable⟩ := (leaves_eq_ok_iff hp hes).mp hleaves
    exact ⟨⟨_, kept_leavesOf hp hes, rfl⟩, hlistable⟩
  · rintro ⟨⟨kept, hkept, rfl⟩, hlistable⟩
    have hsame : Kept fs rules maxDepth place _ := kept_leavesOf hp hes
    rw [collect_eq hbase ((leaves_eq_ok_iff hp hes).mpr ⟨rfl, hlistable⟩),
      eq_of_mem_iff hkept.ordered hsame.ordered fun leaf => by rw [hkept.mem_iff, hsame.mem_iff]]
    rfl

theorem Kept.selected_iff (h : Kept fs rules maxDepth place kept)
    (hplace : fs.DirectoryAt place) :
    Selected fs rules maxDepth place names ↔ ∃ leaf ∈ kept, leaf.names = names := by
  obtain ⟨es, hes⟩ := hplace
  constructor
  · rintro ⟨_, hleaf, hallowed, hincluded⟩
    obtain ⟨size, hsize⟩ := leafAt_iff.mp hleaf
    exact ⟨⟨names, size⟩, (h.mem_iff _).mpr ⟨hallowed, hincluded, hsize⟩, rfl⟩
  · rintro ⟨leaf, hmem, rfl⟩
    obtain ⟨hallowed, hincluded, hsize⟩ := (h.mem_iff leaf).mp hmem
    refine ⟨fun hnil => ?_, leafAt_iff.mpr ⟨_, hsize⟩, hallowed, hincluded⟩
    rw [hnil, List.append_nil, hes] at hsize
    cases hsize

theorem Selected.proper (h : Selected fs rules maxDepth (parent ++ [name]) names)
    (hp : fs.root.Proper) :
    (∀ piece ∈ parent, ProperName piece) ∧ ∀ piece ∈ name :: names, ProperName piece := by
  obtain ⟨node, hnode, _⟩ := h.leaf
  have hnames := (hp.of_get? hnode).1
  simp only [List.append_assoc, List.singleton_append] at hnames
  exact List.forall_mem_append.mp hnames

theorem proper_map_shown (h : ∀ piece ∈ names, ProperName piece) :
    ∀ piece ∈ names.map DiskName.shown, ProperName piece :=
  List.forall_mem_map.mpr fun piece hpiece => DiskName.proper_shown (h piece hpiece)

theorem pieces_shownPath (hne : names ≠ []) (h : ∀ piece ∈ names, ProperName piece) :
    pieces (shownPath names) = names.map DiskName.shown :=
  pieces_ofPieces (by simpa using hne) fun piece hpiece => (proper_map_shown h piece hpiece).no_slash

theorem map_shown_eq_self (h : ∀ n ∈ names, DiskName.IsText n) :
    names.map DiskName.shown = names := by
  conv_rhs => rw [← List.map_id names]
  exact List.map_congr_left fun n hn => DiskName.shown_eq_self (h n hn)

theorem fileOf_fileAt {leaf : Leaf}
    (h : Selected fs rules maxDepth (parent ++ [name]) leaf.names) (hp : fs.root.Proper) :
    FileOf parent name leaf.names (fileAt fs (parent ++ [name]) leaf) := by
  obtain ⟨habove, hnames⟩ := h.proper hp
  have hrelative : (fileAt fs (parent ++ [name]) leaf).relative = shownPath (name :: leaf.names) := by
    simp [fileAt, PathEntry.file]
  have hpath : (fileAt fs (parent ++ [name]) leaf).path =
      FileSystem.pathOf (parent ++ name :: leaf.names) := by
    simp [fileAt, PathEntry.file]
  have hpieces : pieces (shownPath (name :: leaf.names)) = (name :: leaf.names).map DiskName.shown :=
    pieces_shownPath (List.cons_ne_nil name _) hnames
  constructor
  case path => exact hpath
  case pieces_eq => rw [hrelative, hpieces]
  case joined =>
    intro htext
    rw [hpath, hrelative, shownPath, map_shown_eq_self htext]
    exact (FileSystem.join_pathOf habove hnames (List.cons_ne_nil name _)).symm
  case depth =>
    have hproper : ∀ piece ∈ pieces (fileAt fs (parent ++ [name]) leaf).relative,
        ProperName piece := by
      rw [hrelative, hpieces]
      exact proper_map_shown hnames
    exact depthOf_eq hproper
  case isFile => rfl

theorem Kept.listing (h : Kept fs rules maxDepth (parent ++ [name]) kept) (hp : fs.root.Proper)
    (hplace : fs.DirectoryAt (parent ++ [name])) :
    Listing fs rules maxDepth parent name (kept.map (·.names))
      ((directoriesOf (kept.map (fileAt fs (parent ++ [name])))).map fun relative =>
        .directory (join (FileSystem.pathOf parent) relative) relative)
      (kept.map (fileAt fs (parent ++ [name]))) := by
  have hfile : ∀ leaf ∈ kept, FileOf parent name leaf.names (fileAt fs (parent ++ [name]) leaf) :=
    fun leaf hleaf => fileOf_fileAt ((h.selected_iff hplace).mpr ⟨leaf, hleaf, rfl⟩) hp
  have hproper : ∀ file ∈ kept.map (fileAt fs (parent ++ [name])), ∀ piece ∈ pieces file.relative,
      ProperName piece := by
    refine List.forall_mem_map.mpr fun leaf hleaf => ?_
    rw [(hfile leaf hleaf).pieces_eq]
    exact proper_map_shown (((h.selected_iff hplace).mpr ⟨leaf, hleaf, rfl⟩).proper hp).2
  have hrelatives : ∀ directories : List String, ((directories.map fun relative =>
      PathEntry.directory (join (FileSystem.pathOf parent) relative) relative).map (·.relative)) =
        directories := by
    simp [Function.comp_def, PathEntry.directory]
  constructor
  case selected =>
    intro names
    rw [h.selected_iff hplace, List.mem_map]
  case ordered => exact List.pairwise_map.mpr h.ordered
  case listed =>
    rw [List.forall₂_map_left_iff, List.forall₂_map_right_iff, List.forall₂_same]
    exact hfile
  case leading =>
    intro relative
    rw [hrelatives, mem_directoriesOf]
  case nodup => exact (hrelatives _).symm ▸ nodup_directoriesOf _
  case parentsFirst => exact (hrelatives _).symm ▸ parentsFirst_directoriesOf _
  case path => exact List.forall_mem_map.mpr fun _ _ => rfl
  case depth =>
    refine List.forall_mem_map.mpr fun relative hmem => ?_
    exact depthOf_eq (proper_of_mem_directoriesOf hproper hmem)
  case isDir => exact List.forall_mem_map.mpr fun _ _ => rfl

theorem exists_listing {entries : List PathEntry} (hp : fs.root.Proper)
    (hbase : base fs root = .ok (parent ++ [name]))
    (h : collect fs root rules ⟨maxDepth, false⟩ = .ok entries) :
    ∃ selection directories files, entries = directories ++ files ∧
      Listing fs rules maxDepth parent name selection directories files := by
  obtain ⟨⟨kept, hkept, rfl⟩, _⟩ := (collect_eq_ok_iff hp hbase).mp h
  refine ⟨_, _, _, ?_, hkept.listing hp (directoryAt_of_base hbase)⟩
  rw [List.dropLast_concat]
  rfl

def smallListing : List PathEntry :=
  [.directory "/home/project" "project", .directory "/home/project/src" "project/src",
    .file "/home/project/latest" "project/latest" (some 11),
    .file "/home/project/src/main.go" "project/src/main.go" (some 1)]

theorem smallProject_walked :
    FileSystem.smallProject.pathExists "/home/project" = true ∧
      base .smallProject "/home/project" = .ok ["home", "project"] ∧
      leaves .smallProject {} ["home", "project"] =
        .ok [⟨["go.mod"], 0⟩, ⟨["latest"], 11⟩, ⟨["src", "main.go"], 1⟩] ∧
      shownPath ["go.mod"] = "go.mod" ∧ shownPath ["latest"] = "latest" ∧
      shownPath ["src", "main.go"] = "src/main.go" ∧
      withAncestors ["home"]
        ([⟨["latest"], 11⟩, ⟨["src", "main.go"], 1⟩].map
          (fileAt .smallProject ["home", "project"])) = smallListing := by
  decide +kernel

set_option maxRecDepth 100000 in
theorem collect_smallProject :
    collect .smallProject "/home/project" (RuleSet.compile ["*", "!go.*"]) {} =
      .ok smallListing := by
  obtain ⟨-, hbase, hleaves, hmodule, hlink, hprogram, hlisting⟩ := smallProject_walked
  have hmod : (RuleSet.compile ["*", "!go.*"]).includes "go.mod" = false := by cbv
  have hlatest : (RuleSet.compile ["*", "!go.*"]).includes "latest" = true := by cbv
  have hmain : (RuleSet.compile ["*", "!go.*"]).includes "src/main.go" = true := by cbv
  refine (collect_eq hbase hleaves).trans ?_
  rw [Walk.selected]
  simp only [List.filter_cons, List.filter_nil, hmodule, hlink, hprogram, hmod, hlatest, hmain,
    Bool.false_eq_true, if_false, if_true]
  exact congrArg Except.ok hlisting

end

end Walk

end SourceBundle
