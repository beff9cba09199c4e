import Mathlib.Data.List.Pairwise
import Mathlib.Data.List.Perm.Basic
import SourceBundle.Proofs.BuiltTrees

/-!
# Trees of reordered entries

Where siblings of one kind differ in their lowercase names, their order leaves no choice, so a tree is
told by its spots. The spots of a built tree do not depend on the order of the entries, nor on entries
for directories that lead to a file: the drawing shows the set of files alone.
-/

namespace SourceBundle

namespace TreeNode

open PathText

variable {base name path : String} {above : List String} {t u : TreeNode}
  {entries others : List PathEntry}

/-! ## Siblings told apart -/

def Apart (a b : TreeNode) : Prop :=
  a.isDirectory = b.isDirectory → lowercase a.name.toList ≠ lowercase b.name.toList

instance : DecidableRel Apart := fun a b =>
  inferInstanceAs (Decidable (a.isDirectory = b.isDirectory →
    lowercase a.name.toList ≠ lowercase b.name.toList))

/-- No two siblings of one kind have the same lowercase name. -/
inductive ToldApart : TreeNode → Prop
  | node {name path kind children} (apart : children.Pairwise Apart)
      (below : ∀ child ∈ children, ToldApart child) : ToldApart (.node name path kind children)

mutual

def isToldApart : TreeNode → Bool
  | .node _ _ _ children => decide (children.Pairwise Apart) && areToldApart children
termination_by structural t => t

def areToldApart : List TreeNode → Bool
  | [] => true
  | t :: ts => t.isToldApart && areToldApart ts
termination_by structural ts => ts

end

mutual

theorem isToldApart_iff : (t : TreeNode) → (t.isToldApart = true ↔ ToldApart t)
  | .node name path kind children => by
    rw [isToldApart, Bool.and_eq_true_iff, decide_eq_true_iff, areToldApart_iff children]
    constructor
    · exact fun ⟨hapart, hbelow⟩ => .node hapart hbelow
    · intro h
      cases h with
      | node hapart hbelow => exact ⟨hapart, hbelow⟩

theorem areToldApart_iff : (ts : List TreeNode) → (areToldApart ts = true ↔ ∀ t ∈ ts, ToldApart t)
  | [] => by simp [areToldApart]
  | t :: ts => by
    rw [areToldApart, Bool.and_eq_true_iff, isToldApart_iff t, areToldApart_iff ts,
      List.forall_mem_cons]

end

instance (t : TreeNode) : Decidable (ToldApart t) :=
  decidable_of_iff _ (isToldApart_iff t)

def ownSpot (t : TreeNode) : Spot :=
  ⟨[t.name], t.kind⟩

theorem eq_of_not_apart {a b : TreeNode} {children : List TreeNode}
    (h : children.Pairwise Apart) (ha : a ∈ children) (hb : b ∈ children)
    (hkind : a.isDirectory = b.isDirectory) (hname : sortKey a.name = sortKey b.name) : a = b := by
  have hsymm : Std.Symm Apart := ⟨fun _ _ hab hkind heq => hab hkind.symm heq.symm⟩
  by_contra hne
  exact h.forall ha hb hne hkind (Utf8.encode_injective hname)

theorem ToldApart.apart (h : ToldApart t) : t.children.Pairwise Apart := by
  cases h
  assumption

theorem ToldApart.of_mem (h : ToldApart t) (hu : u ∈ t.children) : ToldApart u := by
  cases h with
  | node _ below => exact below u hu

theorem InOrder.ordered (h : InOrder t) : t.children.Pairwise Before := by
  cases h
  assumption

theorem InOrder.of_mem (h : InOrder t) (hu : u ∈ t.children) : InOrder u := by
  cases h with
  | node _ below => exact below u hu

theorem WellPlaced.children_eq_nil (h : WellPlaced base above t)
    (hfile : ¬t.isDirectory = true) : t.children = [] := by
  cases h with
  | node _ leaf => exact leaf (by simpa [isDirectory, kind] using hfile)

/-! ## What the spots tell -/

theorem exists_of_mem_spots {spot : Spot} (h : spot ∈ t.spots) :
    ∃ below, spot.names = t.name :: below := by
  rw [spots_eq] at h
  rcases List.mem_cons.mp h with rfl | h
  · exact ⟨[], rfl⟩
  · obtain ⟨lower, _, rfl⟩ := List.mem_map.mp h
    exact ⟨lower.names, rfl⟩

theorem ne_nil_of_mem_spotsAll {ts : List TreeNode} {spot : Spot} (h : spot ∈ spotsAll ts) :
    spot.names ≠ [] := by
  rw [spotsAll_eq] at h
  obtain ⟨t, _, hspot⟩ := List.mem_flatMap.mp h
  obtain ⟨below, hbelow⟩ := exists_of_mem_spots hspot
  simp [hbelow]

theorem filter_single (ts : List TreeNode) :
    (spotsAll ts).filter (fun spot => spot.names.length == 1) = ts.map ownSpot := by
  induction ts with
  | nil => rfl
  | cons t ts ih =>
    have hbelow : ((spotsAll t.children).map (Spot.under t.name)).filter
        (fun spot => spot.names.length == 1) = [] := by
      refine List.filter_eq_nil_iff.mpr fun spot hspot => ?_
      obtain ⟨lower, hlower, rfl⟩ := List.mem_map.mp hspot
      simpa [Spot.under] using ne_nil_of_mem_spotsAll hlower
    rw [spotsAll_cons, List.filter_append, ih, spots_eq, List.filter_cons_of_pos (by simp), hbelow]
    rfl

def Spot.below? (name : String) (spot : Spot) : Option Spot :=
  match spot.names with
  | first :: next :: rest => if first = name then some ⟨next :: rest, spot.kind⟩ else none
  | _ => none

theorem below?_under (name first : String) {spot : Spot} (h : spot.names ≠ []) :
    (spot.under first).below? name = if first = name then some spot else none := by
  obtain ⟨names, kind⟩ := spot
  obtain ⟨next, rest, rfl⟩ := List.exists_cons_of_ne_nil h
  rfl

theorem filterMap_below? (name : String) (ts : List TreeNode) :
    (spotsAll ts).filterMap (Spot.below? name) =
      ts.flatMap fun t => if t.name = name then spotsAll t.children else [] := by
  induction ts with
  | nil => rfl
  | cons t ts ih =>
    have hbelow : ((spotsAll t.children).map (Spot.under t.name)).filterMap (Spot.below? name) =
        if t.name = name then spotsAll t.children else [] := by
      rw [List.filterMap_map]
      have hcongr : ∀ spot ∈ spotsAll t.children, (Spot.below? name ∘ Spot.under t.name) spot =
          if t.name = name then some spot else none :=
        fun spot hspot => below?_under name t.name (ne_nil_of_mem_spotsAll hspot)
      rw [List.filterMap_congr hcongr]
      split
      · exact List.filterMap_some
      · simp
    rw [spotsAll_cons, List.filterMap_append, ih, spots_eq, List.filterMap_cons, List.flatMap_cons,
      hbelow]
    rfl

theorem WellPlaced.filterMap_below?_eq {child : TreeNode} (h : WellPlaced base above t)
    (hchild : child ∈ t.children) (hdir : child.isDirectory = true) :
    (spotsAll t.children).filterMap (Spot.below? child.name) = spotsAll child.children := by
  obtain ⟨front, back, hsplit⟩ := List.append_of_mem hchild
  have hdistinct := h.distinct
  rw [hsplit, List.filter_append, List.filter_cons_of_pos hdir, List.map_append, List.map_cons,
    List.nodup_append, List.nodup_cons] at hdistinct
  obtain ⟨_, ⟨hback, _⟩, hfront⟩ := hdistinct
  have hothers : ∀ other ∈ front ++ back,
      (if other.name = child.name then spotsAll other.children else []) = [] := by
    intro other hother
    have hmem : other ∈ t.children := by
      rw [hsplit]
      simp only [List.mem_append, List.mem_cons] at hother ⊢
      tauto
    split
    next hname =>
      have hfile : ¬other.isDirectory = true := by
        intro hodir
        have named {list : List TreeNode} (hin : other ∈ list) :
            other.name ∈ (list.filter isDirectory).map TreeNode.name :=
          List.mem_map_of_mem (List.mem_filter.mpr ⟨hin, hodir⟩)
        rcases List.mem_append.mp hother with hother | hother
        · exact hfront _ (named hother) _ List.mem_cons_self hname
        · exact hback (hname ▸ named hother)
      rw [(h.of_mem hmem).children_eq_nil hfile, spotsAll_nil]
    next => rfl
  obtain ⟨hbefore, hafter⟩ := List.forall_mem_append.mp hothers
  rw [filterMap_below?, hsplit, List.flatMap_append, List.flatMap_cons, if_pos rfl,
    List.flatMap_eq_nil_iff.mpr hbefore, List.flatMap_eq_nil_iff.mpr hafter]
  simp

/-! ## One order -/

def SpotBefore (a b : Spot) : Prop :=
  Before (.node (a.names.headD "") "" a.kind []) (.node (b.names.headD "") "" b.kind [])

theorem map_ownSpot_eq {ts us : List TreeNode} (hts : ts.Pairwise Before) (hus : us.Pairwise Before)
    (hapart : ts.Pairwise Apart) (h : (spotsAll ts).Perm (spotsAll us)) : ts.map ownSpot = us.map ownSpot := by
  have hown : (ts.map ownSpot).Perm (us.map ownSpot) := by
    rw [← filter_single, ← filter_single]
    exact h.filter _
  have hordered : (ts.map ownSpot).Pairwise SpotBefore := List.pairwise_map.mpr hts
  have hordered' : (us.map ownSpot).Pairwise SpotBefore := List.pairwise_map.mpr hus
  refine List.Perm.eq_of_pairwise (fun a b ha hb hab hba => ?_) hordered hordered' hown
  obtain ⟨t, ht, rfl⟩ := List.mem_map.mp ha
  obtain ⟨u, hu, rfl⟩ := List.mem_map.mp (hown.mem_iff.mpr hb)
  obtain ⟨hkind, hname⟩ := Before.same_key hab hba
  rw [eq_of_not_apart hapart ht hu hkind hname]

/-- Trees in order, with siblings told apart in one of them, are the same if their spots are. -/
theorem WellPlaced.eq_of_spots (ht : WellPlaced base above t) (hu : WellPlaced base above u)
    (hto : InOrder t) (huo : InOrder u) (hapart : ToldApart t) (hname : t.name = u.name)
    (hkind : t.kind = u.kind) (h : (spotsAll t.children).Perm (spotsAll u.children)) : t = u := by
  induction ht generalizing u with
  | @node above name path kind children placed leaf distinct below ih =>
    have htree : WellPlaced base above (.node name path kind children) :=
      .node placed leaf distinct below
    have hown : children.map ownSpot = u.children.map ownSpot :=
      map_ownSpot_eq hto.ordered huo.ordered hapart.apart h
    have hplaced' : ∀ other ∈ u.children, WellPlaced base (above ++ [name]) other := by
      obtain rfl : name = u.name := hname
      exact fun other => hu.of_mem
    have hchildren : children = u.children := by
      refine List.ext_getElem (by simpa using congrArg List.length hown) fun i hi hi' => ?_
      have hmem : children[i] ∈ children := List.getElem_mem hi
      have hmem' : u.children[i] ∈ u.children := List.getElem_mem hi'
      have hspot : ownSpot children[i] = ownSpot u.children[i] := by
        simpa [hi, hi'] using congrArg (fun spots => spots[i]?) hown
      have hname' : children[i].name = u.children[i].name := by
        simpa [ownSpot] using congrArg Spot.names hspot
      have hkind' : children[i].kind = u.children[i].kind := congrArg Spot.kind hspot
      refine ih _ hmem (hplaced' _ hmem') (hto.of_mem hmem) (huo.of_mem hmem')
        (hapart.of_mem hmem) hname' hkind' ?_
      by_cases hdir : children[i].isDirectory = true
      · have hdir' : u.children[i].isDirectory = true := by rwa [isDirectory, ← hkind']
        rw [← htree.filterMap_below?_eq hmem hdir, ← hu.filterMap_below?_eq hmem' hdir', hname']
        exact h.filterMap _
      · have hdir' : ¬u.children[i].isDirectory = true := by rwa [isDirectory, ← hkind']
        rw [(below _ hmem).children_eq_nil hdir, (hplaced' _ hmem').children_eq_nil hdir']
    cases hu with
    | node placed' =>
      obtain rfl : name = _ := hname
      obtain rfl : kind = _ := hkind
      rw [hchildren, placed, placed']
      rfl

/-! ## The spots of a built tree -/

theorem spots_perm (hfiles : (t.spots.filter Spot.isFile).Perm (u.spots.filter Spot.isFile))
    (ht : t.directories.Nodup) (hu : u.directories.Nodup)
    (hdirectories : ∀ names, names ∈ t.directories ↔ names ∈ u.directories) :
    t.spots.Perm u.spots := by
  have hback : ∀ v : TreeNode, v.spots.filter (fun spot => !spot.isFile) =
      v.directories.map fun names => ⟨names, .directory⟩ := by
    intro v
    have hspot : ∀ spot ∈ v.spots.filter (fun spot => !spot.isFile),
        ((fun names => ⟨names, .directory⟩) ∘ Spot.names) spot = id spot := by
      intro spot hspot
      have hkind : spot.kind = .directory := by
        simpa [Spot.isFile] using (List.mem_filter.mp hspot).2
      rw [Function.comp_apply, ← hkind]
      rfl
    rw [directories, List.map_map, List.map_congr_left hspot, List.map_id]
  have hsame : (t.spots.filter fun spot => !spot.isFile).Perm
      (u.spots.filter fun spot => !spot.isFile) := by
    rw [hback, hback]
    exact ((List.perm_ext_iff_of_nodup ht hu).mpr hdirectories).map _
  refine (List.filter_append_perm Spot.isFile t.spots).symm.trans ?_
  exact (hfiles.append hsame).trans (List.filter_append_perm Spot.isFile u.spots)

def unsorted (base name : String) (entries : List PathEntry) : TreeNode :=
  insertAll entries (directory name (join base name))

theorem ofEntries?_eq (hne : entries ≠ []) (h : ∀ entry ∈ entries, Rooted base name entry) :
    ofEntries? entries = some (unsorted base name entries).sorted := by
  obtain ⟨entry, rest, rfl⟩ := List.exists_cons_of_ne_nil hne
  rw [ofEntries?_cons, (h _ (shallowest_mem entry rest)).rootOf_eq]
  rfl

theorem wellPlaced_unsorted (h : ∀ entry ∈ entries, Rooted base name entry) :
    WellPlaced base [] (unsorted base name entries) := by
  refine (wellPlaced_directory ?_).insertAll rfl h
  rw [List.nil_append, ofPieces_singleton]

theorem unsorted_keeps (base name : String) (entries : List PathEntry) :
    (unsorted base name entries).name = name ∧ (unsorted base name entries).kind = .directory :=
  insertAll_keeps entries (directory name (join base name))

theorem mem_directories_unsorted {names : List String} :
    names ∈ (unsorted base name entries).directories ↔
      names = [name] ∨ ∃ below, names = name :: below ∧
        ∃ entry ∈ entries, OnTheWay entry (chainOf entry) below := by
  obtain ⟨hname, hkind⟩ := unsorted_keeps base name entries
  rw [mem_directories_iff, spots_eq, hname, hkind, List.mem_cons, List.mem_map]
  refine or_congr (by simp) ⟨?_, ?_⟩
  · rintro ⟨⟨below, kind⟩, hspot, heq⟩
    cases heq
    exact ⟨below, rfl, directory_mem_insertAll_directory.mp hspot⟩
  · rintro ⟨below, rfl, hway⟩
    exact ⟨⟨below, .directory⟩, directory_mem_insertAll_directory.mpr hway, rfl⟩

/-- Whatever is below the root comes from the entries: the files as they are listed, and the
directories on the way to what is listed. -/
theorem unsorted_spots_perm (h : ∀ entry ∈ entries, Rooted base name entry)
    (h' : ∀ entry ∈ others, Rooted base name entry)
    (hfiles : (others.filter fun entry => !entry.isDir && !(chainOf entry).isEmpty).Perm
      (entries.filter fun entry => !entry.isDir && !(chainOf entry).isEmpty))
    (hways : ∀ below, (∃ entry ∈ others, OnTheWay entry (chainOf entry) below) ↔
      ∃ entry ∈ entries, OnTheWay entry (chainOf entry) below) :
    (unsorted base name others).spots.Perm (unsorted base name entries).spots := by
  have hlisted : ∀ list, ((unsorted base name list).spots.filter Spot.isFile).Perm
      (((list.filter fun entry => !entry.isDir && !(chainOf entry).isEmpty).map spotOf).map
        (Spot.under name)) := by
    intro list
    obtain ⟨hname, hkind⟩ := unsorted_keeps base name list
    rw [spots_eq, hname, hkind, List.filter_cons_of_neg (by simp [Spot.isFile]), filter_isFile_under]
    exact (files_insertAll list (directory name (join base name))).map _
  refine spots_perm ?_ ?_ ?_ ?_
  · exact (hlisted others).trans (((hfiles.map _).map _).trans (hlisted entries).symm)
  · exact (wellPlaced_unsorted h').nodup_directories
  · exact (wellPlaced_unsorted h).nodup_directories
  · intro names
    simp only [mem_directories_unsorted, hways]

/-! ## One drawing -/

/-- A directory that leads to a file among the entries. -/
def LeadsToFile (entries : List PathEntry) (entry : PathEntry) : Prop :=
  ∃ file ∈ entries, file.isDir = false ∧
    ∃ below, below ≠ [] ∧ pieces file.relative = pieces entry.relative ++ below

theorem exists_file_onTheWay (h : ∀ entry ∈ entries, entry.isDir = true → LeadsToFile entries entry)
    {entry : PathEntry} (hentry : entry ∈ entries) {directory : List String}
    (hway : OnTheWay entry (chainOf entry) directory) :
    ∃ file ∈ entries, file.isDir = false ∧ OnTheWay file (chainOf file) directory := by
  cases hdir : entry.isDir with
  | false => exact ⟨entry, hentry, hdir, hway⟩
  | true =>
    obtain ⟨file, hfile, hkind, below, hbelow, hpieces⟩ := h entry hentry hdir
    obtain ⟨hne, back, hchain, _⟩ := hway
    have hlonger : chainOf file = directory ++ (back ++ below) := by
      rw [chainOf, hpieces, List.drop_append_of_le_length, ← chainOf, hchain, List.append_assoc]
      exact List.length_pos_iff.mpr (pieces_ne_nil entry.relative)
    refine ⟨file, hfile, hkind, hne, back ++ below, hlonger, fun hnil => ?_⟩
    exact absurd (List.append_eq_nil_iff.mp hnil).2 hbelow

/-- Entries that differ in their order, or in directories that lead to a file. -/
def SameFiles (others entries : List PathEntry) : Prop :=
  others.Perm entries ∨ others.Perm (entries.filter fun entry => !entry.isDir)

namespace SameFiles

theorem subset (h : SameFiles others entries) : others ⊆ entries := by
  rcases h with h | h
  · exact h.subset
  · exact fun entry hentry => List.mem_of_mem_filter (h.subset hentry)

theorem files_perm (h : SameFiles others entries) :
    (others.filter fun entry => !entry.isDir && !(chainOf entry).isEmpty).Perm
      (entries.filter fun entry => !entry.isDir && !(chainOf entry).isEmpty) := by
  rcases h with h | h
  · exact h.filter _
  · refine (h.filter _).trans (.of_eq ?_)
    rw [List.filter_filter]
    refine List.filter_congr fun entry _ => ?_
    cases entry.isDir <;> simp

theorem onTheWay_iff (h : SameFiles others entries)
    (hdirectories : ∀ entry ∈ entries, entry.isDir = true → LeadsToFile entries entry)
    (directory : List String) :
    (∃ entry ∈ others, OnTheWay entry (chainOf entry) directory) ↔
      ∃ entry ∈ entries, OnTheWay entry (chainOf entry) directory := by
  constructor
  · rintro ⟨entry, hentry, hway⟩
    exact ⟨entry, h.subset hentry, hway⟩
  · rintro ⟨entry, hentry, hway⟩
    rcases h with h | h
    · exact ⟨entry, h.mem_iff.mpr hentry, hway⟩
    · obtain ⟨file, hfile, hkind, hway⟩ := exists_file_onTheWay hdirectories hentry hway
      exact ⟨file, h.mem_iff.mpr (List.mem_filter.mpr ⟨hfile, by simp [hkind]⟩), hway⟩

theorem ne_nil (h : SameFiles others entries) (hne : entries ≠ [])
    (hdirectories : ∀ entry ∈ entries, entry.isDir = true → LeadsToFile entries entry) :
    others ≠ [] := by
  obtain ⟨entry, hentry⟩ := List.exists_mem_of_ne_nil entries hne
  rcases h with h | h
  · exact List.ne_nil_of_mem (h.mem_iff.mpr hentry)
  · cases hdir : entry.isDir with
    | false =>
      exact List.ne_nil_of_mem (h.mem_iff.mpr (List.mem_filter.mpr ⟨hentry, by simp [hdir]⟩))
    | true =>
      obtain ⟨file, hfile, hkind, _⟩ := hdirectories entry hentry hdir
      exact List.ne_nil_of_mem (h.mem_iff.mpr (List.mem_filter.mpr ⟨hfile, by simp [hkind]⟩))

end SameFiles

theorem spotsAll_children_perm (hname : t.name = u.name) (hkind : t.kind = u.kind)
    (h : t.spots.Perm u.spots) : (spotsAll t.children).Perm (spotsAll u.children) := by
  have hinjective : Function.Injective (Spot.under t.name) := by
    rintro ⟨names, kind⟩ ⟨names', kind'⟩ heq
    simpa [Spot.under] using heq
  rw [spots_eq, spots_eq, ← hname, ← hkind] at h
  exact (List.map_perm_map_iff hinjective).mp h.cons_inv

theorem sorted_unsorted_eq (h : ∀ entry ∈ entries, Rooted base name entry)
    (hdirectories : ∀ entry ∈ entries, entry.isDir = true → LeadsToFile entries entry)
    (hapart : ToldApart (unsorted base name entries).sorted) (hothers : SameFiles others entries) :
    (unsorted base name entries).sorted = (unsorted base name others).sorted := by
  have h' : ∀ entry ∈ others, Rooted base name entry := fun entry hentry =>
    h entry (hothers.subset hentry)
  obtain ⟨hname, hkind⟩ := unsorted_keeps base name entries
  obtain ⟨hname', hkind'⟩ := unsorted_keeps base name others
  have hnames : (unsorted base name entries).sorted.name = (unsorted base name others).sorted.name := by
    rw [name_sorted, name_sorted, hname, hname']
  have hkinds : (unsorted base name entries).sorted.kind = (unsorted base name others).sorted.kind := by
    rw [kind_sorted, kind_sorted, hkind, hkind']
  have hspots := unsorted_spots_perm h' h hothers.files_perm.symm
    fun below => (hothers.onTheWay_iff hdirectories below).symm
  have hsorted := (spots_sorted _).trans (hspots.trans (spots_sorted _).symm)
  exact (wellPlaced_unsorted h).sorted.eq_of_spots (wellPlaced_unsorted h').sorted
    (inOrder_sorted _) (inOrder_sorted _) hapart hnames hkinds
    (spotsAll_children_perm hnames hkinds hsorted)

/-- The drawing of entries below a base is told by their files, as long as siblings of one kind differ
in their lowercase names: the order in which the entries are listed does not matter to it, nor whether
directories that lead to a file are listed. -/
theorem renderEntries_reordered (h : ∀ entry ∈ entries, Rooted base name entry)
    (hdirectories : ∀ entry ∈ entries, entry.isDir = true → LeadsToFile entries entry)
    (hapart : ∀ tree, ofEntries? entries = some tree → ToldApart tree)
    (hothers : SameFiles others entries) (sizes : Bool) :
    renderEntries sizes others = renderEntries sizes entries := by
  by_cases hne : entries = []
  · have hnil : others = [] := List.subset_nil.mp (hne ▸ hothers.subset)
    rw [hne, hnil]
  · have h' : ∀ entry ∈ others, Rooted base name entry := fun entry hentry =>
      h entry (hothers.subset hentry)
    have htree := ofEntries?_eq hne h
    have htree' := ofEntries?_eq (hothers.ne_nil hne hdirectories) h'
    rw [renderEntries, renderEntries, htree, htree',
      sorted_unsorted_eq h hdirectories (hapart _ htree) hothers]

def mixedEntries : List PathEntry :=
  [.directory "/work/p" "p", .directory "/work/p/b" "p/b",
    .file "/work/p/b/c" "p/b/c" (some 2048), .file "/work/p/b" "p/b" (some 3),
    .file "/work/p/A" "p/A" (some 1)]

theorem rooted_mixedEntries : ∀ entry ∈ mixedEntries, Rooted "/work" "p" entry := by
  rw [mixedEntries]
  simp only [List.forall_mem_cons, List.not_mem_nil, false_implies, implies_true, and_true]
  refine ⟨?_, ?_, ?_, ?_, ?_⟩
  all_goals exact ⟨by decide, by decide, by decide, by decide⟩

theorem render_mixed_entries_reordered :
    (∀ entry ∈ mixedEntries, entry.isDir = true → LeadsToFile mixedEntries entry) ∧
      (∀ tree, ofEntries? mixedEntries = some tree → ToldApart tree) ∧
      renderEntries true mixedEntries.reverse = renderEntries true mixedEntries ∧
      renderEntries true (mixedEntries.filter fun entry => !entry.isDir) =
        renderEntries true mixedEntries := by
  have hdirectories : ∀ entry ∈ mixedEntries, entry.isDir = true → LeadsToFile mixedEntries entry := by
    have hc : pieces "p/b/c" = ["p", "b", "c"] := by decide
    have hb : pieces "p/b" = ["p", "b"] := by decide
    have hp : pieces "p" = ["p"] := by decide
    simp [mixedEntries, LeadsToFile, PathEntry.directory, PathEntry.file, hc, hb, hp]
  have hapart : ∀ tree, ofEntries? mixedEntries = some tree → ToldApart tree := by
    have hall : (ofEntries? mixedEntries).all (decide <| ToldApart ·) = true := by decide
    intro tree htree
    simpa [htree] using hall
  refine ⟨hdirectories, hapart, ?_, ?_⟩
  · exact renderEntries_reordered rooted_mixedEntries hdirectories hapart
      (.inl (List.reverse_perm _)) true
  · exact renderEntries_reordered rooted_mixedEntries hdirectories hapart (.inr .rfl) true

end TreeNode

end SourceBundle
