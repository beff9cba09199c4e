import SourceBundle.Proofs.PathParents
import SourceBundle.Proofs.TreeBuilding

/-!
# Built trees

What is so of a tree at every depth: each node has the path of the names that lead to it, files have
nothing below them, and no two directories side by side have the same name. Putting an entry below
the base into such a tree keeps it so, and so does putting children in order, which moreover puts
directories first and names in the order of their lowercase forms.
-/

namespace SourceBundle

namespace TreeNode

open PathText

variable {base name path : String} {above names : List String} {entry : PathEntry}
  {t child : TreeNode} {children : List TreeNode}

/-! ## Nodes where they belong -/

/-- Every node stands below the base where its names say, directories of one name are one node, and
files have no children. -/
inductive WellPlaced (base : String) : List String → TreeNode → Prop
  | node {above name path kind children}
      (placed : path = join base (ofPieces (above ++ [name])))
      (leaf : kind ≠ .directory → children = [])
      (distinct : ((children.filter isDirectory).map TreeNode.name).Nodup)
      (below : ∀ child ∈ children, WellPlaced base (above ++ [name]) child) :
      WellPlaced base above (.node name path kind children)

theorem wellPlaced_directory (h : path = join base (ofPieces (above ++ [name]))) :
    WellPlaced base above (directory name path) :=
  .node h (fun _ => rfl) List.nodup_nil (by simp)

theorem wellPlaced_file {size : Nat} (h : path = join base (ofPieces (above ++ [name]))) :
    WellPlaced base above (file name path size) :=
  .node h (fun _ => rfl) List.nodup_nil (by simp)

namespace WellPlaced

theorem of_mem (h : WellPlaced base above t) (hchild : child ∈ t.children) :
    WellPlaced base (above ++ [t.name]) child := by
  cases h with
  | node _ _ _ below => exact below child hchild

theorem distinct (h : WellPlaced base above t) :
    ((t.children.filter isDirectory).map TreeNode.name).Nodup := by
  cases h with
  | node _ _ distinct => exact distinct

theorem withChildren (h : WellPlaced base above t) (hdir : t.kind = .directory)
    (hdistinct : ((children.filter isDirectory).map TreeNode.name).Nodup)
    (hbelow : ∀ child ∈ children, WellPlaced base (above ++ [t.name]) child) :
    WellPlaced base above (t.withChildren children) := by
  cases h with
  | node placed => exact .node placed (fun hkind => absurd hdir hkind) hdistinct hbelow

theorem addChild (h : WellPlaced base above t) (hdir : t.kind = .directory)
    (hchild : WellPlaced base (above ++ [t.name]) child)
    (hnew : child.isDirectory = true → t.children.any (isDirectoryNamed child.name) = false) :
    WellPlaced base above (t.addChild child) := by
  refine h.withChildren hdir ?_ ?_
  · cases hd : child.isDirectory with
    | false => simpa [hd] using h.distinct
    | true =>
      have hnot : child.name ∉ (t.children.filter isDirectory).map TreeNode.name := by
        intro hmem
        obtain ⟨u, hu, hname⟩ := List.mem_map.mp hmem
        obtain ⟨hu, hudir⟩ := List.mem_filter.mp hu
        have hany : t.children.any (isDirectoryNamed child.name) = true :=
          List.any_eq_true.mpr ⟨u, hu, by simp [isDirectoryNamed, hudir, hname]⟩
        simp [hnew hd] at hany
      have hsingle : ([child].filter isDirectory).map TreeNode.name = [child.name] := by simp [hd]
      rw [List.filter_append, List.map_append, hsingle, ← List.concat_eq_append]
      exact List.Nodup.concat hnot h.distinct
  · intro u hu
    rcases List.mem_append.mp hu with hu | hu
    · exact h.of_mem hu
    · exact List.mem_singleton.mp hu ▸ hchild

theorem ensureDirectory (h : WellPlaced base above t) (hdir : t.kind = .directory)
    (hpath : path = join base (ofPieces (above ++ [t.name, name]))) :
    WellPlaced base above (t.ensureDirectory name path) := by
  cases hany : t.children.any (isDirectoryNamed name) with
  | true => rwa [ensureDirectory_of_any hany]
  | false =>
    rw [ensureDirectory_of_not_any hany]
    exact h.addChild hdir (wellPlaced_directory (by simpa using hpath)) fun _ => hany

theorem updateFirst {f : TreeNode → TreeNode} (h : WellPlaced base above t)
    (hdir : t.kind = .directory) (hany : t.children.any (isDirectoryNamed name) = true)
    (hkeeps : ∀ child, (f child).name = child.name ∧ (f child).kind = child.kind)
    (hf : ∀ child, WellPlaced base (above ++ [t.name]) child → isDirectoryNamed name child = true →
      WellPlaced base (above ++ [t.name]) (f child)) :
    WellPlaced base above
      (t.withChildren (TreeNode.updateFirst (isDirectoryNamed name) f t.children)) := by
  obtain ⟨child, hfind⟩ := Option.isSome_iff_exists.mp (List.find?_isSome.mpr (List.any_eq_true.mp hany))
  obtain ⟨hchild, front, back, hsplit, hfront⟩ := List.find?_eq_some_iff_append.mp hfind
  have hmem : child ∈ t.children := List.mem_of_find?_eq_some hfind
  have hsame : (f child).isDirectory = child.isDirectory := by
    rw [isDirectory, isDirectory, (hkeeps child).2]
  rw [hsplit, updateFirst_append (by simpa using hfront) hchild]
  refine h.withChildren hdir ?_ ?_
  · have hdistinct := h.distinct
    rw [hsplit] at hdistinct
    simpa [List.filter_cons, hsame, apply_ite (List.map TreeNode.name), (hkeeps child).1] using hdistinct
  · intro u hu
    simp only [List.mem_append, List.mem_cons] at hu
    have hothers : u = child ∨ u ∈ front ∨ u ∈ back → WellPlaced base (above ++ [t.name]) u := by
      intro hu
      refine h.of_mem ?_
      rw [hsplit]
      simp only [List.mem_append, List.mem_cons]
      tauto
    rcases hu with hu | rfl | hu
    · exact hothers (.inr (.inl hu))
    · exact hf child (h.of_mem hmem) hchild
    · exact hothers (.inr (.inr hu))

/-- Putting an entry below the base into a well placed tree keeps it well placed. -/
theorem insert (h : WellPlaced base above t) (hdir : t.kind = .directory)
    (hpath : entry.path = join base (ofPieces (above ++ t.name :: names)))
    (hslash : ∀ name ∈ above ++ t.name :: names, '/' ∉ name.toList)
    (hsteps : ∀ name ∈ above ++ t.name :: names, isTrivial name = false) :
    WellPlaced base above (TreeNode.insert entry names t) := by
  induction names generalizing t above with
  | nil => exact h
  | cons name rest ih =>
    cases rest with
    | nil =>
      rw [TreeNode.insert]
      split
      · exact h.ensureDirectory hdir hpath
      · exact h.addChild hdir (wellPlaced_file (by simpa using hpath)) fun hfile => by cases hfile
    | cons next rest =>
      have hway : ancestor (rest.length + 1) entry.path =
          join base (ofPieces (above ++ [t.name, name])) := by
        have hsplit : above ++ t.name :: name :: next :: rest =
            (above ++ [t.name]) ++ name :: next :: rest := by simp
        rw [hsplit] at hpath hslash hsteps
        rw [hpath]
        simpa using ancestor_join base (above ++ [t.name]) hslash hsteps
      have hensured := h.ensureDirectory hdir hway
      obtain ⟨hname, hkind⟩ :=
        ensureDirectory_keeps t name (ancestor (rest.length + 1) entry.path)
      rw [TreeNode.insert]
      refine hensured.updateFirst (hkind.trans hdir) ?_ (insert_keeps entry (next :: rest)) ?_
      · cases hany : t.children.any (isDirectoryNamed name) with
        | true => rwa [ensureDirectory_of_any hany]
        | false =>
          rw [ensureDirectory_of_not_any hany]
          simp [isDirectoryNamed_iff, directory, kind, TreeNode.name]
      · intro child hchild hnamed
        obtain ⟨hcdir, hcname⟩ := isDirectoryNamed_iff.mp hnamed
        rw [hname] at hchild ⊢
        refine ih hchild hcdir ?_ ?_ ?_
        · simpa [hcname] using hpath
        · simpa [hcname] using hslash
        · simpa [hcname] using hsteps

end WellPlaced

/-! ## Children in order -/

/-- Directories come before files, and else names in the order of their lowercase forms. -/
def Before (a b : TreeNode) : Prop :=
  a.isDirectory = true ∧ b.isDirectory = false ∨
    a.isDirectory = b.isDirectory ∧ sortKey a.name ≤ sortKey b.name

theorem precedes_iff {a b : TreeNode} : precedes a b = true ↔ Before a b := by
  unfold precedes Before isDirectory
  cases a.kind <;> cases b.kind <;> simp [bytesLe_iff]

theorem Before.total (a b : TreeNode) : Before a b ∨ Before b a := by
  unfold Before
  cases a.isDirectory <;> cases b.isDirectory <;> simp [List.le_total]

theorem Before.trans {a b c : TreeNode} (hab : Before a b) (hbc : Before b c) : Before a c := by
  rcases hab with ⟨ha, hb⟩ | ⟨ha, hle⟩
  · rcases hbc with ⟨hb', _⟩ | ⟨hb', _⟩
    · simp [hb] at hb'
    · exact .inl ⟨ha, hb' ▸ hb⟩
  · rcases hbc with ⟨hb, hc⟩ | ⟨hb, hle'⟩
    · exact .inl ⟨ha.trans hb, hc⟩
    · exact .inr ⟨ha.trans hb, List.le_trans hle hle'⟩

theorem Before.same_key {a b : TreeNode} (hab : Before a b) (hba : Before b a) :
    a.isDirectory = b.isDirectory ∧ sortKey a.name = sortKey b.name := by
  rcases hab with ⟨ha, hb⟩ | ⟨hkind, hle⟩
  · rcases hba with ⟨hb', _⟩ | ⟨hkind, _⟩
    · simp [hb] at hb'
    · simp [ha, hb] at hkind
  · rcases hba with ⟨hb, ha⟩ | ⟨_, hle'⟩
    · simp [ha, hb] at hkind
    · exact ⟨hkind, List.le_antisymm hle hle'⟩

/-- The children of every node are in order. -/
inductive InOrder : TreeNode → Prop
  | node {name path kind children} (ordered : children.Pairwise Before)
      (below : ∀ child ∈ children, InOrder child) : InOrder (.node name path kind children)

theorem sortedAll_eq (ts : List TreeNode) : sortedAll ts = ts.map sorted := by
  induction ts with
  | nil => rfl
  | cons t ts ih => rw [sortedAll, ih, List.map_cons]

theorem pairwise_before (ts : List TreeNode) : (stableSort precedes ts).Pairwise Before := by
  refine (pairwise_stableSort ?_ ?_ ts).imp precedes_iff.mp
  · simpa only [precedes_iff] using Before.total
  · intro a b c
    simpa only [precedes_iff] using Before.trans

mutual

theorem inOrder_sorted : (t : TreeNode) → t.sorted.InOrder
  | .node name path kind children => by
    rw [sorted]
    refine .node (pairwise_before _) fun child hchild => ?_
    exact inOrder_sortedAll children child ((stableSort_perm precedes _).mem_iff.mp hchild)

theorem inOrder_sortedAll : (ts : List TreeNode) → ∀ t ∈ sortedAll ts, t.InOrder
  | [] => by simp [sortedAll]
  | t :: ts => by
    rw [sortedAll, List.forall_mem_cons]
    exact ⟨inOrder_sorted t, inOrder_sortedAll ts⟩

end

theorem kind_sorted (t : TreeNode) : t.sorted.kind = t.kind := by
  cases t
  rfl

theorem isDirectory_sorted (t : TreeNode) : t.sorted.isDirectory = t.isDirectory := by
  rw [isDirectory, kind_sorted, isDirectory]

theorem name_sorted (t : TreeNode) : t.sorted.name = t.name := by
  cases t
  rfl

theorem WellPlaced.sorted (h : WellPlaced base above t) : WellPlaced base above t.sorted := by
  induction h with
  | @node above name path kind children placed leaf distinct below ih =>
    have hperm : (stableSort precedes (children.map TreeNode.sorted)).Perm
        (children.map TreeNode.sorted) := stableSort_perm precedes _
    rw [TreeNode.sorted, sortedAll_eq]
    refine .node placed (fun hkind => by rw [leaf hkind]; rfl) ?_ ?_
    · refine ((hperm.filter _).map _).nodup_iff.mpr ?_
      simpa [List.filter_map, Function.comp_def, isDirectory_sorted, name_sorted] using distinct
    · intro child hchild
      obtain ⟨u, hu, rfl⟩ := List.mem_map.mp (hperm.mem_iff.mp hchild)
      exact ih u hu

/-! ## Directories are met once -/

def directories (t : TreeNode) : List (List String) :=
  (t.spots.filter fun spot => !spot.isFile).map Spot.names

theorem directories_eq (t : TreeNode) :
    t.directories = (if t.isDirectory then [[t.name]] else []) ++
      (t.children.flatMap directories).map (t.name :: ·) := by
  have hbelow : ∀ children : List TreeNode,
      (((spotsAll children).map (Spot.under t.name)).filter fun spot => !spot.isFile).map Spot.names =
        (children.flatMap directories).map (t.name :: ·) := by
    intro children
    rw [spotsAll_eq, List.filter_map, List.map_map, List.filter_flatMap, List.map_flatMap,
      List.map_flatMap]
    simp only [directories, List.map_map]
    rfl
  have hown : (Spot.mk [t.name] t.kind).isFile = !t.isDirectory := rfl
  rw [directories, spots_eq, List.filter_cons, hown]
  cases t.isDirectory <;> simp [hbelow]

theorem mem_directories_iff {names : List String} :
    names ∈ t.directories ↔ ⟨names, .directory⟩ ∈ t.spots := by
  rw [directories, List.mem_map]
  constructor
  · rintro ⟨⟨_, kind⟩, hspot, rfl⟩
    obtain ⟨hmem, hfile⟩ := List.mem_filter.mp hspot
    have hkind : kind = .directory := by simpa [Spot.isFile] using hfile
    exact hkind ▸ hmem
  · intro hmem
    exact ⟨_, List.mem_filter.mpr ⟨hmem, rfl⟩, rfl⟩

theorem exists_of_mem_directories {names : List String} (h : names ∈ t.directories) :
    ∃ below, names = t.name :: below := by
  rw [directories_eq] at h
  rcases List.mem_append.mp h with h | h
  · split at h
    · exact ⟨[], List.mem_singleton.mp h⟩
    · simp at h
  · obtain ⟨below, _, rfl⟩ := List.mem_map.mp h
    exact ⟨below, rfl⟩

theorem WellPlaced.nodup_directories (h : WellPlaced base above t) : t.directories.Nodup := by
  induction h with
  | @node above name path kind children placed leaf distinct below ih =>
    have hchildren : (children.flatMap directories).Nodup := by
      refine List.nodup_flatMap.mpr ⟨ih, ?_⟩
      have hnames : children.Pairwise fun a b =>
          a.isDirectory = true → b.isDirectory = true → a.name ≠ b.name := by
        rw [List.Nodup, List.pairwise_map, List.pairwise_filter] at distinct
        exact distinct
      refine hnames.imp_of_mem fun {a b} ha hb hne names hna hnb => ?_
      have hdir : ∀ {u : TreeNode}, u ∈ children → names ∈ u.directories →
          u.isDirectory = true := by
        intro u hu hnames
        by_contra hfile
        have hplaced := below u hu
        cases hplaced with
        | node _ leaf =>
          have hempty := leaf (by simpa [isDirectory, TreeNode.kind] using hfile)
          subst hempty
          rw [directories_eq, if_neg hfile] at hnames
          simp [TreeNode.children] at hnames
      obtain ⟨front, hfront⟩ := exists_of_mem_directories hna
      obtain ⟨back, hback⟩ := exists_of_mem_directories hnb
      exact hne (hdir ha hna) (hdir hb hnb) (List.cons.inj (hfront.symm.trans hback)).1
    have hnil : [] ∉ children.flatMap directories := by
      intro hmem
      obtain ⟨u, _, hu⟩ := List.mem_flatMap.mp hmem
      obtain ⟨_, hcons⟩ := exists_of_mem_directories hu
      cases hcons
    have hbelow : ((children.flatMap directories).map (name :: ·)).Nodup :=
      hchildren.map fun _ _ heq => (List.cons.inj heq).2
    rw [directories_eq]
    split
    · rw [List.singleton_append, List.nodup_cons]
      refine ⟨fun hmem => ?_, hbelow⟩
      obtain ⟨below, hbelow, heq⟩ := List.mem_map.mp hmem
      exact hnil ((List.cons.inj heq).2 ▸ hbelow)
    · exact hbelow

/-! ## From entries -/

/-- An entry below a base: its relative path begins with the given name and is made of steps, and its
path and depth go with it. -/
structure Rooted (base name : String) (entry : PathEntry) : Prop where
  first : (pieces entry.relative).head? = some name
  steps : ∀ piece ∈ pieces entry.relative, piece ≠ "" ∧ piece ≠ "."
  path : entry.path = join base entry.relative
  depth : entry.depth = (pieces entry.relative).length

namespace Rooted

theorem pieces_eq (h : Rooted base name entry) :
    pieces entry.relative = name :: chainOf entry := by
  obtain ⟨rest, hrest⟩ := List.head?_eq_some_iff.mp h.first
  rw [chainOf, hrest]
  rfl

theorem not_trivial (h : Rooted base name entry) :
    ∀ piece ∈ name :: chainOf entry, isTrivial piece = false := by
  intro piece hpiece
  rw [← h.pieces_eq] at hpiece
  simpa [isTrivial] using h.steps piece hpiece

theorem no_slash (h : Rooted base name entry) :
    ∀ piece ∈ name :: chainOf entry, '/' ∉ piece.toList := by
  intro piece hpiece
  rw [← h.pieces_eq] at hpiece
  exact no_slash_of_mem_pieces hpiece

theorem path_eq (h : Rooted base name entry) :
    entry.path = join base (ofPieces (name :: chainOf entry)) := by
  rw [← h.pieces_eq, ofPieces_pieces, h.path]

theorem rootOf_eq (h : Rooted base name entry) : rootOf entry = directory name (join base name) := by
  have hroot := ancestor_join base [] h.no_slash h.not_trivial
  have hdepth : entry.depth - 1 = (chainOf entry).length := by
    rw [h.depth, h.pieces_eq, List.length_cons, Nat.add_sub_cancel]
  rw [List.nil_append, List.nil_append, ofPieces_singleton, ← h.path_eq, ← hdepth] at hroot
  rw [rootOf, h.pieces_eq, List.headD_cons, hroot]

end Rooted

variable {entries : List PathEntry}

theorem WellPlaced.insertAll (h : WellPlaced base [] t) (hdir : t.kind = .directory)
    (hentries : ∀ entry ∈ entries, Rooted base t.name entry) :
    WellPlaced base [] (TreeNode.insertAll entries t) := by
  induction entries generalizing t with
  | nil => exact h
  | cons entry entries ih =>
    obtain ⟨hentry, hrest⟩ := List.forall_mem_cons.mp hentries
    obtain ⟨hname, hkind⟩ := insert_keeps entry (chainOf entry) t
    have hinsert := h.insert hdir hentry.path_eq hentry.no_slash hentry.not_trivial
    exact ih hinsert (hkind.trans hdir) (hname ▸ hrest)

theorem insertAll_filter (entries : List PathEntry) (t : TreeNode) :
    insertAll (entries.filter fun entry => !(chainOf entry).isEmpty) t = insertAll entries t := by
  induction entries generalizing t with
  | nil => rfl
  | cons entry entries ih =>
    rw [List.filter_cons]
    split
    next => exact ih _
    next hempty =>
      have hchain : chainOf entry = [] := by simpa using hempty
      rw [ih, insertAll, insertAll, List.foldl_cons, hchain, insert]

theorem files_insertAll (entries : List PathEntry) (t : TreeNode) :
    ((spotsAll (insertAll entries t).children).filter Spot.isFile).Perm
      ((spotsAll t.children).filter Spot.isFile ++
        (entries.filter fun entry => !entry.isDir && !(chainOf entry).isEmpty).map spotOf) := by
  have hbelow : ∀ entry ∈ entries.filter fun entry => !(chainOf entry).isEmpty,
      entry.isDir = false → chainOf entry ≠ [] := by
    intro entry hentry _
    simpa using (List.mem_filter.mp hentry).2
  have hfiles := filter_isFile_insertAll hbelow t
  rwa [insertAll_filter, List.filter_filter] at hfiles

theorem files_below_root (path : String) (h : ∀ entry ∈ entries, Rooted base name entry) :
    (((spotsAll (insertAll entries (directory name path)).children).filter Spot.isFile).map
        (Spot.under name)).Perm
      ((entries.filter fun entry => !entry.isDir && 2 ≤ (pieces entry.relative).length).map
        fun entry => ⟨pieces entry.relative, .file (entry.size.getD 0)⟩) := by
  have hlisted : (entries.filter fun entry => !entry.isDir && !(chainOf entry).isEmpty) =
      entries.filter fun entry => !entry.isDir && 2 ≤ (pieces entry.relative).length := by
    refine List.filter_congr fun entry hentry => ?_
    rw [(h entry hentry).pieces_eq]
    cases chainOf entry <;> simp
  refine ((files_insertAll entries (directory name path)).map _).trans (.of_eq ?_)
  rw [List.map_append, List.map_map, hlisted]
  refine List.map_congr_left fun entry hentry => ?_
  have hfile : entry.isDir = false := by
    simpa using (Bool.and_eq_true_iff.mp (List.mem_filter.mp hentry).2).1
  rw [(h entry (List.mem_of_mem_filter hentry)).pieces_eq]
  simp [Spot.under, spotOf, kindOf, hfile]

/-- The directories below the root are those that entries bring. -/
theorem directory_below_root_iff (path : String) (h : ∀ entry ∈ entries, Rooted base name entry)
    (names : List String) (hlength : 2 ≤ names.length) :
    ⟨names, .directory⟩ ∈
        (spotsAll (insertAll entries (directory name path)).children).map (Spot.under name) ↔
      ∃ entry ∈ entries, OnTheWay entry (pieces entry.relative) names := by
  rw [List.mem_map]
  constructor
  · rintro ⟨⟨below, kind⟩, hspot, heq⟩
    cases heq
    obtain ⟨entry, hentry, hway⟩ := directory_mem_insertAll_directory.mp hspot
    have hpieces := (h entry hentry).pieces_eq
    exact ⟨entry, hentry, hpieces ▸ onTheWay_cons.mpr (.inr ⟨below, rfl, hway⟩)⟩
  · rintro ⟨entry, hentry, hway⟩
    rw [(h entry hentry).pieces_eq] at hway
    obtain ⟨rfl, _⟩ | ⟨below, rfl, hrest⟩ := onTheWay_cons.mp hway
    · simp at hlength
    · exact ⟨⟨below, .directory⟩,
        directory_mem_insertAll_directory.mpr ⟨entry, hentry, hrest⟩, rfl⟩

/-- Entries below a base make a tree of that name: its files are the files of the entries below the
root, each as often as it is listed; its directories below the root are those that are listed or
lead to what is, each once; every node has the path of its names below the base, and files have
nothing below them; and the children of every node are in order. -/
theorem ofEntries?_arranged (hne : entries ≠ []) (h : ∀ entry ∈ entries, Rooted base name entry) :
    ∃ tree, ofEntries? entries = some tree ∧ tree.name = name ∧ tree.kind = .directory ∧
      (tree.spots.filter Spot.isFile).Perm
        ((entries.filter fun entry => !entry.isDir && 2 ≤ (pieces entry.relative).length).map
          fun entry => ⟨pieces entry.relative, .file (entry.size.getD 0)⟩) ∧
      tree.directories.Nodup ∧
      (∀ names, 2 ≤ names.length → (names ∈ tree.directories ↔
        ∃ entry ∈ entries, OnTheWay entry (pieces entry.relative) names)) ∧
      WellPlaced base [] tree ∧ InOrder tree := by
  obtain ⟨entry, rest, rfl⟩ := List.exists_cons_of_ne_nil hne
  have hroot := (h _ (shallowest_mem entry rest)).rootOf_eq
  obtain ⟨hname, hkind⟩ := insertAll_keeps (entry :: rest) (directory name (join base name))
  have hplaced : WellPlaced base [] (insertAll (entry :: rest) (directory name (join base name))) := by
    refine (wellPlaced_directory ?_).insertAll rfl h
    rw [List.nil_append, ofPieces_singleton]
  have hfiles := files_below_root (join base name) h
  have hdirectories := directory_below_root_iff (join base name) h
  refine ⟨_, ofEntries?_cons entry rest, ?_⟩
  rw [hroot]
  generalize insertAll (entry :: rest) (directory name (join base name)) = built at *
  have hspots : built.sorted.spots.Perm
      (⟨[name], .directory⟩ :: (spotsAll built.children).map (Spot.under name)) := by
    refine (spots_sorted built).trans (.of_eq ?_)
    rw [spots_eq, hname, hkind]
    rfl
  refine ⟨(name_sorted built).trans hname, (kind_sorted built).trans hkind, ?_,
    hplaced.sorted.nodup_directories, ?_, hplaced.sorted, inOrder_sorted built⟩
  · refine (hspots.filter _).trans ?_
    rwa [List.filter_cons_of_neg (by simp [Spot.isFile]), filter_isFile_under]
  · intro names hlength
    rw [mem_directories_iff, hspots.mem_iff, List.mem_cons, ← hdirectories names hlength]
    refine or_iff_right fun heq => ?_
    cases heq
    simp at hlength

def listedEntries : List PathEntry :=
  [.file "/work/p/a/b" "p/a/b" (some 3), .file "/work/p/a" "p/a" (some 1),
    .directory "/work/p" "p"]

theorem rooted_listedEntries : ∀ entry ∈ listedEntries, Rooted "/work" "p" entry := by
  rw [listedEntries]
  simp only [List.forall_mem_cons, List.not_mem_nil, false_implies, implies_true, and_true]
  refine ⟨?_, ?_, ?_⟩
  · exact ⟨by decide, by decide, by decide, by decide⟩
  · exact ⟨by decide, by decide, by decide, by decide⟩
  · exact ⟨by decide, by decide, by decide, by decide⟩

theorem listed_entries_arranged :
    ∃ tree, ofEntries? listedEntries = some tree ∧ tree.name = "p" ∧ tree.kind = .directory ∧
      (tree.spots.filter Spot.isFile).Perm
        ((listedEntries.filter
          fun entry => !entry.isDir && 2 ≤ (pieces entry.relative).length).map
            fun entry => ⟨pieces entry.relative, .file (entry.size.getD 0)⟩) ∧
      tree.directories.Nodup ∧
      (∀ names, 2 ≤ names.length → (names ∈ tree.directories ↔
        ∃ entry ∈ listedEntries, OnTheWay entry (pieces entry.relative) names)) ∧
      WellPlaced "/work" [] tree ∧ InOrder tree :=
  ofEntries?_arranged (List.cons_ne_nil _ _) rooted_listedEntries

end TreeNode

end SourceBundle
