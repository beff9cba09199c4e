import SourceBundle.FileTree
import SourceBundle.Proofs.NameOrder

/-!
# What a file tree holds

A tree is told by its spots: the names that lead to each node, and the node's kind. Putting an entry
into a tree adds the spot of the entry and of the directories that were missing on the way to it, and
leaves all else as it was; putting children in order adds and loses nothing. So a built tree holds
the files of its entries, each as often as it is listed, and the directories on the way to them.
-/

namespace SourceBundle

namespace TreeNode

/-! ## Spots -/

/-- Where a node is in a tree, and what it is. -/
structure Spot where
  /-- The names that lead to it, its own the last. -/
  names : List String
  kind : TreeKind
  deriving DecidableEq, Repr

def Spot.under (name : String) (spot : Spot) : Spot :=
  ⟨name :: spot.names, spot.kind⟩

mutual

/-- The spots of a tree, told from its own name on. -/
def spots : TreeNode → List Spot
  | .node name _ kind children => ⟨[name], kind⟩ :: (spotsAll children).map (Spot.under name)
termination_by structural t => t

def spotsAll : List TreeNode → List Spot
  | [] => []
  | t :: ts => t.spots ++ spotsAll ts
termination_by structural ts => ts

end

theorem spots_eq (t : TreeNode) :
    t.spots = ⟨[t.name], t.kind⟩ :: (spotsAll t.children).map (Spot.under t.name) := by
  cases t
  rfl

@[simp] theorem spotsAll_append (ts us : List TreeNode) :
    spotsAll (ts ++ us) = spotsAll ts ++ spotsAll us := by
  induction ts with
  | nil => rfl
  | cons t ts ih => simp [spotsAll, ih]

@[simp] theorem spotsAll_cons (t : TreeNode) (ts : List TreeNode) :
    spotsAll (t :: ts) = t.spots ++ spotsAll ts := rfl

@[simp] theorem spotsAll_nil : spotsAll [] = [] := rfl

theorem spotsAll_eq (ts : List TreeNode) : spotsAll ts = ts.flatMap spots := by
  induction ts with
  | nil => rfl
  | cons t ts ih => simp [ih]

@[simp] theorem spots_directory (name path : String) :
    (directory name path).spots = [⟨[name], .directory⟩] := rfl

@[simp] theorem spots_file (name path : String) (size : Nat) :
    (file name path size).spots = [⟨[name], .file size⟩] := rfl

/-! ## Putting in order -/

mutual

theorem spots_sorted : (t : TreeNode) → t.sorted.spots.Perm t.spots
  | .node name path kind children => by
    rw [sorted, spots, spots]
    refine .cons _ (.map _ ?_)
    rw [spotsAll_eq]
    refine ((stableSort_perm precedes _).flatMap_right spots).trans ?_
    rw [← spotsAll_eq]
    exact spotsAll_sortedAll children

theorem spotsAll_sortedAll : (ts : List TreeNode) → (spotsAll (sortedAll ts)).Perm (spotsAll ts)
  | [] => .nil
  | t :: ts => (spots_sorted t).append (spotsAll_sortedAll ts)

end

/-! ## One entry -/

def kindOf (entry : PathEntry) : TreeKind :=
  if entry.isDir then .directory else .file (entry.size.getD 0)

def added (entry : PathEntry) : List String → TreeNode → List Spot
  | [], _ => []
  | [name], t =>
    if entry.isDir && t.children.any (isDirectoryNamed name) then []
    else [⟨[name], kindOf entry⟩]
  | name :: next :: rest, t =>
    match t.children.find? (isDirectoryNamed name) with
    | some child => (added entry (next :: rest) child).map (Spot.under name)
    | none =>
      ⟨[name], .directory⟩ ::
        (added entry (next :: rest)
          (directory name (PathText.ancestor (rest.length + 1) entry.path))).map (Spot.under name)

@[simp] theorem children_withChildren (t : TreeNode) (children : List TreeNode) :
    (t.withChildren children).children = children := rfl

@[simp] theorem children_addChild (t child : TreeNode) :
    (t.addChild child).children = t.children ++ [child] := rfl

theorem updateFirst_append {test : TreeNode → Bool} {f : TreeNode → TreeNode}
    {front back : List TreeNode} {child : TreeNode} (hfront : ∀ t ∈ front, test t = false)
    (hchild : test child = true) :
    updateFirst test f (front ++ child :: back) = front ++ f child :: back := by
  induction front with
  | nil => simp [updateFirst, hchild]
  | cons t front ih =>
    have ht : test t = false := hfront t List.mem_cons_self
    simp [updateFirst, ht, ih fun u hu => hfront u (List.mem_cons_of_mem t hu)]

theorem isDirectoryNamed_iff {name : String} {t : TreeNode} :
    isDirectoryNamed name t = true ↔ t.kind = .directory ∧ t.name = name := by
  simp [isDirectoryNamed, isDirectory]

theorem ensureDirectory_of_any {t : TreeNode} {name path : String}
    (h : t.children.any (isDirectoryNamed name) = true) : t.ensureDirectory name path = t :=
  if_pos h

theorem ensureDirectory_of_not_any {t : TreeNode} {name path : String}
    (h : t.children.any (isDirectoryNamed name) = false) :
    t.ensureDirectory name path = t.addChild (directory name path) :=
  if_neg (by simp [h])

theorem ensureDirectory_keeps (t : TreeNode) (name path : String) :
    (t.ensureDirectory name path).name = t.name ∧ (t.ensureDirectory name path).kind = t.kind := by
  rw [ensureDirectory]
  split <;> exact ⟨rfl, rfl⟩

theorem insert_keeps (entry : PathEntry) (names : List String) (t : TreeNode) :
    (insert entry names t).name = t.name ∧ (insert entry names t).kind = t.kind := by
  fun_cases insert entry names t with
  | case1 => exact ⟨rfl, rfl⟩
  | case2 => exact ensureDirectory_keeps t _ _
  | case3 => exact ⟨rfl, rfl⟩
  | case4 => exact ensureDirectory_keeps t _ _

theorem spotsAll_updateFirst {name : String} {f : TreeNode → TreeNode} {new : List Spot}
    {front back : List TreeNode} {child : TreeNode}
    (hfront : ∀ t ∈ front, isDirectoryNamed name t = false)
    (hchild : isDirectoryNamed name child = true)
    (hf : (f child).name = child.name ∧ (f child).kind = child.kind)
    (hspots : (spotsAll (f child).children).Perm (spotsAll child.children ++ new)) :
    (spotsAll (updateFirst (isDirectoryNamed name) f (front ++ child :: back))).Perm
      (spotsAll (front ++ child :: back) ++ new.map (Spot.under name)) := by
  obtain ⟨_, hname⟩ := isDirectoryNamed_iff.mp hchild
  have hchanged : (f child).spots.Perm (child.spots ++ new.map (Spot.under name)) := by
    rw [spots_eq (f child), spots_eq child, hf.1, hf.2, hname, List.cons_append, ← List.map_append]
    exact (hspots.map _).cons _
  rw [updateFirst_append hfront hchild, spotsAll_append, spotsAll_cons, spotsAll_append,
    spotsAll_cons, List.append_assoc, List.append_assoc]
  refine .append_left _ ((hchanged.append_right _).trans ?_)
  rw [List.append_assoc]
  exact List.perm_append_comm.append_left _

/-- Putting in an entry adds its spot and those of the missing directories on the way to it. -/
theorem spotsAll_insert (entry : PathEntry) (names : List String) (t : TreeNode) :
    (spotsAll (insert entry names t).children).Perm
      (spotsAll t.children ++ added entry names t) := by
  induction names generalizing t with
  | nil => simp [insert, added]
  | cons name rest ih =>
    cases rest with
    | nil =>
      cases hdir : entry.isDir with
      | false => simp [insert, added, hdir, kindOf]
      | true =>
        cases hany : t.children.any (isDirectoryNamed name) with
        | true => simp [insert, added, hdir, hany, ensureDirectory_of_any]
        | false => simp [insert, added, hdir, hany, ensureDirectory_of_not_any, kindOf]
    | cons next rest =>
      rw [insert, added]
      have hkeeps := insert_keeps entry (next :: rest)
      cases hfind : t.children.find? (isDirectoryNamed name) with
      | some child =>
        obtain ⟨hchild, front, back, hsplit, hfront⟩ := List.find?_eq_some_iff_append.mp hfind
        have hany : t.children.any (isDirectoryNamed name) = true :=
          List.any_eq_true.mpr ⟨child, List.mem_of_find?_eq_some hfind, hchild⟩
        rw [ensureDirectory_of_any hany, children_withChildren, hsplit]
        exact spotsAll_updateFirst (by simpa using hfront) hchild (hkeeps child) (ih child)
      | none =>
        have hnone : ∀ u ∈ t.children, isDirectoryNamed name u = false := by
          simpa using List.find?_eq_none.mp hfind
        have hany : t.children.any (isDirectoryNamed name) = false := by
          simpa using hnone
        rw [ensureDirectory_of_not_any hany, children_withChildren, children_addChild]
        refine (spotsAll_updateFirst hnone ?_ (hkeeps _) (ih _)).trans ?_
        · exact isDirectoryNamed_iff.mpr ⟨rfl, rfl⟩
        · simp

/-! ### The file that is added -/

def Spot.isFile (spot : Spot) : Bool :=
  spot.kind != .directory

theorem filter_isFile_under (name : String) (spots : List Spot) :
    (spots.map (Spot.under name)).filter Spot.isFile =
      (spots.filter Spot.isFile).map (Spot.under name) := by
  rw [List.filter_map]
  rfl

theorem filter_isFile_added {entry : PathEntry} {names : List String}
    (hne : entry.isDir = false → names ≠ []) (t : TreeNode) :
    (added entry names t).filter Spot.isFile =
      if entry.isDir then [] else [⟨names, .file (entry.size.getD 0)⟩] := by
  fun_induction added entry names t with
  | case1 =>
    cases hdir : entry.isDir with
    | true => rfl
    | false => exact absurd rfl (hne hdir)
  | case2 name t h =>
    have hdir : entry.isDir = true := (Bool.and_eq_true_iff.mp h).1
    simp [hdir]
  | case3 name t h =>
    cases hdir : entry.isDir with
    | true => simp [kindOf, hdir, Spot.isFile]
    | false => simp [kindOf, hdir, Spot.isFile]
  | case4 name next rest t child hfind ih =>
    rw [filter_isFile_under, ih fun _ => List.cons_ne_nil next rest]
    split <;> rfl
  | case5 name next rest t hfind ih =>
    rw [List.filter_cons_of_neg (by simp [Spot.isFile]), filter_isFile_under,
      ih fun _ => List.cons_ne_nil next rest]
    split <;> rfl

/-! ### The directories that are added -/

/-- A directory that an entry at the end of the names brings with it: one on the way, or itself. -/
def OnTheWay (entry : PathEntry) (names directory : List String) : Prop :=
  directory ≠ [] ∧ ∃ back, names = directory ++ back ∧ (back = [] → entry.isDir = true)

theorem onTheWay_cons {entry : PathEntry} {name : String} {rest directory : List String} :
    OnTheWay entry (name :: rest) directory ↔
      directory = [name] ∧ (rest = [] → entry.isDir = true) ∨
        ∃ below, directory = name :: below ∧ OnTheWay entry rest below := by
  constructor
  · rintro ⟨hne, back, hnames, hback⟩
    obtain ⟨first, below, rfl⟩ := List.exists_cons_of_ne_nil hne
    obtain ⟨rfl, rfl⟩ := List.cons_eq_cons.mp hnames
    by_cases hbelow : below = []
    · subst hbelow
      exact .inl ⟨rfl, hback⟩
    · exact .inr ⟨below, rfl, hbelow, back, rfl, hback⟩
  · rintro (⟨rfl, hrest⟩ | ⟨below, rfl, _, back, rfl, hback⟩)
    · exact ⟨by simp, rest, rfl, hrest⟩
    · exact ⟨by simp, back, rfl, hback⟩

theorem onTheWay_of_mem_added {entry : PathEntry} {names directory : List String} {t : TreeNode}
    (h : ⟨directory, .directory⟩ ∈ added entry names t) : OnTheWay entry names directory := by
  fun_induction added entry names t generalizing directory with
  | case1 => simp at h
  | case2 => simp at h
  | case3 name t hany =>
    obtain ⟨rfl, hkind⟩ := Spot.mk.injEq .. ▸ List.mem_singleton.mp h
    refine onTheWay_cons.mpr (.inl ⟨rfl, fun _ => ?_⟩)
    by_contra hdir
    simp [kindOf, hdir] at hkind
  | case4 name next rest t child hfind ih =>
    obtain ⟨⟨below, kind⟩, hspot, heq⟩ := List.mem_map.mp h
    cases heq
    exact onTheWay_cons.mpr (.inr ⟨below, rfl, ih hspot⟩)
  | case5 name next rest t hfind ih =>
    rcases List.mem_cons.mp h with heq | h
    · cases heq
      exact onTheWay_cons.mpr (.inl ⟨rfl, by simp⟩)
    · obtain ⟨⟨below, kind⟩, hspot, heq⟩ := List.mem_map.mp h
      cases heq
      exact onTheWay_cons.mpr (.inr ⟨below, rfl, ih hspot⟩)

theorem mem_spotsAll_of_child {children : List TreeNode} {child : TreeNode} (h : child ∈ children)
    {spot : Spot} (hspot : spot ∈ child.spots) : spot ∈ spotsAll children := by
  rw [spotsAll_eq]
  exact List.mem_flatMap.mpr ⟨child, h, hspot⟩

theorem mem_spots_of_isDirectoryNamed {name : String} {child : TreeNode}
    (h : isDirectoryNamed name child = true) : ⟨[name], .directory⟩ ∈ child.spots := by
  obtain ⟨hkind, hname⟩ := isDirectoryNamed_iff.mp h
  rw [spots_eq, hkind, hname]
  exact List.mem_cons_self

theorem mem_added_of_onTheWay {entry : PathEntry} {names directory : List String} {t : TreeNode}
    (h : OnTheWay entry names directory) :
    ⟨directory, .directory⟩ ∈ spotsAll t.children ++ added entry names t := by
  fun_induction added entry names t generalizing directory with
  | case1 t =>
    obtain ⟨hne, back, hnames, _⟩ := h
    exact absurd (List.append_eq_nil_iff.mp hnames.symm).1 hne
  | case2 name t hany =>
    obtain ⟨rfl, _⟩ | ⟨below, rfl, hne, back, hnil, _⟩ := onTheWay_cons.mp h
    · obtain ⟨child, hmem, hchild⟩ := List.any_eq_true.mp (Bool.and_eq_true_iff.mp hany).2
      exact List.mem_append_left _
        (mem_spotsAll_of_child hmem (mem_spots_of_isDirectoryNamed hchild))
    · exact absurd (List.append_eq_nil_iff.mp hnil.symm).1 hne
  | case3 name t hany =>
    obtain ⟨rfl, hdir⟩ | ⟨below, rfl, hne, back, hnil, _⟩ := onTheWay_cons.mp h
    · simp [kindOf, hdir]
    · exact absurd (List.append_eq_nil_iff.mp hnil.symm).1 hne
  | case4 name next rest t child hfind ih =>
    have hchild : child ∈ t.children := List.mem_of_find?_eq_some hfind
    have hnamed : isDirectoryNamed name child = true := List.find?_some hfind
    obtain ⟨rfl, _⟩ | ⟨below, rfl, hbelow⟩ := onTheWay_cons.mp h
    · exact List.mem_append_left _
        (mem_spotsAll_of_child hchild (mem_spots_of_isDirectoryNamed hnamed))
    · rcases List.mem_append.mp (ih hbelow) with hold | hnew
      · refine List.mem_append_left _ (mem_spotsAll_of_child hchild ?_)
        rw [spots_eq, (isDirectoryNamed_iff.mp hnamed).2]
        exact List.mem_cons_of_mem _ (List.mem_map.mpr ⟨_, hold, rfl⟩)
      · exact List.mem_append_right _ (List.mem_map.mpr ⟨_, hnew, rfl⟩)
  | case5 name next rest t hfind ih =>
    obtain ⟨rfl, _⟩ | ⟨below, rfl, hbelow⟩ := onTheWay_cons.mp h
    · simp
    · have hnew := ih hbelow
      rw [show (directory name _).children = [] from rfl, spotsAll_nil, List.nil_append] at hnew
      exact List.mem_append_right _ (List.mem_cons_of_mem _ (List.mem_map.mpr ⟨_, hnew, rfl⟩))

/-! ## All entries -/

def chainOf (entry : PathEntry) : List String :=
  (PathText.pieces entry.relative).drop 1

def insertAll (entries : List PathEntry) (t : TreeNode) : TreeNode :=
  entries.foldl (fun t entry => insert entry (chainOf entry) t) t

theorem ofEntries?_cons (entry : PathEntry) (entries : List PathEntry) :
    ofEntries? (entry :: entries) =
      some (insertAll (entry :: entries) (rootOf (shallowest entry entries))).sorted :=
  rfl

theorem ofEntries?_eq_none_iff {entries : List PathEntry} :
    ofEntries? entries = none ↔ entries = [] := by
  cases entries <;> simp [ofEntries?]

theorem insertAll_keeps (entries : List PathEntry) (t : TreeNode) :
    (insertAll entries t).name = t.name ∧ (insertAll entries t).kind = t.kind := by
  induction entries generalizing t with
  | nil => exact ⟨rfl, rfl⟩
  | cons entry entries ih =>
    obtain ⟨hname, hkind⟩ := ih (insert entry (chainOf entry) t)
    obtain ⟨hname', hkind'⟩ := insert_keeps entry (chainOf entry) t
    exact ⟨hname.trans hname', hkind.trans hkind'⟩

def spotOf (entry : PathEntry) : Spot :=
  ⟨chainOf entry, kindOf entry⟩

theorem filter_isFile_insertAll {entries : List PathEntry}
    (h : ∀ entry ∈ entries, entry.isDir = false → chainOf entry ≠ []) (t : TreeNode) :
    ((spotsAll (insertAll entries t).children).filter Spot.isFile).Perm
      ((spotsAll t.children).filter Spot.isFile ++
        (entries.filter fun entry => !entry.isDir).map spotOf) := by
  induction entries generalizing t with
  | nil => simp [insertAll]
  | cons entry entries ih =>
    obtain ⟨hentry, hrest⟩ := List.forall_mem_cons.mp h
    refine (ih hrest (insert entry (chainOf entry) t)).trans ?_
    refine (((spotsAll_insert entry (chainOf entry) t).filter _).append_right _).trans ?_
    rw [List.filter_append, List.append_assoc, filter_isFile_added hentry]
    cases hdir : entry.isDir with
    | true => simp [hdir]
    | false => simp [hdir, spotOf, kindOf]

theorem directory_mem_insertAll {entries : List PathEntry} {t : TreeNode}
    {directory : List String} :
    ⟨directory, .directory⟩ ∈ spotsAll (insertAll entries t).children ↔
      ⟨directory, .directory⟩ ∈ spotsAll t.children ∨
        ∃ entry ∈ entries, OnTheWay entry (chainOf entry) directory := by
  induction entries generalizing t with
  | nil => simp [insertAll]
  | cons entry entries ih =>
    have hstep : ⟨directory, .directory⟩ ∈ spotsAll (insert entry (chainOf entry) t).children ↔
        ⟨directory, .directory⟩ ∈ spotsAll t.children ∨ OnTheWay entry (chainOf entry) directory := by
      rw [(spotsAll_insert entry (chainOf entry) t).mem_iff]
      constructor
      · intro h
        exact (List.mem_append.mp h).imp_right onTheWay_of_mem_added
      · rintro (h | h)
        · exact List.mem_append_left _ h
        · exact mem_added_of_onTheWay h
    rw [insertAll, List.foldl_cons, ← insertAll, ih, hstep, or_assoc, List.exists_mem_cons_iff]

theorem directory_mem_insertAll_directory {entries : List PathEntry} {name path : String}
    {below : List String} :
    ⟨below, .directory⟩ ∈ spotsAll (insertAll entries (directory name path)).children ↔
      ∃ entry ∈ entries, OnTheWay entry (chainOf entry) below := by
  rw [directory_mem_insertAll]
  exact or_iff_right List.not_mem_nil

theorem shallowest_mem (best : PathEntry) (entries : List PathEntry) :
    shallowest best entries ∈ best :: entries := by
  induction entries generalizing best with
  | nil => exact List.mem_singleton.mpr rfl
  | cons entry entries ih =>
    rw [shallowest]
    split
    · exact List.mem_cons_of_mem best (ih entry)
    · rcases List.mem_cons.mp (ih best) with h | h
      · exact List.mem_cons.mpr (.inl h)
      · exact List.mem_cons_of_mem best (List.mem_cons_of_mem entry h)

section

variable {entries : List PathEntry} {tree : TreeNode} {name : String}

theorem spots_ofEntries? (h : ofEntries? entries = some tree)
    (hroot : ∀ entry ∈ entries, PathText.pieces entry.relative = name :: chainOf entry) :
    ∃ path, tree.spots.Perm (⟨[name], .directory⟩ ::
      (spotsAll (insertAll entries (directory name path)).children).map (Spot.under name)) := by
  cases entries with
  | nil => simp [ofEntries?] at h
  | cons entry entries =>
    rw [ofEntries?_cons, Option.some.injEq] at h
    have hname : rootOf (shallowest entry entries) =
        directory name (PathText.ancestor ((shallowest entry entries).depth - 1)
          (shallowest entry entries).path) := by
      rw [rootOf, hroot _ (shallowest_mem entry entries), List.headD_cons]
    rw [hname] at h
    subst h
    refine ⟨PathText.ancestor ((shallowest entry entries).depth - 1)
      (shallowest entry entries).path, (spots_sorted _).trans (.of_eq ?_)⟩
    rw [spots_eq, (insertAll_keeps _ _).1, (insertAll_keeps _ _).2]
    rfl

/-- A built tree has the files of its entries, each as often as it is listed. -/
theorem files_ofEntries? (h : ofEntries? entries = some tree)
    (hroot : ∀ entry ∈ entries, PathText.pieces entry.relative = name :: chainOf entry)
    (hfiles : ∀ entry ∈ entries, entry.isDir = false → chainOf entry ≠ []) :
    (tree.spots.filter Spot.isFile).Perm
      ((entries.filter fun entry => !entry.isDir).map fun entry =>
        ⟨PathText.pieces entry.relative, kindOf entry⟩) := by
  obtain ⟨path, hspots⟩ := spots_ofEntries? h hroot
  refine (hspots.filter _).trans ?_
  rw [List.filter_cons_of_neg (by simp [Spot.isFile]), filter_isFile_under]
  refine ((filter_isFile_insertAll hfiles _).map _).trans (.of_eq ?_)
  rw [List.map_append, List.map_map]
  refine List.map_congr_left fun entry hentry => ?_
  rw [hroot entry (List.mem_of_mem_filter hentry)]
  rfl

/-- A built tree has the directories that its entries bring, and no others. -/
theorem directory_mem_ofEntries? (h : ofEntries? entries = some tree)
    (hroot : ∀ entry ∈ entries, PathText.pieces entry.relative = name :: chainOf entry)
    (hfiles : ∀ entry ∈ entries, entry.isDir = false → chainOf entry ≠ [])
    {names : List String} :
    ⟨names, .directory⟩ ∈ tree.spots ↔
      ∃ entry ∈ entries, OnTheWay entry (PathText.pieces entry.relative) names := by
  obtain ⟨path, hspots⟩ := spots_ofEntries? h hroot
  rw [hspots.mem_iff, List.mem_cons]
  constructor
  · rintro (heq | hmem)
    · cases heq
      obtain ⟨entry, hentry⟩ : ∃ entry, entry ∈ entries := by
        refine List.exists_mem_of_ne_nil entries fun hnil => ?_
        simp [hnil, ofEntries?] at h
      refine ⟨entry, hentry, hroot entry hentry ▸ onTheWay_cons.mpr (.inl ⟨rfl, fun hchain => ?_⟩)⟩
      by_contra hdir
      exact hfiles entry hentry (Bool.eq_false_iff.mpr hdir) hchain
    · obtain ⟨⟨below, kind⟩, hspot, heq⟩ := List.mem_map.mp hmem
      cases heq
      obtain ⟨entry, hentry, hway⟩ := directory_mem_insertAll_directory.mp hspot
      exact ⟨entry, hentry, hroot entry hentry ▸ onTheWay_cons.mpr (.inr ⟨below, rfl, hway⟩)⟩
  · rintro ⟨entry, hentry, hway⟩
    rw [hroot entry hentry] at hway
    obtain ⟨rfl, _⟩ | ⟨below, rfl, hrest⟩ := onTheWay_cons.mp hway
    · exact .inl rfl
    · refine .inr (List.mem_map.mpr ⟨⟨below, .directory⟩, ?_, rfl⟩)
      exact directory_mem_insertAll_directory.mpr ⟨entry, hentry, hrest⟩

end

end TreeNode

end SourceBundle
