import SourceBundle.Proofs.FollowedPaths
import SourceBundle.Proofs.NameOrder

/-!
# The leaves that a walk meets

A walk that follows no links meets every file and every link below its directory, down to its
limit, once and in the order of their paths. So what it meets does not depend on the order in which
directories list their entries.
-/

namespace SourceBundle

namespace Walk

/-! ## Leaves of a tree -/

def Leaf.under (name : String) (leaf : Leaf) : Leaf :=
  ⟨name :: leaf.names, leaf.size⟩

def Leaf.behind (names : List String) (leaf : Leaf) : Leaf :=
  ⟨names ++ leaf.names, leaf.size⟩

/-- The leaves of a tree at most `depth` names down, in the order of a walk. A node that is no
directory is its own leaf. -/
def leavesOf : Nat → DiskNode → List Leaf
  | _, .file bytes => [⟨[], bytes.length⟩]
  | _, .link target => [⟨[], (PathText.bytes target).length⟩]
  | 0, .directory _ => []
  | depth + 1, .directory es =>
    (inNameOrder es).flatMap fun e => (leavesOf depth e.2).map (Leaf.under e.1)

theorem leavesOf_leaf {node : DiskNode} {size : Nat} (depth : Nat) (h : node.leafSize? = some size) :
    leavesOf depth node = [⟨[], size⟩] := by
  cases node with
  | file bytes => cases depth <;> simp_all [leavesOf, DiskNode.leafSize?]
  | link target => cases depth <;> simp_all [leavesOf, DiskNode.leafSize?]
  | directory => simp [DiskNode.leafSize?] at h

theorem get?_directory_cons {es : List (String × DiskNode)} (hp : (DiskNode.directory es).Proper)
    {name : String} {rest : List String} {size : Nat} :
    ((DiskNode.directory es).get? (name :: rest)).bind DiskNode.leafSize? = some size ↔
      ∃ child, (name, child) ∈ es ∧ (child.get? rest).bind DiskNode.leafSize? = some size := by
  rw [DiskNode.get?, Option.bind_assoc, Option.bind_eq_some_iff]
  exact exists_congr fun child => and_congr_left fun _ => hp.child?_iff

theorem mem_leavesOf_leaf {depth : Nat} {node : DiskNode} {size : Nat}
    (h : node.leafSize? = some size) {leaf : Leaf} :
    leaf ∈ leavesOf depth node ↔
      leaf.names.length ≤ depth ∧
        (node.get? leaf.names).bind DiskNode.leafSize? = some leaf.size := by
  obtain ⟨names, n⟩ := leaf
  rw [leavesOf_leaf depth h, List.mem_singleton, Leaf.mk.injEq]
  cases names with
  | nil => simp [DiskNode.get?, h, eq_comm]
  | cons name rest =>
    have hchild : node.child? name = none := by
      by_contra hc
      obtain ⟨child, hchild⟩ := Option.ne_none_iff_exists'.mp hc
      rw [DiskNode.leafSize?_eq_none_iff.mpr (DiskNode.isDirectory_of_child? hchild)] at h
      cases h
    simp [DiskNode.get?, hchild]

theorem mem_leavesOf_iff {depth : Nat} {node : DiskNode} (hp : node.Proper) {leaf : Leaf} :
    leaf ∈ leavesOf depth node ↔
      leaf.names.length ≤ depth ∧
        (node.get? leaf.names).bind DiskNode.leafSize? = some leaf.size := by
  induction depth generalizing node leaf with
  | zero =>
    cases hsize : node.leafSize? with
    | some n => exact mem_leavesOf_leaf hsize
    | none =>
      obtain ⟨es, rfl⟩ := DiskNode.exists_entries (DiskNode.leafSize?_eq_none_iff.mp hsize)
      simp only [leavesOf, List.not_mem_nil, false_iff]
      rintro ⟨hlength, hget⟩
      rw [List.length_eq_zero_iff.mp (Nat.le_zero.mp hlength), DiskNode.get?, Option.bind_some,
        hsize] at hget
      cases hget
  | succ depth ih =>
    cases hsize : node.leafSize? with
    | some n => exact mem_leavesOf_leaf hsize
    | none =>
      obtain ⟨es, rfl⟩ := DiskNode.exists_entries (DiskNode.leafSize?_eq_none_iff.mp hsize)
      have hbelow : ∀ e ∈ es, e.2.Proper := by
        cases hp with
        | directory _ _ below => exact below
      obtain ⟨names, size⟩ := leaf
      rw [leavesOf, List.mem_flatMap]
      cases names with
      | nil => simp [DiskNode.get?, DiskNode.leafSize?, Leaf.under]
      | cons name rest =>
        rw [get?_directory_cons hp, List.length_cons, Nat.add_le_add_iff_right]
        constructor
        · rintro ⟨e, he, hmem⟩
          obtain ⟨leaf, hleaf, heq⟩ := List.mem_map.mp hmem
          have hes := (inNameOrder_perm es).mem_iff.mp he
          obtain ⟨hlength, hget⟩ := (ih (hbelow e hes)).mp hleaf
          cases heq
          exact ⟨hlength, e.2, hes, hget⟩
        · rintro ⟨hlength, child, hmem, hget⟩
          have hleaf : (⟨rest, size⟩ : Leaf) ∈ leavesOf depth child :=
            (ih (hbelow _ hmem)).mpr ⟨hlength, hget⟩
          exact ⟨_, (inNameOrder_perm es).mem_iff.mpr hmem, List.mem_map.mpr ⟨_, hleaf, rfl⟩⟩

theorem pairwise_leavesOf {depth : Nat} {node : DiskNode} (hp : node.Proper) :
    (leavesOf depth node).Pairwise fun a b => pathBytes a.names < pathBytes b.names := by
  induction depth generalizing node with
  | zero =>
    cases node <;> simp [leavesOf]
  | succ depth ih =>
    cases node with
    | file => simp [leavesOf]
    | link => simp [leavesOf]
    | directory es =>
      cases hp with
      | directory names proper below =>
        rw [leavesOf, List.pairwise_flatMap]
        constructor
        · intro e he
          have hbelow := ih (below e ((inNameOrder_perm es).mem_iff.mp he))
          refine List.pairwise_map.mpr (hbelow.imp fun {a b} hab => ?_)
          simpa [Leaf.under, pathBytes] using hab
        · refine (pairwise_inNameOrder names).imp fun {e e'} hlt => ?_
          intro x hx y hy
          obtain ⟨a, _, rfl⟩ := List.mem_map.mp hx
          obtain ⟨b, _, rfl⟩ := List.mem_map.mp hy
          exact List.cons_lt_cons_iff.mpr (.inl hlt)

/-! ## The walk -/

@[simp] theorem Leaf.behind_nil (leaf : Leaf) : leaf.behind [] = leaf := rfl

@[simp] theorem Leaf.behind_under (names : List String) (name : String) (leaf : Leaf) :
    (leaf.under name).behind names = leaf.behind (names ++ [name]) := by
  simp [behind, under]

theorem not_directoryAt_below {fs : FileSystem} {place : List String} {node : DiskNode}
    (hget : fs.root.get? place = some node) (hleaf : node.isDirectory = false)
    (below : List String) : ¬fs.DirectoryAt (place ++ below) := by
  rintro ⟨es, hes⟩
  rw [DiskNode.get?_append, hget, Option.bind_some] at hes
  cases below with
  | nil =>
    cases hes
    simp [DiskNode.isDirectory] at hleaf
  | cons name below =>
    obtain ⟨child, hchild, _⟩ := Option.bind_eq_some_iff.mp hes
    simp [DiskNode.isDirectory_of_child? hchild] at hleaf

def ListableBelow (fs : FileSystem) (depth : Nat) (place : List String) : Prop :=
  ∀ below : List String, below.length < depth → fs.DirectoryAt (place ++ below) →
    fs.Listable (place ++ below)

theorem ListableBelow.of_leaf {fs : FileSystem} {depth : Nat} {place : List String}
    {node : DiskNode} (hget : fs.root.get? place = some node) (hleaf : node.isDirectory = false) :
    ListableBelow fs depth place :=
  fun below _ hdirectory => absurd hdirectory (not_directoryAt_below hget hleaf below)

theorem listableBelow_succ_iff {fs : FileSystem} {depth : Nat} {place : List String}
    {es : List (String × DiskNode)} (hp : fs.root.Proper)
    (hget : fs.root.get? place = some (.directory es)) :
    ListableBelow fs (depth + 1) place ↔
      fs.Listable place ∧ ∀ e ∈ es, ListableBelow fs depth (place ++ [e.1]) := by
  constructor
  · intro h
    refine ⟨?_, fun e _ below hlength => ?_⟩
    · have hhere := h [] (Nat.succ_pos depth)
      rw [List.append_nil] at hhere
      exact hhere ⟨es, hget⟩
    · have hbelow := h (e.1 :: below) (Nat.succ_lt_succ hlength)
      rwa [List.append_cons] at hbelow
  · rintro ⟨hhere, hentries⟩ below hlength hdirectory
    cases below with
    | nil => rwa [List.append_nil]
    | cons name below =>
      obtain ⟨es', hes'⟩ := hdirectory
      obtain ⟨es₀, child, hes₀, hchild, _⟩ := FileSystem.exists_child_of_get? hes'
      cases hget.symm.trans hes₀
      have hmem := (hp.of_get? hget).2.child?_iff.mp hchild
      rw [List.append_cons] at hes' ⊢
      exact hentries _ hmem below (Nat.lt_of_succ_lt_succ hlength) ⟨es', hes'⟩

theorem join_pathOf_name {fs : FileSystem} {place : List String} {name : String} {node : DiskNode}
    (hp : fs.root.Proper) (hget : fs.root.get? (place ++ [name]) = some node) :
    PathText.join (FileSystem.pathOf place) name = FileSystem.pathOf (place ++ [name]) := by
  obtain ⟨habove, hname⟩ := List.forall_mem_append.mp (hp.of_get? hget).1
  rw [← FileSystem.join_pathOf habove hname (List.cons_ne_nil name []), PathText.ofPieces_singleton]

theorem leavesFrom_eq_ok_iff {fs : FileSystem} (hp : fs.root.Proper) {depth : Nat}
    {names : List String} {here : Open} {above : List Open} {es : List (String × DiskNode)}
    {found : List Leaf} (hget : fs.root.get? here.place = some (.directory es))
    (hpath : here.path = FileSystem.pathOf here.place) :
    leavesFrom fs false depth names here above = .ok found ↔
      found = (leavesOf depth (.directory es)).map (Leaf.behind names) ∧
        ListableBelow fs depth here.place := by
  induction depth generalizing names here above es found with
  | zero => simp [leavesFrom, leavesOf, ListableBelow, eq_comm]
  | succ depth ih =>
    have hentry : ∀ e ∈ inNameOrder es, fs.root.get? (here.place ++ [e.1]) = some e.2 := by
      intro e he
      rw [DiskNode.get?_concat, hget]
      exact (hp.of_get? hget).2.child?_iff.mpr ((inNameOrder_perm es).mem_iff.mp he)
    rw [leavesFrom, bind_eq_ok_iff]
    simp only [mapError_eq_ok_iff, hpath, FileSystem.list_pathOf_eq_ok_iff hp hget, and_assoc,
      exists_eq_left, bind_eq_ok_iff, pure_eq_ok_iff]
    refine Iff.trans (and_congr_right fun _ => exists_congr fun results => and_congr_left fun _ =>
      mapM_eq_ok_map_iff
        (g := fun e : String × DiskNode => (leavesOf depth e.2).map (Leaf.behind (names ++ [e.1])))
        (P := fun e => ListableBelow fs depth (here.place ++ [e.1])) fun e he leaves => ?_) ?_
    · obtain ⟨name, node⟩ := e
      cases node with
      | file bytes =>
        have hleaf : leavesOf depth (.file bytes) = [⟨[], bytes.length⟩] := leavesOf_leaf depth rfl
        simp only [hleaf, pure_eq_ok_iff, List.map_singleton, Leaf.behind, List.append_nil,
          ListableBelow.of_leaf (hentry _ he) rfl, and_true]
        exact eq_comm
      | link target =>
        have hleaf : leavesOf depth (.link target) = [⟨[], (PathText.bytes target).length⟩] :=
          leavesOf_leaf depth rfl
        simp only [Bool.not_false, if_true, hleaf, pure_eq_ok_iff, List.map_singleton, Leaf.behind,
          List.append_nil, ListableBelow.of_leaf (hentry _ he) rfl, and_true]
        exact eq_comm
      | directory es' => exact ih (hentry _ he) (join_pathOf_name hp (hentry _ he))
    · have hflatten : ((inNameOrder es).map fun e =>
          (leavesOf depth e.2).map (Leaf.behind (names ++ [e.1]))).flatten =
            (leavesOf (depth + 1) (.directory es)).map (Leaf.behind names) := by
        simp [leavesOf, List.flatMap_def, List.map_flatten, Function.comp_def]
      rw [listableBelow_succ_iff hp hget]
      simp only [(inNameOrder_perm es).mem_iff, and_assoc, exists_eq_left, hflatten]
      tauto

/-! ## The whole walk -/

def Allows (maxDepth : Option Nat) (names : List String) : Prop :=
  ∀ limit ∈ maxDepth, names.length ≤ limit

/-- A walk from the base lists the directory that the names lead to. -/
structure Enters (fs : FileSystem) (maxDepth : Option Nat) (base names : List String) : Prop where
  there : fs.DirectoryAt (base ++ names)
  allowed : ∀ limit ∈ maxDepth, names.length < limit

section

variable {fs : FileSystem} {maxDepth : Option Nat} {base : List String}
  {es : List (String × DiskNode)} {found : List Leaf}

theorem enters_iff {names : List String} :
    Enters fs maxDepth base names ↔
      names.length < maxDepth.getD fs.root.count ∧ fs.DirectoryAt (base ++ names) := by
  constructor
  · rintro ⟨hthere, hallowed⟩
    refine ⟨?_, hthere⟩
    cases maxDepth with
    | some limit => exact hallowed limit rfl
    | none =>
      obtain ⟨es, hes⟩ := hthere
      have hlt := DiskNode.length_lt_count hes
      rw [List.length_append] at hlt
      rw [Option.getD_none]
      omega
  · rintro ⟨hlt, hthere⟩
    refine ⟨hthere, fun limit hlimit => ?_⟩
    rwa [Option.mem_def.mp hlimit] at hlt

/-- A walk meets the leaves below its directory if it can list every directory that it enters. -/
theorem leaves_eq_ok_iff (hp : fs.root.Proper) (hget : fs.root.get? base = some (.directory es)) :
    leaves fs ⟨maxDepth, false⟩ base = .ok found ↔
      found = leavesOf (maxDepth.getD fs.root.count) (.directory es) ∧
        ∀ names, Enters fs maxDepth base names → fs.Listable (base ++ names) := by
  rw [leaves, leavesFrom_eq_ok_iff hp hget rfl, funext Leaf.behind_nil, List.map_id']
  refine and_congr_right fun _ => forall_congr' fun names => ?_
  rw [enters_iff, and_imp]

theorem mem_leavesOf_iff_allows (hp : fs.root.Proper)
    (hget : fs.root.get? base = some (.directory es)) {leaf : Leaf} :
    leaf ∈ leavesOf (maxDepth.getD fs.root.count) (.directory es) ↔
      Allows maxDepth leaf.names ∧
        (fs.root.get? (base ++ leaf.names)).bind DiskNode.leafSize? = some leaf.size := by
  rw [mem_leavesOf_iff (hp.of_get? hget).2, DiskNode.get?_append, hget, Option.bind_some]
  refine and_congr_left fun hleaf => ?_
  obtain ⟨node, hnode, _⟩ := Option.bind_eq_some_iff.mp hleaf
  cases maxDepth with
  | some limit => simp [Allows]
  | none =>
    have hwhole : fs.root.get? (base ++ leaf.names) = some node := by
      rw [DiskNode.get?_append, hget, Option.bind_some, hnode]
    have hlt := DiskNode.length_lt_count hwhole
    rw [List.length_append] at hlt
    simp only [Allows, Option.getD_none, Option.mem_def, reduceCtorEq, false_imp_iff,
      implies_true, iff_true]
    omega

end

theorem eq_of_mem_iff {found found' : List Leaf}
    (hfound : found.Pairwise fun a b => pathBytes a.names < pathBytes b.names)
    (hfound' : found'.Pairwise fun a b => pathBytes a.names < pathBytes b.names)
    (h : ∀ leaf, leaf ∈ found ↔ leaf ∈ found') : found = found' := by
  have hirrefl : Std.Irrefl fun a b : Leaf => pathBytes a.names < pathBytes b.names :=
    ⟨fun a => List.lt_irrefl _⟩
  have hantisymm : Std.Antisymm fun a b : Leaf => pathBytes a.names < pathBytes b.names :=
    ⟨fun a b hab hba => absurd hba (List.lt_asymm hab)⟩
  exact hfound.eq_of_mem_iff hfound' h

end Walk

end SourceBundle
