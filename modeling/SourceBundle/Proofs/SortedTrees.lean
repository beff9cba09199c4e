import Mathlib.Data.List.Forall2
import SourceBundle.Proofs.BuiltTrees

/-!
# Trees in order

Siblings of one kind and one lowercase name are not told apart by their order, so they stay in the
order that they had; between all others the order leaves no choice. A tree is put in order by moving
the children of every node so, whatever the node is, and by nothing else.
-/

namespace SourceBundle

namespace TreeNode

/-! ## What the order leaves open -/

def orderKey (t : TreeNode) : Bool × List Char :=
  (t.isDirectory, lowercase t.name.toList)

theorem Before.of_orderKey_eq {a b : TreeNode} (h : orderKey a = orderKey b) : Before a b := by
  obtain ⟨hkind, hname⟩ := Prod.ext_iff.mp h
  refine .inr ⟨hkind, ?_⟩
  rw [sortKey, sortKey, show lowercase a.name.toList = lowercase b.name.toList from hname]
  exact List.le_refl _

theorem Before.orderKey_eq {a b : TreeNode} (h : Before a b) (h' : Before b a) :
    orderKey a = orderKey b := by
  obtain ⟨hkind, hname⟩ := h.same_key h'
  exact Prod.ext hkind (Utf8.encode_injective hname)

theorem mem_of_filter_orderKey {ts us : List TreeNode}
    (h : ∀ key, ts.filter (orderKey · = key) = us.filter (orderKey · = key)) {t : TreeNode}
    (ht : t ∈ ts) : t ∈ us := by
  have hkept : t ∈ ts.filter (orderKey · = orderKey t) := List.mem_filter.mpr ⟨ht, by simp⟩
  rw [h] at hkept
  exact List.mem_of_mem_filter hkept

/-- Nodes in order are told by the nodes of each key: between nodes of different keys the order
leaves no choice. -/
theorem eq_of_filter_orderKey {ts us : List TreeNode} (hts : ts.Pairwise Before)
    (hus : us.Pairwise Before)
    (h : ∀ key, ts.filter (orderKey · = key) = us.filter (orderKey · = key)) : ts = us := by
  induction ts generalizing us with
  | nil =>
    refine (List.eq_nil_iff_forall_not_mem.mpr fun u hu => ?_).symm
    exact List.not_mem_nil (mem_of_filter_orderKey (fun key => (h key).symm) hu)
  | cons t ts ih =>
    obtain ⟨u, us, rfl⟩ := List.exists_cons_of_ne_nil
      (List.ne_nil_of_mem (mem_of_filter_orderKey h List.mem_cons_self))
    obtain ⟨ht, hts'⟩ := List.pairwise_cons.mp hts
    obtain ⟨hu, hus'⟩ := List.pairwise_cons.mp hus
    have hkey : orderKey t = orderKey u := by
      rcases List.mem_cons.mp (mem_of_filter_orderKey h List.mem_cons_self) with heq | hlater
      · rw [heq]
      rcases List.mem_cons.mp (mem_of_filter_orderKey (fun key => (h key).symm)
        List.mem_cons_self) with heq | hlater'
      · rw [heq]
      · exact (ht u hlater').orderKey_eq (hu t hlater)
    have hfirst : t = u := by
      have hsame := h (orderKey t)
      rw [List.filter_cons_of_pos (by simp), List.filter_cons_of_pos (by simp [hkey])] at hsame
      exact (List.cons_eq_cons.mp hsame).1
    subst hfirst
    refine congrArg _ (ih hts' hus' fun key => ?_)
    have hsame := h key
    by_cases hown : orderKey t = key
    · rw [List.filter_cons_of_pos (by simp [hown]), List.filter_cons_of_pos (by simp [hown])] at hsame
      exact (List.cons_eq_cons.mp hsame).2
    · rwa [List.filter_cons_of_neg (by simp [hown]), List.filter_cons_of_neg (by simp [hown])] at hsame

/-! ## Arranged trees -/

/-- A tree, and what it becomes when the children of every node are put in order. -/
inductive Arranges : TreeNode → TreeNode → Prop
  /-- The children are moved, and what each of them becomes stands in its place. -/
  | node {name path kind children moved arranged} (perm : moved.Perm children)
      (ordered : moved.Pairwise Before)
      (stable : ∀ key, moved.filter (orderKey · = key) = children.filter (orderKey · = key))
      (below : List.Forall₂ Arranges moved arranged) :
      Arranges (.node name path kind children) (.node name path kind arranged)

theorem precedes_sorted (a b : TreeNode) : precedes a.sorted b.sorted = precedes a b := by
  rw [precedes, kind_sorted, kind_sorted, name_sorted, name_sorted, precedes]

theorem sorted_node (name path : String) (kind : TreeKind) (children : List TreeNode) :
    (node name path kind children).sorted =
      .node name path kind ((stableSort precedes children).map sorted) := by
  rw [sorted, sortedAll_eq, map_stableSort precedes_sorted]

theorem filter_orderKey_stableSort (key : Bool × List Char) (ts : List TreeNode) :
    (stableSort precedes ts).filter (orderKey · = key) = ts.filter (orderKey · = key) := by
  refine filter_stableSort (fun a b ha hb => precedes_iff.mpr (.of_orderKey_eq ?_)) ts
  rw [of_decide_eq_true ha, of_decide_eq_true hb]

theorem forall₂_arranges_iff {ts us : List TreeNode}
    (h : ∀ t ∈ ts, ∀ u, Arranges t u ↔ u = t.sorted) :
    List.Forall₂ Arranges ts us ↔ us = ts.map sorted := by
  induction ts generalizing us with
  | nil => simp
  | cons t ts ih =>
    obtain ⟨hfirst, hrest⟩ := List.forall_mem_cons.mp h
    rw [List.forall₂_cons_left_iff, List.map_cons]
    constructor
    · rintro ⟨u, us, hu, hus, rfl⟩
      rw [(hfirst u).mp hu, (ih hrest).mp hus]
    · rintro rfl
      exact ⟨_, _, (hfirst _).mpr rfl, (ih hrest).mpr rfl, rfl⟩

theorem arranges_node_iff {name path : String} {kind : TreeKind} {children : List TreeNode}
    (h : ∀ child ∈ children, ∀ u, Arranges child u ↔ u = child.sorted) (u : TreeNode) :
    Arranges (.node name path kind children) u ↔ u = (node name path kind children).sorted := by
  have hperm := stableSort_perm precedes children
  rw [sorted_node]
  constructor
  · intro harranges
    cases harranges with
    | node perm ordered stable below =>
      obtain rfl := eq_of_filter_orderKey ordered (pairwise_before children) fun key =>
        (stable key).trans (filter_orderKey_stableSort key children).symm
      rw [(forall₂_arranges_iff fun t ht => h t (hperm.mem_iff.mp ht)).mp below]
  · rintro rfl
    refine .node hperm (pairwise_before children) (filter_orderKey_stableSort · children) ?_
    exact (forall₂_arranges_iff fun t ht => h t (hperm.mem_iff.mp ht)).mpr rfl

mutual

theorem arranges_iff : (t u : TreeNode) → (Arranges t u ↔ u = t.sorted)
  | .node _ _ _ children, u => arranges_node_iff (arrangesAll_iff children) u

theorem arrangesAll_iff : (ts : List TreeNode) → ∀ t ∈ ts, ∀ u, Arranges t u ↔ u = t.sorted
  | [] => by simp
  | t :: ts => List.forall_mem_cons.mpr ⟨arranges_iff t, arrangesAll_iff ts⟩

end

theorem InOrder.sorted_eq {t : TreeNode} (h : InOrder t) : t.sorted = t := by
  induction h with
  | @node name path kind children ordered below ih =>
    rw [sorted_node, stableSort_eq_self (ordered.imp precedes_iff.mpr), List.map_congr_left ih]
    rw [List.map_id']

/-- Putting a tree in order moves the children of every node, of directories and of files, and
nothing else: directories come first, names ascend in lowercase, and children that this does not tell
apart stay in the order they had. No other tree is so arranged, and one in order stays as it is. -/
theorem sorted_arranges (t : TreeNode) :
    (∀ u, Arranges t u ↔ u = t.sorted) ∧ t.sorted.sorted = t.sorted :=
  ⟨arranges_iff t, (inOrder_sorted t).sorted_eq⟩

example :
    ((node "p" "p" .directory [file "b" "p/b" 1, file "A" "p/A" 2, file "B" "p/B" 3,
      directory "z" "p/z"]).sorted.children.map name) = ["z", "A", "b", "B"] := by
  decide

end TreeNode

end SourceBundle
