import Mathlib.Data.List.Basic
import SourceBundle.Proofs.PathPieces

/-!
# Trees on disk

What holds of a tree whose entries have names of their own: a place names at most one node, and is
shorter than the tree has nodes. Paths lead to places that are there, and the order in which a
directory lists its entries has no part in where they lead.
-/

namespace SourceBundle

theorem lookup_eq_some_iff_mem {α β : Type} [BEq α] [LawfulBEq α] {es : List (α × β)} {a : α}
    {b : β} (h : (es.map (·.1)).Nodup) : es.lookup a = some b ↔ (a, b) ∈ es := by
  induction es with
  | nil => simp
  | cons e es ih =>
    obtain ⟨a', b'⟩ := e
    obtain ⟨hnotin, hrest⟩ := List.nodup_cons.mp h
    rw [List.lookup_cons, List.mem_cons, Prod.mk.injEq]
    by_cases ha : a = a'
    · have hout : (a', b) ∉ es := fun hmem => hnotin (List.mem_map.mpr ⟨(a', b), hmem, rfl⟩)
      simp [ha, hout, eq_comm]
    · have hbeq : (a == a') = false := beq_eq_false_iff_ne.mpr ha
      simp [ha, hbeq, ih hrest]

namespace DiskNode

/-- The entries of every directory have proper names, each its own. -/
inductive Proper : DiskNode → Prop
  | file {bytes} : Proper (.file bytes)
  | link {target} : Proper (.link target)
  | directory {es} (names : (es.map (·.1)).Nodup) (proper : ∀ e ∈ es, ProperName e.1)
      (below : ∀ e ∈ es, e.2.Proper) : Proper (.directory es)

def smallProject : DiskNode :=
  .directory [("home", .directory [("project", .directory
    [("src", .directory [("main.go", .file [112])]), ("latest", .link "src/main.go"),
      ("go.mod", .file [])])])]

theorem smallProject_proper : smallProject.Proper := by
  have hsrc : (directory [("main.go", .file [112])]).Proper :=
    .directory (by decide) (by decide) (by simp [Proper.file])
  have hproject : (directory [("src", .directory [("main.go", .file [112])]),
      ("latest", .link "src/main.go"), ("go.mod", .file [])]).Proper :=
    .directory (by decide) (by decide) (by simp [Proper.file, Proper.link, hsrc])
  exact .directory (by decide) (by decide) (by
    simpa using Proper.directory (by decide) (by decide) (by simpa using hproject))

end DiskNode

def FileSystem.smallProject : FileSystem where
  root := DiskNode.smallProject

namespace DiskNode

def leafSize? : DiskNode → Option Nat
  | .file bytes => some bytes.length
  | .link target => some (PathText.bytes target).length
  | .directory _ => none

theorem leafSize?_eq_none_iff {node : DiskNode} : node.leafSize? = none ↔ node.isDirectory = true := by
  cases node <;> simp [leafSize?, isDirectory]

theorem exists_entries {node : DiskNode} (h : node.isDirectory = true) :
    ∃ es, node = .directory es := by
  cases node with
  | directory es => exact ⟨es, rfl⟩
  | file => simp [isDirectory] at h
  | link => simp [isDirectory] at h

/-! ## Places -/

theorem get?_append (node : DiskNode) (front back : List String) :
    node.get? (front ++ back) = (node.get? front).bind (·.get? back) := by
  induction front generalizing node with
  | nil => rfl
  | cons name front ih => simp [get?, ih, Option.bind_assoc]

theorem get?_concat (node : DiskNode) (place : List String) (name : String) :
    node.get? (place ++ [name]) = (node.get? place).bind (·.child? name) := by
  simp [get?_append, get?]

theorem isDirectory_of_child? {node child : DiskNode} {name : String}
    (h : node.child? name = some child) : node.isDirectory = true := by
  cases node with
  | directory => rfl
  | file => simp [child?, entries] at h
  | link => simp [child?, entries] at h

theorem isDirectory_dropLast {root node : DiskNode} {place : List String}
    (h : root.get? place = some node) (hne : place ≠ []) :
    ∃ above, root.get? place.dropLast = some above ∧ above.isDirectory = true := by
  obtain ⟨front, name, rfl⟩ := (List.eq_nil_or_concat' place).resolve_left hne
  rw [get?_concat] at h
  obtain ⟨above, habove, hchild⟩ := Option.bind_eq_some_iff.mp h
  exact ⟨above, by simpa using habove, isDirectory_of_child? hchild⟩

namespace Proper

variable {node child : DiskNode} {name : String}

theorem child?_iff (h : node.Proper) : node.child? name = some child ↔ (name, child) ∈ node.entries := by
  cases h with
  | directory names => exact lookup_eq_some_iff_mem names
  | file => simp [DiskNode.child?, entries]
  | link => simp [DiskNode.child?, entries]

theorem of_child? (h : node.Proper) (hchild : node.child? name = some child) :
    ProperName name ∧ child.Proper := by
  have hmem := h.child?_iff.mp hchild
  cases h with
  | directory _ proper below => exact ⟨proper _ hmem, below _ hmem⟩
  | file => simp [entries] at hmem
  | link => simp [entries] at hmem

theorem get?_cons_iff {rest : List String} {found : DiskNode} (h : node.Proper) :
    node.get? (name :: rest) = some found ↔
      ∃ child, (name, child) ∈ node.entries ∧ child.get? rest = some found := by
  rw [get?, Option.bind_eq_some_iff]
  exact exists_congr fun child => and_congr_left fun _ => h.child?_iff

theorem of_get? {place : List String} (h : node.Proper) (hget : node.get? place = some child) :
    (∀ name ∈ place, ProperName name) ∧ child.Proper := by
  induction place generalizing node with
  | nil =>
    rw [get?, Option.some.injEq] at hget
    exact ⟨by simp, hget ▸ h⟩
  | cons name place ih =>
    obtain ⟨next, hnext, hrest⟩ := Option.bind_eq_some_iff.mp hget
    obtain ⟨hname, hproper⟩ := h.of_child? hnext
    obtain ⟨hnames, hchild⟩ := ih hproper hrest
    exact ⟨List.forall_mem_cons.mpr ⟨hname, hnames⟩, hchild⟩

end Proper

theorem count_pos (node : DiskNode) : 0 < node.count := by
  cases node with
  | directory es =>
    rw [count]
    omega
  | file => simp [count]
  | link => simp [count]

theorem count_le_countEntries {es : List (String × DiskNode)} {e : String × DiskNode}
    (h : e ∈ es) : e.2.count ≤ countEntries es := by
  induction es with
  | nil => simp at h
  | cons e' es ih =>
    rw [countEntries]
    rcases List.mem_cons.mp h with rfl | h
    · omega
    · have := ih h
      omega

theorem count_lt_of_child? {node child : DiskNode} {name : String}
    (h : node.child? name = some child) : child.count < node.count := by
  obtain ⟨es, rfl⟩ := exists_entries (isDirectory_of_child? h)
  obtain ⟨front, back, hes, _⟩ := List.lookup_eq_some_iff.mp h
  have hmem : (name, child) ∈ es := by
    have hentries : es = front ++ (name, child) :: back := hes
    simp [hentries]
  have hle : child.count ≤ countEntries es := count_le_countEntries hmem
  rw [count]
  omega

theorem length_lt_count {node found : DiskNode} {place : List String}
    (h : node.get? place = some found) : place.length < node.count := by
  induction place generalizing node with
  | nil => exact node.count_pos
  | cons name place ih =>
    obtain ⟨next, hnext, hrest⟩ := Option.bind_eq_some_iff.mp h
    have := ih hrest
    have := count_lt_of_child? hnext
    simp only [List.length_cons]
    omega

/-! ## The order of entries -/

/-- The same tree, but for the order in which directories list their entries. -/
inductive Reordered : DiskNode → DiskNode → Prop
  | refl {node} : Reordered node node
  | permute {es es'} (h : es.Perm es') : Reordered (.directory es) (.directory es')
  | inside {front back name node node'} (h : Reordered node node') :
      Reordered (.directory (front ++ (name, node) :: back))
        (.directory (front ++ (name, node') :: back))
  | trans {a b c} (h : Reordered a b) (h' : Reordered b c) : Reordered a c

namespace Reordered

variable {node node' : DiskNode}

theorem isDirectory_eq (h : Reordered node node') : node'.isDirectory = node.isDirectory := by
  induction h with
  | refl => rfl
  | permute => rfl
  | inside => rfl
  | trans _ _ ih ih' => exact ih'.trans ih

theorem eq_of_leaf (h : Reordered node node') (hleaf : node.isDirectory = false) : node' = node := by
  induction h with
  | refl => rfl
  | permute => simp [isDirectory] at hleaf
  | inside => simp [isDirectory] at hleaf
  | trans h _ ih ih' => rw [ih' (h.isDirectory_eq.trans hleaf), ih hleaf]

theorem leafSize?_eq (h : Reordered node node') : node'.leafSize? = node.leafSize? := by
  cases hd : node.isDirectory with
  | false => rw [h.eq_of_leaf hd]
  | true =>
    rw [leafSize?_eq_none_iff.mpr hd, leafSize?_eq_none_iff.mpr (h.isDirectory_eq.trans hd)]

theorem proper (h : Reordered node node') (hp : node.Proper) : node'.Proper := by
  induction h with
  | refl => exact hp
  | permute h =>
    cases hp with
    | directory names proper below =>
      refine .directory ((h.map _).nodup_iff.mp names) ?_ ?_
      · exact fun e he => proper e (h.mem_iff.mpr he)
      · exact fun e he => below e (h.mem_iff.mpr he)
  | inside _ ih =>
    cases hp with
    | directory names proper below =>
      simp only [List.forall_mem_append, List.forall_mem_cons] at proper below
      refine .directory (by simpa using names) ?_ ?_
      · simpa only [List.forall_mem_append, List.forall_mem_cons] using proper
      · simp only [List.forall_mem_append, List.forall_mem_cons]
        exact ⟨below.1, ih below.2.1, below.2.2⟩
  | trans _ _ ih ih' => exact ih' (ih hp)

end Reordered

end DiskNode

end SourceBundle
