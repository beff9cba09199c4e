import Mathlib.Data.List.Forall2
import SourceBundle.FileTree

/-!
# What a drawing tells

A drawing has a line for each node, and what stands before the node's own name is as long as the
node is deep. A child's own line opens with a branch and the lines below it do not, so a drawing
falls apart into the drawings of the children in one way only, whatever the names look like.
-/

namespace SourceBundle

theorem append_inj_of_first {α : Type} {p : α → Prop} {front front' back back' : List α}
    (hfront : ∀ a ∈ front, ¬p a) (hfront' : ∀ a ∈ front', ¬p a)
    (hback : ∀ a, back.head? = some a → p a) (hback' : ∀ a, back'.head? = some a → p a)
    (h : front ++ back = front' ++ back') : front = front' ∧ back = back' := by
  rcases List.append_eq_append_iff.mp h with ⟨more, rfl, rfl⟩ | ⟨more, rfl, rfl⟩
  · cases more with
    | nil => simp
    | cons a more => exact absurd (hback a rfl) (hfront' a (by simp))
  · cases more with
    | nil => simp
    | cons a more => exact absurd (hback' a rfl) (hfront a (by simp))

namespace TreeNode

/-! ## Trees and their lines -/

/-- What a drawing without sizes shows of a node. -/
inductive ShownNode where
  | node (name : String) (isDirectory : Bool) (children : List ShownNode)
  deriving Repr

mutual

def shown : TreeNode → ShownNode
  | .node name _ kind children => .node name (kind == .directory) (shownAll children)
termination_by structural t => t

def shownAll : List TreeNode → List ShownNode
  | [] => []
  | t :: ts => t.shown :: shownAll ts
termination_by structural ts => ts

end

mutual

/-- The nodes of a tree, each before its children, with their depths. -/
def preorder : Nat → TreeNode → List (Nat × TreeNode)
  | depth, .node name path kind children =>
    (depth, .node name path kind children) :: preorderAll (depth + 1) children
termination_by structural _ t => t

def preorderAll : Nat → List TreeNode → List (Nat × TreeNode)
  | _, [] => []
  | depth, t :: ts => t.preorder depth ++ preorderAll depth ts
termination_by structural _ ts => ts

end

/-- No name in the tree has a slash or a line feed in it. -/
inductive Plain : TreeNode → Prop
  | node {name path kind children} (no_slash : '/' ∉ name.toList) (one_line : '\n' ∉ name.toList)
      (below : ∀ t ∈ children, Plain t) : Plain (.node name path kind children)

def branch (last : Bool) : List Char :=
  if last then "└── ".toList else "├── ".toList

def bar (last : Bool) : List Char :=
  if last then "    ".toList else "│   ".toList

@[simp] theorem length_branch (last : Bool) : (branch last).length = 4 := by
  cases last <;> rfl

@[simp] theorem length_bar (last : Bool) : (bar last).length = 4 := by
  cases last <;> rfl

variable {sizes : Bool}

theorem childLines_cons (t : TreeNode) (ts : List TreeNode) :
    childLines sizes (t :: ts) = (branch ts.isEmpty ++ label sizes t.name t.kind) ::
      ((childLines sizes t.children).map (bar ts.isEmpty ++ ·) ++ childLines sizes ts) := by
  cases t with
  | node name path kind children =>
    rw [childLines, lines]
    cases ts.isEmpty <;> rfl

/-- Every node has its line. -/
def Draws (sizes : Bool) (node : Nat × TreeNode) (line : List Char) : Prop :=
  ∃ lead, lead.length = 4 * node.1 ∧ line = lead ++ label sizes node.2.name node.2.kind

mutual

theorem draws_below : (t : TreeNode) → ∀ {depth : Nat} {lead : List Char}, lead.length = 4 * depth →
    List.Forall₂ (Draws sizes) (preorderAll (depth + 1) t.children)
      ((childLines sizes t.children).map (lead ++ ·))
  | .node _ _ _ children => draws_all children

theorem draws_all : (ts : List TreeNode) → ∀ {depth : Nat} {lead : List Char},
    lead.length = 4 * depth →
    List.Forall₂ (Draws sizes) (preorderAll (depth + 1) ts) ((childLines sizes ts).map (lead ++ ·))
  | [], _, _, _ => .nil
  | t :: ts, depth, lead, hlead => by
    have hown : Draws sizes (depth + 1, t) (lead ++ (branch ts.isEmpty ++ label sizes t.name t.kind)) :=
      ⟨lead ++ branch ts.isEmpty, by simp [hlead]; omega, by simp⟩
    have hbelow : List.Forall₂ (Draws sizes) (preorderAll (depth + 2) t.children)
        (((childLines sizes t.children).map (bar ts.isEmpty ++ ·)).map (lead ++ ·)) := by
      have hlead' : (lead ++ bar ts.isEmpty).length = 4 * (depth + 1) := by simp [hlead]; omega
      simpa [Function.comp_def] using draws_below t hlead'
    have hrest := draws_all ts hlead
    rw [childLines_cons, List.map_cons, List.map_append, preorderAll]
    cases t with
    | node name path kind children =>
      rw [preorder, List.cons_append]
      exact .cons hown (List.rel_append hbelow hrest)

end

/-! ## The tree behind the lines -/

/-- A line that belongs to a child itself, seen from its parent. -/
def Opens (line : List Char) : Prop :=
  line.head? = some '├' ∨ line.head? = some '└'

theorem opens_branch (last : Bool) (text : List Char) : Opens (branch last ++ text) := by
  cases last <;> simp [Opens, branch]

theorem not_opens_bar (last : Bool) (text : List Char) : ¬Opens (bar last ++ text) := by
  cases last <;> simp [Opens, bar]

theorem opens_childLines {ts : List TreeNode} :
    ∀ line, (childLines sizes ts).head? = some line → Opens line := by
  intro line hline
  cases ts with
  | nil => simp [childLines] at hline
  | cons t ts =>
    rw [childLines_cons, List.head?_cons, Option.some.injEq] at hline
    exact hline ▸ opens_branch _ _

theorem drop_bar (last : Bool) (lines : List (List Char)) :
    (lines.map (bar last ++ ·)).map (·.drop 4) = lines := by
  rw [List.map_map]
  refine List.map_id'' (fun line => ?_) lines
  simp

/-- The children's drawings are told apart: the first child's own line, the lines below it, and the
lines of the others. -/
theorem childLines_cons_inj {t u : TreeNode} {ts us : List TreeNode}
    (h : childLines sizes (t :: ts) = childLines sizes (u :: us)) :
    label sizes t.name t.kind = label sizes u.name u.kind ∧
      childLines sizes t.children = childLines sizes u.children ∧
      childLines sizes ts = childLines sizes us := by
  rw [childLines_cons, childLines_cons] at h
  obtain ⟨hown, hrest⟩ := List.cons.inj h
  have hclosed : ∀ (last : Bool) (lines : List (List Char)),
      ∀ line ∈ lines.map (bar last ++ ·), ¬Opens line := by
    intro last lines line hline
    obtain ⟨text, _, rfl⟩ := List.mem_map.mp hline
    exact not_opens_bar last text
  obtain ⟨hbelow, hothers⟩ := append_inj_of_first (hclosed _ _) (hclosed _ _) opens_childLines
    opens_childLines hrest
  have hlabel := (List.append_inj hown (by simp)).2
  have hchildren := congrArg (List.map (·.drop 4)) hbelow
  rw [drop_bar, drop_bar] at hchildren
  exact ⟨hlabel, hchildren, hothers⟩

theorem label_inj {name name' : String} {kind kind' : TreeKind} (h : '/' ∉ name.toList)
    (h' : '/' ∉ name'.toList) (heq : label false name kind = label false name' kind') :
    name = name' ∧ (kind == .directory) = (kind' == .directory) := by
  cases kind with
  | directory =>
    cases kind' with
    | directory => exact ⟨String.toList_inj.mp (by simpa [label] using heq), rfl⟩
    | file size =>
      refine absurd ?_ h'
      have hslash : '/' ∈ label false name .directory := by simp [label]
      rw [heq] at hslash
      simpa [label] using hslash
  | file size =>
    cases kind' with
    | directory =>
      refine absurd ?_ h
      have hslash : '/' ∈ label false name' .directory := by simp [label]
      rw [← heq] at hslash
      simpa [label] using hslash
    | file size' => exact ⟨String.toList_inj.mp (by simpa [label] using heq), rfl⟩

mutual

theorem shown_eq_of_lines : (t u : TreeNode) → t.Plain → u.Plain →
    label false t.name t.kind = label false u.name u.kind →
    childLines false t.children = childLines false u.children → t.shown = u.shown
  | .node name _ kind children, .node name' _ kind' children',
    .node no_slash _ below, .node no_slash' _ below', hlabel, hlines => by
    have hown : label false name kind = label false name' kind' := hlabel
    obtain ⟨hname, hkind⟩ := label_inj no_slash no_slash' hown
    have hchildren := shownAll_eq_of_lines children children' below below' hlines
    rw [shown, shown, hname, hkind, hchildren]

theorem shownAll_eq_of_lines : (ts us : List TreeNode) → (∀ t ∈ ts, t.Plain) →
    (∀ u ∈ us, u.Plain) → childLines false ts = childLines false us → shownAll ts = shownAll us
  | [], [], _, _, _ => rfl
  | [], u :: us, _, _, h => by
    rw [childLines_cons] at h
    cases h
  | t :: ts, [], _, _, h => by
    rw [childLines_cons] at h
    cases h
  | t :: ts, u :: us, ht, hu, h => by
    obtain ⟨hlabel, hbelow, hothers⟩ := childLines_cons_inj h
    obtain ⟨ht, hts⟩ := List.forall_mem_cons.mp ht
    obtain ⟨hu, hus⟩ := List.forall_mem_cons.mp hu
    rw [shownAll, shownAll, shown_eq_of_lines t u ht hu hlabel hbelow,
      shownAll_eq_of_lines ts us hts hus hothers]

end

/-! ## The text of a drawing -/

theorem newline_not_mem_label {name : String} {kind : TreeKind} (h : '\n' ∉ name.toList) :
    '\n' ∉ label false name kind := by
  cases kind <;> simp [label, h]

mutual

theorem one_line_below : (t : TreeNode) → t.Plain → ∀ line ∈ childLines false t.children, '\n' ∉ line
  | .node _ _ _ children, .node _ _ below => one_line_all children below

theorem one_line_all : (ts : List TreeNode) → (∀ t ∈ ts, t.Plain) →
    ∀ line ∈ childLines false ts, '\n' ∉ line
  | [], _ => by simp [childLines]
  | t :: ts, h => by
    obtain ⟨ht, hts⟩ := List.forall_mem_cons.mp h
    have hbranch : '\n' ∉ branch ts.isEmpty := by cases ts.isEmpty <;> decide
    have hbar : '\n' ∉ bar ts.isEmpty := by cases ts.isEmpty <;> decide
    have hname : '\n' ∉ t.name.toList := by
      cases ht with
      | node _ one_line => exact one_line
    have hbelow := one_line_below t ht
    rw [childLines_cons, List.forall_mem_cons, List.forall_mem_append, List.forall_mem_map]
    refine ⟨?_, ?_, one_line_all ts hts⟩
    · exact fun hmem => (List.mem_append.mp hmem).elim hbranch (newline_not_mem_label hname)
    · intro line hline hmem
      exact (List.mem_append.mp hmem).elim hbar (hbelow line hline)

end

theorem lines_eq (t : TreeNode) :
    t.lines sizes = label sizes t.name t.kind :: childLines sizes t.children := by
  cases t with
  | node name path kind children =>
    rw [lines]
    rfl

theorem Plain.one_line {t : TreeNode} (h : t.Plain) : ∀ line ∈ t.lines false, '\n' ∉ line := by
  rw [lines_eq, List.forall_mem_cons]
  refine ⟨newline_not_mem_label ?_, one_line_below t h⟩
  cases h with
  | node _ one_line => exact one_line

theorem eq_of_terminated {lines lines' : List (List Char)} (h : ∀ line ∈ lines, '\n' ∉ line)
    (h' : ∀ line ∈ lines', '\n' ∉ line)
    (heq : lines.flatMap (· ++ ['\n']) = lines'.flatMap (· ++ ['\n'])) : lines = lines' := by
  induction lines generalizing lines' with
  | nil =>
    cases lines' with
    | nil => rfl
    | cons line' lines' => simp at heq
  | cons line lines ih =>
    cases lines' with
    | nil => simp at heq
    | cons line' lines' =>
      obtain ⟨hline, hlines⟩ := List.forall_mem_cons.mp h
      obtain ⟨hline', hlines'⟩ := List.forall_mem_cons.mp h'
      have hno : ∀ {text : List Char}, '\n' ∉ text → ∀ c ∈ text, ¬c = '\n' :=
        fun hnot c hc he => hnot (he ▸ hc)
      simp only [List.flatMap_cons, List.append_assoc, List.singleton_append] at heq
      obtain ⟨rfl, hrest⟩ := append_inj_of_first (hno hline) (hno hline') (by simp) (by simp) heq
      rw [ih hlines hlines' (List.cons.inj hrest).2]

/-- A drawing without sizes has one line for each node, a node before its children, behind as much as
the node is deep; and it tells the tree: a tree of the same drawing has the same names, the same
directories and the same children everywhere. -/
theorem render_tells (t : TreeNode) (ht : t.Plain) :
    (∃ lines : List (List Char), (t.render false).toList = lines.flatMap (· ++ ['\n']) ∧
      (∀ line ∈ lines, '\n' ∉ line) ∧ List.Forall₂ (Draws false) (t.preorder 0) lines) ∧
    ∀ u : TreeNode, u.Plain → u.render false = t.render false → u.shown = t.shown := by
  constructor
  · refine ⟨t.lines false, by simp [render], ht.one_line, ?_⟩
    have hbelow : List.Forall₂ (Draws false) (preorderAll 1 t.children)
        (childLines false t.children) := by
      have hnone : ([] : List Char).length = 4 * 0 := rfl
      simpa using draws_below t hnone
    rw [lines_eq]
    cases t with
    | node name path kind children => exact .cons ⟨[], rfl, rfl⟩ hbelow
  · intro u hu hrender
    have htext : (u.lines false).flatMap (· ++ ['\n']) = (t.lines false).flatMap (· ++ ['\n']) := by
      simpa [render] using congrArg String.toList hrender
    have hlines := eq_of_terminated hu.one_line ht.one_line htext
    rw [lines_eq, lines_eq] at hlines
    obtain ⟨hlabel, hbelow⟩ := List.cons.inj hlines
    exact shown_eq_of_lines u t hu ht hlabel hbelow

def branchyTree (path : String) (size : Nat) : TreeNode :=
  .node "├── a" path .directory [.node "│   └── b" path (.file size) [.node "" path .directory []]]

theorem plain_branchyTree (path : String) (size : Nat) : (branchyTree path size).Plain := by
  have hempty : Plain (.node "" path .directory []) := .node (by decide) (by decide) (by simp)
  have hfile : Plain (.node "│   └── b" path (.file size) [.node "" path .directory []]) :=
    .node (by decide) (by decide) (by simpa using hempty)
  exact .node (by decide) (by decide) (by simpa using hfile)

theorem render_tells_branchy_names :
    (∃ lines : List (List Char),
      ((branchyTree "/p" 1).render false).toList = lines.flatMap (· ++ ['\n']) ∧
      (∀ line ∈ lines, '\n' ∉ line) ∧
      List.Forall₂ (Draws false) ((branchyTree "/p" 1).preorder 0) lines) ∧
    (branchyTree "/q" 2).render false = (branchyTree "/p" 1).render false ∧
    (branchyTree "/q" 2).shown = (branchyTree "/p" 1).shown := by
  obtain ⟨hlines, htells⟩ := render_tells (branchyTree "/p" 1) (plain_branchyTree "/p" 1)
  have hrender : (branchyTree "/q" 2).render false = (branchyTree "/p" 1).render false := by
    simp [branchyTree, render, lines, childLines, label]
  exact ⟨hlines, hrender, htells _ (plain_branchyTree "/q" 2) hrender⟩

end TreeNode

end SourceBundle
