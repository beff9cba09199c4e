import SourceBundle.LrTable
import SourceBundle.SyntaxTree

/-!
# Branching parse stacks

Where several actions are possible a parse goes on in several branches. The branches share the
nodes of their stacks: a node has a link for every way to come to it, and branches that come to the
same state at the same place become one.
-/

namespace SourceBundle.Lr

structure Link where
  node : Nat
  /-- What was read from that node to this one; nothing where a mistake begins. -/
  tree : Option Tree
  deriving Inhabited

def Link.weight (l : Link) : Int :=
  (l.tree.map (·.weight)).getD 0

def Link.partCount (l : Link) : Nat :=
  (l.tree.map (·.partCount)).getD 0

structure StackNode where
  state : Nat
  place : Extent := {}
  links : List Link := []
  cost : Nat := 0
  /-- The number of shown parts below. -/
  parts : Nat := 0
  weight : Int := 0
  deriving Inhabited

inductive Status where
  | active
  /-- Waits before a token that it cannot read. -/
  | paused
  | halted
  deriving DecidableEq, Inhabited

/-- A state that a branch has been through, and how many nodes ago. -/
structure Past where
  place : Extent
  depth : Nat
  state : Nat
  deriving Inhabited

structure Branch where
  node : Nat
  status : Status := .active
  /-- The number of parts when its last mistake began. -/
  partsBefore : Nat := 0
  /-- The states below its last mistake. -/
  past : Option (List Past) := none
  /-- The token that a paused branch waits before. -/
  lookahead : Option Tree := none
  deriving Inhabited

structure Parse where
  nodes : Array StackNode
  branches : Array Branch
  finished : Option Tree := none
  /-- How often the end of the source was reached. -/
  accepted : Nat := 0

def Parse.start : Parse :=
  { nodes := #[{ state := 1 }], branches := #[{ node := 0 }] }

namespace Parse

variable (p : Parse)

def node (n : Nat) : StackNode := p.nodes.getD n default

def branch (b : Nat) : Branch := p.branches.getD b default

/-- The node on top of a branch. -/
def top (b : Nat) : StackNode := p.node (p.branch b).node

def modifyBranch (b : Nat) (f : Branch → Branch) : Parse :=
  { p with branches := p.branches.modify b f }

def modifyNode (n : Nat) (f : StackNode → StackNode) : Parse :=
  { p with nodes := p.nodes.modify n f }

def removeBranch (b : Nat) : Parse :=
  { p with branches := p.branches.eraseIdxIfInBounds b }

def addBranch (b : Branch) : Parse :=
  { p with branches := p.branches.push b }

/-- Puts a tree on a branch; no tree begins a mistake. -/
def push (b : Nat) (tree : Option Tree) (state : Nat) : Parse :=
  let n := (p.branch b).node
  let below := p.node n
  let link : Link := ⟨n, tree⟩
  let node : StackNode :=
    { state, links := [link]
      place := (tree.map fun t => below.place.join t.total).getD below.place
      cost := below.cost + (tree.map (·.cost)).getD 0
      parts := below.parts + link.partCount
      weight := below.weight + link.weight }
  let p := { p with nodes := p.nodes.push node }
  p.modifyBranch b fun branch => { branch with
    node := p.nodes.size - 1
    partsBefore := if tree.isNone then node.parts else branch.partsBefore }

/-- A branch takes the place of another one, and keeps its past where it has none. -/
def replaceBranch (new old : Nat) : Parse :=
  if new == old then p
  else
    let b := p.branch new
    let past := b.past.or (p.branch old).past
    (p.modifyBranch old fun _ => { b with past }).removeBranch new

/-! ## Merging branches -/

/-- Whether two trees are readings of one part that need not both be kept. -/
def sameReading : Option Tree → Option Tree → Bool
  | none, none => true
  | some a, some b =>
    a.label == b.label &&
      (a.cost != 0 && b.cost != 0 ||
        a.data.before.bytes == b.data.before.bytes && a.data.size.bytes == b.data.size.bytes &&
          a.children.length == b.children.length && a.extra == b.extra)
  | _, _ => false

def sameStanding (a b : StackNode) : Bool :=
  a.state == b.state && a.place.bytes == b.place.bytes && a.cost == b.cost

/-- Adds a way to come to a node. Ways of one reading are kept once, the heavier one. `fuel` bounds
the depth of the stack. -/
def addLink : (fuel : Nat) → Parse → (n : Nat) → Link → Parse
  | 0, p, _, _ => p
  | fuel + 1, p, n, l =>
    let node := p.node n
    let below := p.node l.node
    let found := node.links.findIdx? fun e => sameReading e.tree l.tree &&
      (e.node == l.node || sameStanding (p.node e.node) below)
    if l.node == n then p
    else
      match found with
      | none => p.modifyNode n fun node => { node with
          links := node.links ++ [l]
          parts := max node.parts (below.parts + l.partCount)
          weight := max node.weight (below.weight + l.weight) }
      | some i =>
        let e := node.links.getD i default
        if e.node == l.node then
          if e.weight < l.weight then
            p.modifyNode n fun node => { node with
              links := node.links.set i l, weight := below.weight + l.weight }
          else p
        else
          (below.links.foldl (fun p inner => addLink fuel p e.node inner) p).modifyNode n
            fun node => { node with weight := max node.weight (below.weight + l.weight) }

def canMerge (a b : Nat) : Bool :=
  (p.branch a).status == .active && (p.branch b).status == .active &&
    sameStanding (p.top a) (p.top b)

/-- Merges a branch into another one, if they stand at the same place in the same state. -/
def merge (a b : Nat) : Parse × Bool :=
  if p.canMerge a b then
    let n := (p.branch a).node
    let merged := (p.top b).links.foldl (fun p l => addLink p.nodes.size p n l) p
    let node := merged.node n
    let merged := if node.state == 0 then
        merged.modifyBranch a fun branch => { branch with partsBefore := node.parts }
      else merged
    (merged.removeBranch b, true)
  else (p, false)

/-! ## Ways down -/

/-- A way down a stack, with the trees that lie on it. -/
structure Way where
  node : Nat
  trees : List Tree := []
  depth : Nat := 0

def Way.along (w : Way) (l : Link) : Way :=
  match l.tree with
  | none => ⟨l.node, w.trees, w.depth + 1⟩
  | some t => ⟨l.node, t :: w.trees, if t.extra then w.depth else w.depth + 1⟩

/-- Follows all ways down, one link at a time. `visit` says of a way whether it is one of those
looked for and whether to stop there. -/
def ways {σ : Type} (visit : σ → Way → σ × Bool × Bool) :
    (fuel : Nat) → σ → List Way → σ × List Way
  | 0, s, _ => (s, [])
  | _, s, [] => (s, [])
  | fuel + 1, s, current =>
    let step := fun (s, found, straight, aside) (w : Way) =>
      let (s, take, stop) := visit s w
      let found := if take then found ++ [w] else found
      match (p.node w.node).links with
      | first :: others =>
        if stop then (s, found, straight, aside)
        else (s, found, straight ++ [w.along first], aside ++ others.map w.along)
      | [] => (s, found, straight, aside)
    let (s, found, straight, aside) := current.foldl step
      (s, ([] : List Way), ([] : List Way), ([] : List Way))
    let (s, later) := ways visit fuel s (straight ++ aside)
    (s, found ++ later)

def waysDown {σ : Type} (b : Nat) (visit : σ → Way → σ × Bool × Bool) (s : σ) : σ × List Way :=
  p.ways visit (p.nodes.size + 1) s [⟨(p.branch b).node, [], 0⟩]

/-- Makes a branch for each node that ways lead to, with the trees of these ways. -/
def branchesFor (b : Nat) (found : List Way) : Parse × List (Nat × List (List Tree)) :=
  let nodes := (found.map (·.node)).eraseDups
  let partsBefore := (p.branch b).partsBefore
  let made := nodes.foldl (fun (p : Parse) node => p.addBranch { node, partsBefore }) p
  (made, nodes.zipIdx.map fun (node, i) =>
    (p.branches.size + i, (found.filter (·.node == node)).map (·.trees)))

/-- Branches without the uppermost nodes of a branch, extra ones not counted. -/
def pop (b count : Nat) : Parse × List (Nat × List (List Tree)) :=
  let (_, found) := p.waysDown b (fun _ w => ((), w.depth == count, w.depth == count)) ()
  p.branchesFor b found

/-- A branch without anything. -/
def popAll (b : Nat) : Parse × List (Nat × List (List Tree)) :=
  let (_, found) := p.waysDown b (fun _ w => ((), (p.node w.node).links.isEmpty, false)) ()
  p.branchesFor b found

/-- Takes a mistake off a branch, if there is one on top, and gives its parts. -/
def popMistake (b : Nat) : Parse × List Tree :=
  let isMistake (l : Link) : Bool := (l.tree.map (·.isMistake)).getD false
  if (p.top b).links.any isMistake then
    let (_, found) := p.waysDown b (fun (done : Bool) w =>
      match w.trees with
      | [] => (done, false, false)
      | t :: _ => if !done && t.isMistake then (true, true, true) else (done, false, true)) false
    match found with
    | [] => (p, [])
    | w :: _ =>
      let (made, groups) := p.branchesFor b [w]
      let new := (groups.head?.map (·.1)).getD b
      (made.replaceBranch new b, (w.trees.head?.map (·.children)).getD [])
  else (p, [])

/-- How far down the states below a mistake are remembered. -/
def pastDepth : Nat := 16

/-- The states that a branch has been through, the latest first. -/
def pastOf (b : Nat) : List Past :=
  let (past, _) := p.waysDown b (fun (past : List Past) w =>
    let node := p.node w.node
    let known := (past.takeWhile fun e => w.depth ≤ e.depth).any fun e =>
      e.depth == w.depth && e.state == node.state
    if pastDepth < w.depth then (past, false, true)
    else if known then (past, false, false)
    else (⟨node.place, w.depth, node.state⟩ :: past, false, false)) []
  past.reverse

/-! ## Standing -/

/-- What the mistakes of a branch cost, one that has only begun included. -/
def cost (b : Nat) : Nat :=
  let top := p.top b
  let begun := top.state == 0 && (top.links.head?.map fun l => l.tree.isNone).getD false
  top.cost + if (p.branch b).status == .paused || begun then mistakeCost else 0

/-- The number of parts since the last mistake of a branch began. -/
def partsSince (b : Nat) : Nat × Parse :=
  let parts := (p.top b).parts
  let before := min parts (p.branch b).partsBefore
  (parts - before, p.modifyBranch b fun branch => { branch with partsBefore := before })

/-- What branches are compared by. -/
structure Standing where
  cost : Nat
  parts : Nat
  weight : Int
  mistaken : Bool

def standing (b : Nat) : Standing × Parse :=
  let paused := (p.branch b).status == .paused
  let (parts, after) := p.partsSince b
  let top := p.top b
  (⟨p.cost b + if paused then partCost else 0, parts, top.weight, paused || top.state == 0⟩, after)

end Parse

inductive Verdict where
  /-- The first is so much better that the second is given up. -/
  | onlyFirst
  | first
  | even
  | second
  | onlySecond
  deriving DecidableEq

/-- The difference of costs, per part read since, at which a branch is given up. -/
def hopelessCost : Nat := 18 * partCost

def Parse.Standing.compare (a b : Standing) : Verdict :=
  if !a.mistaken && b.mistaken then if a.cost < b.cost then .onlyFirst else .first
  else if a.mistaken && !b.mistaken then if b.cost < a.cost then .onlySecond else .second
  else if a.cost < b.cost then
    if hopelessCost < (b.cost - a.cost) * (1 + a.parts) then .onlyFirst else .first
  else if b.cost < a.cost then
    if hopelessCost < (a.cost - b.cost) * (1 + b.parts) then .onlySecond else .second
  else if b.weight < a.weight then .first
  else if a.weight < b.weight then .second
  else .even

end SourceBundle.Lr
