/-!
# Syntax trees with mistakes

A tree knows how much of the source it covers and what the mistakes in it cost. Of several ways to
read on after a mistake the cheapest is taken.
-/

namespace SourceBundle.Lr

/-- How far one place is from another: columns count bytes behind the last line end. -/
structure Extent where
  bytes : Nat := 0
  rows : Nat := 0
  columns : Nat := 0
  deriving DecidableEq, Repr, Inhabited

namespace Extent

/-- One extent and then another. -/
def join (a b : Extent) : Extent :=
  ⟨a.bytes + b.bytes, a.rows + b.rows, if b.rows == 0 then a.columns + b.columns else b.columns⟩

/-- The extent from one place to a later one. -/
def between (a b : Extent) : Extent :=
  ⟨b.bytes - a.bytes, b.rows - a.rows, if a.rows == b.rows then b.columns - a.columns else b.columns⟩

def ofChar (c : Char) : Extent :=
  if c == '\n' then ⟨1, 1, 0⟩ else ⟨c.utf8Size, 0, c.utf8Size⟩

def ofText (cs : List Char) : Extent :=
  cs.foldl (fun e c => e.join (ofChar c)) {}

end Extent

inductive Label where
  /-- A token, the end of the source or a rule. -/
  | symbol (code : Nat)
  | mistake
  /-- Tokens taken for a mistake that is not over yet. -/
  | skipped
  deriving DecidableEq, Repr, Inhabited

def Label.isMistaken : Label → Bool
  | .symbol _ => false
  | _ => true

structure TreeData where
  label : Label
  /-- What lies between the part before and this one. -/
  before : Extent := {}
  size : Extent := {}
  /-- Not a part of what is around it. -/
  extra : Bool := false
  missing : Bool := false
  /-- A token that was scanned as a word of the language. -/
  isWord : Bool := false
  shown : Bool
  cost : Nat := 0
  weight : Int := 0
  /-- The number of children that show, through those that do not. -/
  shownChildren : Nat := 0
  /-- The number of parts of any depth that show. -/
  shownParts : Nat := 0
  /-- The names of the parts in their places. -/
  names : List (Option String) := []
  deriving Repr, Inhabited

inductive Tree where
  | node (data : TreeData) (children : List Tree)
  deriving Repr, Inhabited

/-! ## Costs -/

/-- Of every mistake. -/
def mistakeCost : Nat := 500

def missingCost : Nat := 110

/-- Of every part that is taken for a mistake. -/
def partCost : Nat := 100

def rowCost : Nat := 30

def byteCost : Nat := 1

def Extent.cost (e : Extent) : Nat :=
  byteCost * e.bytes + rowCost * e.rows

namespace Tree

def data : Tree → TreeData
  | .node d _ => d

def children : Tree → List Tree
  | .node _ ts => ts

def label (t : Tree) : Label := t.data.label

def extra (t : Tree) : Bool := t.data.extra

def cost (t : Tree) : Nat := t.data.cost

def weight (t : Tree) : Int := t.data.weight

def isMistake (t : Tree) : Bool := t.label == .mistake

def total (t : Tree) : Extent := t.data.before.join t.data.size

def withExtra (extra : Bool) : Tree → Tree
  | .node d ts => .node { d with extra } ts

def addWeight (w : Int) : Tree → Tree
  | .node d ts => .node { d with weight := d.weight + w } ts

/-- The number of shown parts that a tree adds to a stack. -/
def partCount (t : Tree) : Nat :=
  t.data.shownParts + (if t.data.shown then 1 else 0) + (if t.label == .skipped then 1 else 0)

def leaf (label : Label) (before size : Extent) (shown : Bool) : Tree :=
  .node { label, before, size, shown } []

/-- A token that is not there. -/
def missingToken (code : Nat) (shown : Bool) : Tree :=
  .node { label := .symbol code, missing := true, shown, cost := missingCost + mistakeCost } []

/-- Adds a child behind those that are in a tree. -/
def addChild (d : TreeData) (first : Bool) (name : Option String) (t : Tree) : TreeData :=
  let c := t.data
  let inner := !t.children.isEmpty
  let charged :=
    if d.label.isMistaken && !c.extra && !(t.isMistake && !inner) then
      if c.shown then partCost else if inner then partCost * c.shownChildren else 0
    else 0
  let own := if name.isSome || c.shown then 1 else 0
  { d with
    before := if first then c.before else d.before
    size := if first then c.size else d.size.join t.total
    cost := d.cost + (if c.label == .skipped then 0 else c.cost) + charged
    weight := d.weight + c.weight
    shownParts := d.shownParts + c.shownParts + own
    shownChildren := d.shownChildren + (if own == 1 then 1 else if inner then c.shownChildren else 0) }

/-- The data of a node over children. Extra children take no place among the named ones. -/
def gather (d : TreeData) (first : Bool) : List (Option String) → List Tree → TreeData
  | _, [] => d
  | names, t :: ts =>
    let name := if t.extra then none else names.head?.join
    gather (addChild d first name t) false (if t.extra then names else names.tail) ts

/-- A node over children. A mistake is charged for what it covers. -/
def above (label : Label) (shown : Bool) (names : List (Option String)) (children : List Tree) :
    Tree :=
  let d := gather { label, shown, names } true names children
  let own := if label.isMistaken then mistakeCost + d.size.cost else 0
  .node { d with cost := d.cost + own } children

def mistakeOver (children : List Tree) (extra : Bool) : Tree :=
  (above .mistake true [] children).withExtra extra

def skippedOver (children : List Tree) : Tree :=
  above .skipped false [] children

/-- Splits off the extra trees at the end. -/
def splitExtras (ts : List Tree) : List Tree × List Tree :=
  let extras := (ts.reverse.takeWhile Tree.extra).reverse
  (ts.take (ts.length - extras.length), extras)

end Tree

/-- Whether another reading of the same part is to take the place of the first one. -/
def takesPlaceOf (other : Tree) : Option Tree → Bool
  | none => true
  | some t =>
    if other.cost != t.cost then other.cost < t.cost
    else if other.weight != t.weight then t.weight < other.weight
    else t.cost != 0

end SourceBundle.Lr
