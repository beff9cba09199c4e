import SourceBundle.ParseStack

/-!
# Parsing sources with mistakes

A parse by a table that never gives up. Where no branch can read a token, a missing token is put in,
or parts read before are taken for a mistake, or the token is skipped, whichever is cheapest in the
end.
-/

namespace SourceBundle.Lr

/-- What scanning finds. -/
inductive Scan where
  /-- A token between two places. A word of the language comes with its own code too. -/
  | token (code : Nat) (word : Option Nat) (start stop : Extent)
  /-- No token at a place, although one could have begun that reaches another place. -/
  | nothing (start reached : Extent)

/-- A source as a parser sees it. -/
structure ScannedSource where
  /-- The first of some tokens behind a place. -/
  scan : TokenSet → Extent → Scan
  /-- The place behind the next character, if there is one. -/
  next? : Extent → Option Extent
  /-- The number of bytes. -/
  size : Nat

structure Parser where
  table : Table
  source : ScannedSource

namespace Parser

variable (r : Parser)

def lex : Lexicon := r.table.lex

/-- The most branches that go on side by side. -/
def branchLimit : Nat := 6

/-- How many branches more may come up in between. -/
def branchOverflow : Nat := 4

def actions (state : Nat) (t : Tree) : List Action :=
  match t.label with
  | .symbol code => r.table.actionsAt state code
  | _ => []

/-! ## Tokens -/

/-- The stretch without any token between a place and the next token. `reached` is where scanning
goes on. -/
def scanMistake : (fuel : Nat) → (start reached : Extent) → Extent × Extent
  | 0, start, reached => (start, reached)
  | fuel + 1, start, reached =>
    match r.source.scan (r.table.scannedAt 0) reached with
    | .token .. => (start, reached)
    | .nothing _ far =>
      if far.bytes != reached.bytes then scanMistake fuel start far
      else
        match r.source.next? reached with
        | none => (start, reached)
        | some place => scanMistake fuel start place

/-- The token that a state reads at a place: one of those that it scans for, else any, else a
stretch of mistaken characters. -/
def tokenAt (state : Nat) (place : Extent) : Tree :=
  let ofToken (code : Nat) (word : Option Nat) (start stop : Extent) : Tree :=
    let own := (word.filter fun w => !(r.table.actionsAt state w).isEmpty).getD code
    let t := Tree.leaf (.symbol own) (place.between start) (start.between stop)
      (r.table.isShown own)
    .node { t.data with isWord := word.isSome, extra := code == r.lex.finish } []
  match r.source.scan (r.table.scannedAt state) place with
  | .token code word start stop => ofToken code word start stop
  | .nothing .. =>
    match r.source.scan (r.table.scannedAt 0) place with
    | .token code word start stop => ofToken code word start stop
    | .nothing start reached =>
      let from' := if reached.bytes != start.bytes then reached
        else (r.source.next? start).getD reached
      let (start, stop) := r.scanMistake (r.source.size + 1) start from'
      Tree.leaf .mistake (place.between start) (start.between stop) true

/-! ## Reading on -/

/-- The best of several readings of a production, and the extra trees behind it. -/
def bestReading (reduction : Reduction) : List (List Tree) → Tree × List Tree
  | [] => (default, [])
  | first :: others =>
    let read (trees : List Tree) : Tree × List Tree :=
      let (own, extras) := Tree.splitExtras trees
      let symbol := r.lex.finish + 1 + reduction.rule
      (Tree.above (.symbol symbol) (r.table.isShown symbol) reduction.names own, extras)
    others.foldl (fun best trees =>
      let candidate := read trees
      if takesPlaceOf candidate.1 (some best.1) then candidate else best) (read first)

/-- Ends a production on a branch, in a new branch for every way to do it. The answer tells whether
there are new branches; the first of them is the one behind those that there were. -/
def reduce (p : Parse) (b : Nat) (reduction : Reduction) : Parse × Option Nat := Id.run do
  let before := p.branches.size
  let (popped, groups) := p.pop b reduction.count
  let mut p := popped
  let halted := (p.branches.filter fun branch => branch.status == .halted).size
  let mut removed := 0
  for (made, readings) in groups do
    let new := made - removed
    if branchLimit + branchOverflow + halted < new then
      p := p.removeBranch new
      removed := removed + 1
    else
      let (tree, extras) := r.bestReading reduction readings
      let state := r.table.goto (p.top new).state (r.lex.finish + 1 + reduction.rule)
      p := p.push new (some (tree.addWeight reduction.weight)) state
      for extra in extras do
        p := p.push new (some extra) state
      for other in [0:new] do
        if other != b then
          let (merged, done) := p.merge other new
          if done then
            p := merged
            removed := removed + 1
            break
  return (p, if before < p.branches.size then some before else none)

/-- Reaches the end of the source on a branch: everything on it becomes one tree. -/
def accept (p : Parse) (b : Nat) (finish : Tree) : Parse :=
  let (p, groups) := (p.push b (some finish) 1).popAll b
  let p := groups.foldl (fun p (_, readings) => readings.foldl (fun (p : Parse) trees =>
    let root := rootOf trees
    let better := root.any fun t => takesPlaceOf t p.finished
    { p with
      accepted := p.accepted + 1
      finished := if better then root else p.finished }) p) p
  let p := match groups with
    | [] => p
    | (made, _) :: _ => p.removeBranch made
  p.modifyBranch b fun branch => { branch with status := .halted }
where
  /-- The last tree that is not extra, over all others. -/
  rootOf (trees : List Tree) : Option Tree :=
    let behind := (trees.reverse.takeWhile Tree.extra).reverse
    let rest := trees.reverse.dropWhile Tree.extra
    match rest with
    | [] => none
    | t :: before =>
      some (Tree.above t.label t.data.shown t.data.names (before.reverse ++ t.children ++ behind))

/-- Whether another branch, or a parse that has reached the end, is so much better than a branch
would be at a cost that going on with it is no use. -/
def isBeaten (p : Parse) (b : Nat) (mistaken : Bool) (cost : Nat) : Bool × Parse := Id.run do
  if p.finished.any fun t => t.cost ≤ cost then
    return (true, p)
  let place := (p.top b).place
  let weight := (p.top b).weight
  let (parts, after) := p.partsSince b
  let mut p := after
  for other in [0:p.branches.size] do
    if other != b && (p.branch other).status == .active &&
        place.bytes ≤ (p.top other).place.bytes then
      let (standing, after) := p.standing other
      p := after
      if Parse.Standing.compare ⟨cost, parts, weight, mistaken⟩ standing == .onlySecond then
        return (true, p)
  return (false, p)

/-- Takes the uppermost parts of a branch for a mistake, down to a state that it was in. -/
def returnTo (p : Parse) (b depth state : Nat) : Parse × Bool := Id.run do
  let (popped, groups) := p.pop b depth
  let mut p := popped
  let mut done := false
  for (made, readings) in groups do
    if (p.top made).state != state then
      p := p.modifyBranch made fun branch => { branch with status := .halted }
    else
      let (after, mistaken) := p.popMistake made
      p := after
      let (own, extras) := Tree.splitExtras (mistaken ++ readings.headD [])
      if !own.isEmpty then
        p := p.push made (some (Tree.mistakeOver own true)) state
      for extra in extras do
        p := p.push made (some extra) state
      done := true
  return (p, done)

/-- Returns to the nearest state from which a token can be read, unless that is no use. -/
def returnBefore (p : Parse) (b : Nat) (t : Tree) : Parse × Bool := Id.run do
  let known := p.branches.size
  let place := (p.top b).place
  let cost := p.cost b
  let (parts, after) := p.partsSince b
  let mut p := after
  if t.isMistake then
    return (p, false)
  for past in ((p.branch b).past).getD [] do
    let taken := (List.range known).any fun other =>
      (p.top other).state == past.state && (p.top other).place.bytes == place.bytes
    if past.state != 0 && past.place.bytes != place.bytes && !taken then
      let depth := if parts == 0 then past.depth else past.depth + 1
      let (beaten, after) := isBeaten p b false
        (cost + (past.place.between place).cost)
      p := after
      if beaten then
        break
      if !(r.actions past.state t).isEmpty then
        let (after, done) := returnTo p b depth past.state
        p := after
        if done then
          return (p, true)
  return (p, false)

/-- Skips a token on a branch. It joins what is skipped already. -/
def skip (p : Parse) (b : Nat) (t : Tree) : Parse :=
  let isComment := t.label == .symbol r.lex.comment
  let skipped := Tree.skippedOver [if isComment then t.withExtra true else t]
  let (parts, p) := p.partsSince b
  if parts == 0 then p.push b (some skipped) 0
  else
    let (p, groups) := p.pop b 1
    match groups with
    | [] => p.push b (some skipped) 0
    | (made, readings) :: _ =>
      let p := { p with branches := p.branches.extract 0 (made + 1) }
      let p := p.replaceBranch made b
      p.push b (some (Tree.skippedOver (readings.headD [] ++ [skipped]))) 0

/-- Goes on in a mistake at a token: by returning to a state from which it can be read, and by
skipping it. -/
def continueMistake (p : Parse) (b : Nat) (t : Tree) : Parse := Id.run do
  let known := p.branches.size
  let cost := p.cost b
  let (after, returned) := r.returnBefore p b t
  let mut p := { after with
    branches := (after.branches.extract 0 known) ++
      (after.branches.extract known after.branches.size).filter fun branch =>
        branch.status == .active }
  if returned && branchLimit < p.branches.size then
    return p.modifyBranch b fun branch => { branch with status := .halted }
  if t.label == .symbol r.lex.finish then
    return accept (p.push b (some (Tree.mistakeOver [] false)) 1) b t
  let (beaten, after) := isBeaten p b false (cost + partCost + t.total.cost)
  p := after
  if beaten then
    return p.modifyBranch b fun branch => { branch with status := .halted }
  return r.skip p b t

/-- What can be ended on a branch before a token, or before any token. -/
def reductionsAt (state : Nat) (token : Option Nat) : List Reduction × Bool :=
  let tokens := match token with
    | some code => [code]
    | none => r.lex.codes
  let actions := tokens.flatMap fun code => r.table.actionsAt state code
  let reductions := actions.filterMap fun
    | .reduce code => r.table.reductions[code]?
    | _ => none
  let reads := actions.any fun
    | .shift _ again => !again
    | .recover => true
    | _ => false
  (reductions.foldl (fun known (new : Reduction) =>
    if known.any fun k => k.rule == new.rule && k.count == new.count then known
    else known ++ [new]) [], reads)

/-- Ends all productions that can end on a branch before a token, or before any token. The answer
tells whether some branch can then read it. -/
def reduceAhead (p : Parse) (start : Nat) (token : Option Nat) : Parse × Bool := Id.run do
  let known := p.branches.size
  let token := token.filter (· != r.lex.finish)
  let mut p := p
  let mut readable := false
  let mut b := start
  for round in [0:r.source.size + 1000] do
    let count := p.branches.size
    if count ≤ b then
      break
    let mut merged := false
    for other in [known:b] do
      let (after, done) := p.merge other b
      if done then
        p := after
        merged := true
        break
    if merged then
      continue
    let (reductions, reads) := r.reductionsAt (p.top b).state token
    let mut last := none
    for reduction in reductions do
      let (after, new) := r.reduce p b reduction
      p := after
      last := new
    if reads then
      readable := true
    else
      match last with
      | some new =>
        if round < branchLimit then
          p := p.replaceBranch new b
          continue
        else if token.isSome then
          p := p.removeBranch b
      | none =>
        if token.isSome then
          p := p.removeBranch b
    b := if b == start then count else b + 1
  return (p, readable)

/-- Puts in a missing token on a branch, if a token can be read behind it. -/
def insertMissing (p : Parse) (b : Nat) (t : Tree) : Parse × Bool := Id.run do
  let state := (p.top b).state
  let ahead := match t.label with
    | .symbol code => some code
    | _ => none
  let mut p := p
  for code in r.lex.codes do
    match (r.table.actionsAt state code).getLast? with
    | some (.shift next _) =>
      let canEnd := (r.actions next t).any fun
        | .reduce _ => true
        | _ => false
      if next != 0 && next != state && canEnd then
        let new := p.branches.size
        let missing := Tree.missingToken code (r.table.isShown code)
        let copied := p.addBranch { p.branch b with past := none }
        let (after, readable) := r.reduceAhead (copied.push new (some missing) next) new ahead
        if readable then
          return (after, true)
        p := after
    | _ => pure ()
  return (p, false)

/-- Begins a mistake on a branch before a token that it cannot read. -/
def beginMistake (p : Parse) (b : Nat) (t : Tree) : Parse := Id.run do
  let known := p.branches.size
  let mut p := (r.reduceAhead p b none).1
  let count := p.branches.size
  let mut inserted := false
  for other in b :: (List.range count).drop known do
    if !inserted then
      let (after, done) := r.insertMissing p other t
      p := after
      inserted := done
    p := p.push other none 0
  for _ in [known:count] do
    p := (p.merge b known).1
  let past := p.pastOf b
  return r.continueMistake (p.modifyBranch b fun branch => { branch with past := some past }) b t

/-- Does to a branch what its state says at a token, till the token is read. -/
def readToken : (fuel : Nat) → Parse → (b : Nat) → Tree → Parse
  | 0, p, b, _ => p.modifyBranch b fun branch => { branch with status := .halted }
  | fuel + 1, p, b, t => Id.run do
    let state := (p.top b).state
    let mut p := p
    let mut reduced := false
    let mut last := none
    for action in r.actions state t do
      match action with
      | .shift next again =>
        if !again then
          return p.push b (some (t.withExtra false)) next
      | .pass => return p.push b (some (t.withExtra true)) state
      | .accept => return accept p b t
      | .recover => return r.continueMistake p b t
      | .reduce code =>
        let (after, new) := r.reduce p b (r.table.reductions.getD code default)
        p := after
        reduced := true
        last := new.or last
    match last with
    | some new => return readToken fuel (p.replaceBranch new b) b t
    | none =>
      let identifier := r.lex.identifier
      if reduced then
        return p.modifyBranch b fun branch => { branch with status := .halted }
      else if t.data.isWord && t.label != .symbol identifier &&
          !(r.table.actionsAt state identifier).isEmpty then
        let name := { t.data with label := .symbol identifier, extra := false, shown := true }
        return readToken fuel p b (.node name [])
      else if state == 0 then
        return r.continueMistake p b t
      else
        let parts := (p.top b).parts
        return p.modifyBranch b fun branch =>
          { branch with status := .paused, lookahead := some t, partsBefore := parts }

/-- Reads the next token on a branch. -/
def advance (p : Parse) (b : Nat) : Parse :=
  let top := p.top b
  r.readToken (p.nodes.size + 1000) p b (r.tokenAt top.state top.place)

/-! ## Choosing branches -/

/-- Gives up branches that are no use, merges those that stand alike, and puts the best first. The
answer is the least cost of a branch that is not in a mistake. -/
def thinOut (p : Parse) : Parse × Option Nat := Id.run do
  let mut p := p
  let mut least : Option Nat := none
  let mut i := 0
  for _ in [0:limit] do
    if p.branches.size ≤ i then
      break
    if (p.branch i).status == .halted then
      p := p.removeBranch i
      continue
    let (own, after) := p.standing i
    p := after
    if !own.mistaken then
      least := some (min (least.getD own.cost) own.cost)
    let mut j := 0
    for _ in [0:limit] do
      if i ≤ j then
        break
      let (a, after) := p.standing j
      let (b, after) := after.standing i
      p := after
      match a.compare b with
      | .onlyFirst =>
        p := p.removeBranch i
        i := i - 1
        j := i
      | .first | .even =>
        let (after, done) := p.merge j i
        p := after
        if done then
          i := i - 1
          j := i
      | .second =>
        let (after, done) := p.merge j i
        p := after
        if done then
          i := i - 1
          j := i
        else
          let first := p.branch j
          let second := p.branch i
          p := (p.modifyBranch i fun _ => first).modifyBranch j fun _ => second
      | .onlySecond =>
        p := p.removeBranch j
        i := i - 1
        continue
      j := j + 1
    i := i + 1
  return ({ p with branches := p.branches.extract 0 branchLimit }, least)
where
  limit : Nat := 10000

/-- Begins a mistake on the first paused branch, if no branch goes on without, and gives up the
other paused ones. -/
def resume (p : Parse) (least : Option Nat) : Parse × Option Nat := Id.run do
  let mut p := p
  let mut least := least
  let mut going := false
  let mut kept := 0
  let count := p.branches.size
  for _ in [0:count] do
    let branch := p.branch kept
    if branch.status == .paused then
      if !going && p.accepted < branchLimit then
        least := some (p.cost kept)
        p := p.modifyBranch kept fun branch => { branch with status := .active, lookahead := none }
        p := r.beginMistake p kept (branch.lookahead.getD default)
        going := true
        kept := kept + 1
      else
        p := p.removeBranch kept
    else
      going := true
      kept := kept + 1
  return (p, least)

/-- Reads on with every branch until all of them have come past `last`. -/
def readOn (p : Parse) (last : Nat) : Parse × Nat := Id.run do
  let mut p := p
  let mut last := last
  let mut b := 0
  for _ in [0:r.source.size + 1000] do
    if p.branches.size ≤ b then
      break
    for _ in [0:r.source.size + 1000] do
      if p.branches.size ≤ b || (p.branch b).status != .active then
        break
      p := r.advance p b
      let bytes := (p.top b).place.bytes
      if last < bytes || (0 < b && bytes == last) then
        last := bytes
        break
    b := b + 1
  return (p, last)

/-- Reads on until the best tree is found. -/
def run : (fuel : Nat) → Parse → (last : Nat) → Option Tree
  | 0, p, _ => p.finished
  | fuel + 1, p, last =>
    let (p, last) := r.readOn p last
    let (p, least) := thinOut p
    let (p, least) := r.resume p least
    let done := p.finished.any fun t => least.all fun c => t.cost < c
    if done || p.branches.isEmpty then p.finished else run fuel p last

/-- The tree of a source, with its mistakes. -/
def parse : Option Tree :=
  r.run (8 * r.source.size + 1000) .start 0

end Parser

end SourceBundle.Lr
