import SourceBundle.SyntaxRule
import Std.Data.HashMap

/-!
# States of a parser

An item is a production with a dot up to which it has been read, and a state is a set of items, each
with the tokens that may follow it. `Automaton.ofGrammar` finds all states that reading can reach
and what to do in each of them at each token. Doubts are settled by ranks; where these leave several
actions, all of them stay.
-/

namespace SourceBundle.Lr

/-- A set of tokens, as bits at their codes. -/
abbrev TokenSet := Nat

inductive Action where
  /-- Reads the token. A shift that only continues a repetition comes after what else there is. -/
  | shift (state : Nat) (again : Bool)
  /-- Ends a production. -/
  | reduce (reduction : Nat)
  | accept
  /-- Passes over a comment. -/
  | pass
  /-- Takes the token for a mistake. -/
  | recover
  deriving DecidableEq, Repr, Inhabited

/-- What ending a production does: so many nodes become one for the rule. -/
structure Reduction where
  rule : Nat
  count : Nat
  weight : Int
  names : List (Option String)
  deriving DecidableEq, Repr, Hashable, Inhabited

/-! ## Items -/

/-- All that matters about a production with a dot in it. -/
structure ItemKey where
  rule : Nat
  dot : Nat
  weight : Int
  length : Nat
  rank : Int
  side : Option Side
  names : List (Option String)
  rest : List Step
  deriving DecidableEq, Hashable

def Production.itemKey (p : Production) (dot : Nat) : ItemKey :=
  let read := p.steps.take dot
  { rule := p.rule, dot, weight := p.weight, length := p.steps.length
    rank := (read.getLast?.map (·.rank)).getD 0
    side := read.getLast?.bind (·.side)
    names := read.map (·.name)
    rest := p.steps.drop dot }

structure Item where
  rule : Nat
  dot : Nat
  /-- The symbol behind the dot. -/
  symbol : Option Nat
  /-- The symbol behind that. -/
  second : Option Nat
  rank : Int
  side : Option Side
  /-- The item behind the symbol. -/
  next : Nat
  /-- What ending the production does. -/
  reduction : Nat
  deriving Repr, Inhabited

/-- What the states are made from. -/
structure ItemTable where
  items : Array Item
  reductions : Array Reduction
  /-- The tokens that a symbol can begin with. -/
  first : Array TokenSet
  /-- For each rule the items at its beginning, through other rules too, each with the tokens that
  may follow it; what follows the rule may also follow those that are marked. -/
  openings : Array (List (Nat × TokenSet × Bool))

/-- Repeats a step until nothing changes, at most `fuel` times. -/
def settle {α : Type} [BEq α] (step : α → α) : (fuel : Nat) → α → α
  | 0, a => a
  | fuel + 1, a =>
    let b := step a
    if b == a then a else settle step fuel b

namespace Grammar

variable {τ : Type} (g : Grammar τ)

/-- The rule that stands for a source with its end. -/
def startRule : Nat :=
  g.rules.size

/-- All productions, with that of the start rule. -/
def allProductions : List Production :=
  g.productions.toList ++ [⟨g.startRule, [⟨g.symbolOfRule 0, 0, none, none⟩], 0⟩]

def firstTokens : Array TokenSet :=
  let tokens := (Array.range (g.symbolCount)).map fun s => if s < g.finish then 1 <<< s else 0
  settle (fun sets => g.productions.foldl (fun sets p =>
    match p.steps with
    | [] => sets
    | s :: _ => sets.modify (g.symbolOfRule p.rule) (· ||| sets.getD s.symbol 0)) sets)
    g.rules.size tokens

/-- The rules that a rule can begin with, each with the tokens that may follow it there and whether
what follows the outer rule may follow it. -/
def openingRules (first : Array TokenSet) (byRule : Array (List Production)) (rule : Nat) :
    Array (Option (TokenSet × Bool)) :=
  let none' : Array (Option (TokenSet × Bool)) := Array.replicate g.rules.size none
  let add (found : Array (Option (TokenSet × Bool))) (r : Nat) (set : TokenSet) (open' : Bool) :=
    found.modify r fun
      | none => some (set, open')
      | some (set', open'') => some (set ||| set', open' || open'')
  settle (fun found => (List.range g.rules.size).foldl (fun found r =>
    match found.getD r none with
    | none => found
    | some (set, open') => (byRule.getD r []).foldl (fun found p =>
      match p.steps with
      | [] => found
      | s :: rest =>
        match g.ruleOfSymbol? s.symbol, rest with
        | none, _ => found
        | some inner, [] => add found inner set open'
        | some inner, t :: _ => add found inner (first.getD t.symbol 0) false) found) found)
    g.rules.size (add none' rule 0 true)

def itemTable : ItemTable := Id.run do
  let productions := g.allProductions
  let mut byRule : Array (List Production) := Array.replicate (g.rules.size + 1) []
  for p in productions.reverse do
    byRule := byRule.modify p.rule (p :: ·)
  let longest := productions.foldl (fun n p => max n p.steps.length) 0
  let mut codes : Std.HashMap ItemKey Nat := ∅
  let mut keys : Array ItemKey := #[]
  for ps in byRule do
    for dot in [0:longest + 1] do
      for p in ps do
        if dot ≤ p.steps.length then
          let key := p.itemKey dot
          if !codes.contains key then
            codes := codes.insert key keys.size
            keys := keys.push key
  let mut reductionCodes : Std.HashMap Reduction Nat := ∅
  let mut reductions : Array Reduction := #[]
  let mut items : Array Item := #[]
  for key in keys do
    let mut reduction := 0
    if key.rest.isEmpty then
      let r : Reduction := ⟨key.rule, key.dot, key.weight, key.names⟩
      match reductionCodes[r]? with
      | some code => reduction := code
      | none =>
        reduction := reductions.size
        reductionCodes := reductionCodes.insert r reduction
        reductions := reductions.push r
    let next :=
      match key.rest with
      | [] => 0
      | s :: rest =>
        codes.getD { key with
          dot := key.dot + 1, rank := s.rank, side := s.side, names := key.names ++ [s.name],
          rest } 0
    items := items.push
      { rule := key.rule, dot := key.dot, symbol := key.rest.head?.map (·.symbol)
        second := key.rest[1]?.map (·.symbol), rank := key.rank, side := key.side, next
        reduction }
  let first := g.firstTokens
  let mut openings : Array (List (Nat × TokenSet × Bool)) := #[]
  for rule in [0:g.rules.size] do
    let found := g.openingRules first byRule rule
    let mut opening : List (Nat × TokenSet × Bool) := []
    for (info, r) in found.zipIdx do
      match info with
      | none => pure ()
      | some (set, open') =>
        for p in byRule.getD r [] do
          opening := (codes.getD (p.itemKey 0) 0, set, open') :: opening
    openings := openings.push opening.reverse
  return ⟨items, reductions, first, openings⟩

end Grammar

/-! ## States -/

/-- The items that a state is known by, in the order of their codes, with what may follow them. -/
abbrev Kernel := List (Nat × TokenSet)

/-- Adds an item to a kernel. -/
def Kernel.add (item : Nat) (set : TokenSet) : Kernel → Kernel
  | [] => [(item, set)]
  | (other, set') :: rest =>
    if other == item then (other, set' ||| set) :: rest
    else if item < other then (item, set) :: (other, set') :: rest
    else (other, set') :: Kernel.add item set rest

/-- What may follow each item of a state; nothing for items that are not in it. -/
def ItemTable.closure (t : ItemTable) (ruleOf : Nat → Option Nat) (kernel : Kernel) :
    Array TokenSet :=
  kernel.foldl (fun sets (code, set) =>
    let item := t.items.getD code default
    let sets := sets.modify code (· ||| set)
    match item.symbol.bind ruleOf with
    | none => sets
    | some rule =>
      let after := (item.second.map fun s => t.first.getD s 0).getD set
      (t.openings.getD rule []).foldl (fun sets (opening, own, open') =>
        sets.modify opening fun s => if open' then s ||| own ||| after else s ||| own) sets)
    (Array.replicate t.items.size 0)

/-- All states that reading can reach. State 0 is for reading on after a mistake, state 1 for the
beginning of a source. -/
structure Automaton where
  /-- The actions of each state by token. -/
  actions : Array (Array (List Action))
  /-- The states behind the rules that may end in a state, by symbol. -/
  gotos : Array (List (Nat × Nat))
  /-- States with the same items have the same core. -/
  cores : Array Nat
  reductions : Array Reduction

/-- Settles doubt about a token that may be shifted and may end productions. `winners` are the items
of the highest rank that end there, `doubtful` all items that have a part in it. -/
def settleShift {τ : Type} (g : Grammar τ) (items : List Item) (winners moving : List Item)
    (target : Nat) : List Action :=
  let shift := Action.shift target false
  let reduces := winners.map fun i => Action.reduce i.reduction
  let rank := (winners.head?.map (·.rank)).getD 0
  match items with
  | [] => reduces ++ [shift]
  | i :: rest =>
    if g.isRepeated i.rule && rest.all (·.rule == i.rule) then
      reduces ++ [.shift target true]
    else
      let higher := moving.any (rank < ·.rank)
      let lower := moving.any (·.rank < rank)
      if higher && !lower then [shift]
      else if lower && !higher then reduces
      else if higher || lower then reduces ++ [shift]
      else if winners.all (·.side == some .left) then reduces
      else if winners.all (·.side == some .right) then [shift]
      else reduces ++ [shift]

/-- The actions of a state at a token. `ended` are the items that end before the token. -/
def actionsAt {τ : Type} (g : Grammar τ) (t : ItemTable) (closed : List Item) (token : Nat)
    (ended : List Item) (target : Option Nat) : List Action :=
  let rank := ended.foldl (fun best i => max best i.rank) ((ended.head?.map (·.rank)).getD 0)
  let winners := ended.filter (·.rank == rank)
  let reduce (i : Item) : Action :=
    if i.rule == g.startRule then .accept else .reduce i.reduction
  match target with
  | none => winners.map reduce
  | some state =>
    if winners.isEmpty then [.shift state false]
    else
      let moving := closed.filter fun i =>
        i.dot != 0 && i.symbol.any fun s => (t.first.getD s 0).testBit token
      settleShift g (moving ++ ended) winners moving state

def Automaton.ofGrammar {τ : Type} (g : Grammar τ) (comment : Nat) : Automaton := Id.run do
  let t := g.itemTable
  let tokenCount := g.finish + 1
  let startItem := (t.items.findIdx? fun i => i.rule == g.startRule && i.dot == 0).getD 0
  let start : Kernel := [(startItem, 1 <<< g.finish)]
  let mut codes : Std.HashMap Kernel Nat := Std.HashMap.ofList [([], 0), (start, 1)]
  let mut kernels : Array Kernel := #[[], start]
  let mut coreCodes : Std.HashMap (List Nat) Nat := Std.HashMap.ofList [([], 0), ([startItem], 1)]
  let mut cores : Array Nat := #[0, 1]
  let mut actions : Array (Array (List Action)) := #[Array.replicate tokenCount []]
  let mut gotos : Array (List (Nat × Nat)) := #[[]]
  for state in [1:limit] do
    if kernels.size ≤ state then
      break
    let sets := t.closure g.ruleOfSymbol? (kernels.getD state [])
    let mut successors : Array Kernel := Array.replicate g.symbolCount []
    let mut ended : Array (List Item) := Array.replicate tokenCount []
    let mut closed : List Item := []
    for (set, code) in sets.zipIdx do
      if set != 0 then
        let item := t.items.getD code default
        match item.symbol with
        | some s =>
          successors := successors.modify s (Kernel.add item.next set)
          closed := item :: closed
        | none =>
          for token in [0:tokenCount] do
            if set.testBit token then
              ended := ended.modify token (item :: ·)
    let mut targets : Array (Option Nat) := Array.replicate g.symbolCount none
    for (kernel, symbol) in successors.zipIdx do
      if !kernel.isEmpty then
        match codes[kernel]? with
        | some code => targets := targets.set! symbol (some code)
        | none =>
          targets := targets.set! symbol (some kernels.size)
          codes := codes.insert kernel kernels.size
          kernels := kernels.push kernel
          let core := kernel.map (·.1)
          match coreCodes[core]? with
          | some code => cores := cores.push code
          | none =>
            cores := cores.push coreCodes.size
            coreCodes := coreCodes.insert core coreCodes.size
    let mut row : Array (List Action) := #[]
    for token in [0:tokenCount] do
      row := row.push (if token == comment then [.pass]
        else actionsAt g t closed token (ended.getD token []).reverse (targets.getD token none))
    let mut behind : List (Nat × Nat) := []
    for symbol in [tokenCount:g.symbolCount] do
      match targets.getD symbol none with
      | some s => behind := (symbol, s) :: behind
      | none => pure ()
    actions := actions.push row
    gotos := gotos.push behind.reverse
  return ⟨actions, gotos, cores, t.reductions⟩
where
  /-- More states than any syntax of this size has. -/
  limit : Nat := 1000000

end SourceBundle.Lr
