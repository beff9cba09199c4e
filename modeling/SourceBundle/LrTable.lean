import SourceBundle.LrStates

/-!
# Parse tables

States with the same items but for what may follow them are merged, as long as they agree on what to
do, nothing that a token could be mistaken for comes into a state by it, and the states behind them
are merged too. The merged states share sets of tokens to scan for: a state scans for more tokens
than it can read where that does no harm.
-/

namespace SourceBundle.Lr

/-- What there is to know about the tokens, by their codes. -/
structure Lexicon where
  /-- The number of tokens, which is the code of the end. -/
  finish : Nat
  comment : Nat
  lineEnd : Nat
  /-- The token that words are scanned as. -/
  identifier : Nat
  isWord : Nat → Bool
  /-- Whether the token may begin with the whole other one. -/
  beginsWith : (long short : Nat) → Bool
  /-- Whether it may moreover be meant as two tokens. -/
  isDoubtful : (long short : Nat) → Bool
  /-- Whether the token shows in a tree and is looked for after a mistake. -/
  isShown : Nat → Bool

namespace Lexicon

variable (lex : Lexicon)

def codes : List Nat :=
  List.range lex.finish

def setOf (p : Nat → Bool) : TokenSet :=
  lex.codes.foldl (fun set code => if p code then set ||| (1 <<< code) else set) 0

/-- The tokens that a token must not join in a state. The end counts as a line end. -/
def excluded (token : Nat) : TokenSet :=
  lex.setOf (lex.isDoubtful (if token == lex.finish then lex.lineEnd else token))

end Lexicon

/-! ## Merging states -/

/-- The tokens at which a state has an action. -/
def keySet (row : Array (List Action)) : TokenSet :=
  row.zipIdx.foldl (fun set (actions, token) =>
    if actions.isEmpty then set else set ||| (1 <<< token)) 0

/-- Whether two lists of actions agree when states of one group are taken as one. -/
def sameActions (groupOf : Array Nat) : List Action → List Action → Bool
  | [], [] => true
  | .shift s again :: as, .shift s' again' :: bs =>
    groupOf.getD s 0 == groupOf.getD s' 0 && again == again' && sameActions groupOf as bs
  | a :: as, b :: bs => a == b && sameActions groupOf as bs
  | _, _ => false

/-- What merging looks at in a state: its actions by token, where there are any, the set of these
tokens, and the states behind it by symbol. -/
structure StateView where
  entries : List (Nat × List Action)
  keys : TokenSet
  gotos : List (Nat × Nat)
  deriving Inhabited

def viewsOf (a : Automaton) : Array StateView :=
  (a.actions.zip a.gotos).map fun (row, gotos) =>
    { entries := row.toList.zipIdx.filterMap fun (actions, token) =>
        if actions.isEmpty then none else some (token, actions)
      keys := keySet row, gotos }

/-- Goes through two lists in the order of their keys. `both` is asked where a key is in both
lists, `one` where it is in one only. -/
def anyAlong {α : Type} (both : Nat → α → α → Bool) (one : Bool → Nat → Bool) :
    (fuel : Nat) → List (Nat × α) → List (Nat × α) → Bool
  | 0, _, _ => false
  | _, [], [] => false
  | fuel + 1, (k, _) :: as, [] => one true k || anyAlong both one fuel as []
  | fuel + 1, [], (k, _) :: bs => one false k || anyAlong both one fuel [] bs
  | fuel + 1, (k, a) :: as, (k', b) :: bs =>
    if k == k' then both k a b || anyAlong both one fuel as bs
    else if k < k' then one true k || anyAlong both one fuel as ((k', b) :: bs)
    else one false k' || anyAlong both one fuel ((k, a) :: as) bs

/-- Whether two states must not be merged for their own actions. -/
def conflictNow (excluded : Array TokenSet) (tokens : TokenSet) (groupOf : Array Nat)
    (a b : StateView) : Bool :=
  anyAlong (fun _ as bs => !sameActions groupOf as bs)
    (fun inFirst token =>
      excluded.getD token 0 &&& (if inFirst then b.keys else a.keys) &&& tokens != 0)
    (a.entries.length + b.entries.length) a.entries b.entries

/-- Whether two states must not be merged for the states behind them. -/
def conflictLater (groupOf : Array Nat) (a b : StateView) : Bool :=
  let differ (s s' : Nat) : Bool := groupOf.getD s 0 != groupOf.getD s' 0
  anyAlong (fun _ as bs =>
      match as.getLast?, bs.getLast? with
      | some (.shift s _), some (.shift s' _) => differ s s'
      | _, _ => false)
    (fun _ _ => false) (a.entries.length + b.entries.length) a.entries b.entries ||
  anyAlong (fun _ s s' => differ s s') (fun _ _ => false) (a.gotos.length + b.gotos.length)
    a.gotos b.gotos

/-- Parts a group: each state that stays turns out the later ones that conflict with it. -/
def partGroup (conflict : Nat → Nat → Bool) :
    (fuel : Nat) → List Nat → List Nat × List Nat
  | fuel + 1, s :: rest =>
    let (out, others) := rest.partition (conflict s)
    let (kept, moved) := partGroup conflict fuel others
    (s :: kept, out ++ moved)
  | _, states => (states, [])

/-- A partition of the states, both ways. -/
structure Groups where
  groupOf : Array Nat
  groups : Array (List Nat)

/-- Parts every group, the new ones too. The answer tells whether any was parted. -/
def Groups.part (conflict : Array Nat → Nat → Nat → Bool) (gs : Groups) : Groups × Bool := Id.run do
  let mut groupOf := gs.groupOf
  let mut groups := gs.groups
  let mut changed := false
  for g in [0:gs.groupOf.size] do
    if groups.size ≤ g then
      break
    let states := groups.getD g []
    let (kept, moved) := partGroup (conflict groupOf) states.length states
    if !moved.isEmpty then
      changed := true
      for s in moved do
        groupOf := groupOf.set! s groups.size
      groups := (groups.set! g kept).push moved
  return (⟨groupOf, groups⟩, changed)

/-- Parts groups again until none changes. -/
def Groups.partAll (conflict : Array Nat → Nat → Nat → Bool) : (fuel : Nat) → Groups → Groups
  | 0, gs => gs
  | fuel + 1, gs =>
    let (next, changed) := gs.part conflict
    if changed then next.partAll conflict fuel else next

/-- The groups of states to merge. -/
def mergeGroups (lex : Lexicon) (a : Automaton) : Groups :=
  let views := viewsOf a
  let excluded := (Array.range (lex.finish + 1)).map lex.excluded
  let tokens := lex.setOf fun _ => true
  let coreCount := a.cores.foldl max 0 + 1
  let byCore := a.cores.zipIdx.foldr (fun (core, s) groups => groups.modify core (s :: ·))
    (Array.replicate coreCount [])
  let view (s : Nat) := views.getD s default
  let now := (Groups.part (fun groupOf s s' =>
    conflictNow excluded tokens groupOf (view s) (view s')) ⟨a.cores, byCore⟩).1
  now.partAll (fun groupOf s s' => conflictLater groupOf (view s) (view s')) a.cores.size

/-! ## Tables -/

structure Table where
  lex : Lexicon
  /-- The actions of each state by token. State 0 is for reading on after a mistake, state 1 for the
  beginning of a source. -/
  actions : Array (Array (List Action))
  gotos : Array (List (Nat × Nat))
  reductions : Array Reduction
  /-- The tokens that each state scans for. -/
  scanned : Array TokenSet
  /-- Which symbols show in a tree. -/
  shown : Array Bool

namespace Table

def scannedAt (t : Table) (state : Nat) : TokenSet :=
  t.scanned.getD state 0

def isShown (t : Table) (symbol : Nat) : Bool :=
  t.shown.getD symbol false

def actionsAt (t : Table) (state token : Nat) : List Action :=
  (t.actions.getD state #[]).getD token []

/-- The state behind a rule that ends in a state. -/
def goto (t : Table) (state symbol : Nat) : Nat :=
  ((t.gotos.getD state []).lookup symbol).getD 0

end Table

/-- The row of a merged state: the first entry that one of its states has. -/
def mergeRows (tokenCount : Nat) (rows : List (Array (List Action))) : Array (List Action) :=
  (Array.range tokenCount).map fun token =>
    (rows.findSome? fun row =>
      let actions := row.getD token []
      if actions.isEmpty then none else some actions).getD []

def mergeGotos (lists : List (List (Nat × Nat))) : List (Nat × Nat) :=
  lists.foldl (fun merged list =>
    merged ++ list.filter fun (symbol, _) => !merged.any (·.1 == symbol)) []

def renameShift (name : Nat → Nat) : Action → Action
  | .shift s again => .shift (name s) again
  | action => action

/-- The tokens that a state scans for on its own account. -/
def ownScanned (lex : Lexicon) (row : Array (List Action)) : TokenSet :=
  (List.range row.size).foldl (fun set token =>
    if (row.getD token []).isEmpty then set
    else set ||| (1 <<< if lex.isWord token then lex.identifier else token)) 0

/-- Whether two states may scan for the tokens of both. `together` tells which tokens come together
in some state anyway. -/
def scanTogether (lex : Lexicon) (together : Array TokenSet) (a b : TokenSet) : Bool :=
  lex.codes.all fun token =>
    let inFirst := a.testBit token
    inFirst == b.testBit token ||
      lex.codes.all fun other =>
        !((if inFirst then b else a).testBit other) ||
          (!lex.isDoubtful token other &&
            ((together.getD token 0).testBit other ||
              !(lex.beginsWith token other || lex.beginsWith other token)))

/-- Gives each state the first scan set that it may join, which grows by it. -/
def scanSets (lex : Lexicon) (together : Array TokenSet) (own : List TokenSet) :
    Array TokenSet × Array Nat :=
  own.foldl (fun (sets, places) set =>
    match sets.findIdx? fun s => scanTogether lex together s set with
    | some k => (sets.modify k (· ||| set), places.push k)
    | none => (sets.push set, places.push sets.size)) (#[], #[])

/-- The tokens that come together with each token in some state. -/
def tokensTogether (lex : Lexicon) (a : Automaton) : Array TokenSet :=
  a.actions.foldl (fun sets row =>
    let keys := keySet row
    lex.codes.foldl (fun sets token =>
      if keys.testBit token then sets.modify token (· ||| keys) else sets) sets)
    (Array.replicate lex.finish 0)

/-- The table for the states of a syntax. After the first two states larger ones come first. -/
def Table.ofAutomaton (lex : Lexicon) (shown : Array Bool) (a : Automaton) : Table :=
  let tokenCount := lex.finish + 1
  let onMistake := (Array.range tokenCount).map fun token =>
    if lex.isShown token || token == lex.finish then [Action.recover] else []
  let together := tokensTogether lex a
  let a := { a with actions := a.actions.set! 0 onMistake }
  let merged := mergeGroups lex a
  let rows := merged.groups.map fun states =>
    (mergeRows tokenCount (states.map fun s => a.actions.getD s #[]),
      mergeGotos (states.map fun s => a.gotos.getD s []))
  let size (g : Nat) : Nat :=
    let (row, gotos) := rows.getD g default
    (row.toList.filter fun actions => !actions.isEmpty).length + gotos.length
  let first := [merged.groupOf.getD 0 0, merged.groupOf.getD 1 0]
  let others := (List.range rows.size).filter fun g => !first.contains g
  let sized := others.map fun g => (g, size g)
  let order := first ++ (sized.mergeSort fun x y => y.2 ≤ x.2).map (·.1)
  let names := order.zipIdx.foldl (fun (names : Array Nat) (g, i) => names.set! g i)
    (Array.replicate rows.size 0)
  let name (s : Nat) : Nat := names.getD (merged.groupOf.getD s 0) 0
  let actions := order.map fun g =>
    (rows.getD g default).1.map fun (actions : List Action) => actions.map (renameShift name)
  let gotos := order.map fun g =>
    (rows.getD g default).2.map fun (symbol, s) => (symbol, name s)
  let (sets, places) := scanSets lex together (actions.map (ownScanned lex))
  { lex, actions := actions.toArray, gotos := gotos.toArray, reductions := a.reductions
    scanned := places.map fun k => sets.getD k 0, shown }

def Table.ofGrammar {τ : Type} (lex : Lexicon) (g : Grammar τ) : Table :=
  let tokens := (Array.range lex.finish).map lex.isShown
  .ofAutomaton lex ((tokens.push false) ++ g.rules.map fun r => !r.hidden)
    (.ofGrammar g lex.comment)

end SourceBundle.Lr
