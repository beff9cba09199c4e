/-!
# Rules and productions

A syntax is a list of named rules over tokens. For table-driven parsing every rule is spread out into
productions: plain sequences of symbols, each with the rank that settles doubts about it. A
repetition becomes a rule of its own that joins two shorter repetitions.
-/

namespace SourceBundle.Lr

/-- Which operand of an operator binds tighter, if both could have the operator. -/
inductive Side where
  | left
  | right
  deriving DecidableEq, Repr, Hashable

inductive Rule (τ : Type) where
  | empty
  | token (t : τ)
  | rule (name : String)
  | seq (first second : Rule τ)
  | alt (first second : Rule τ)
  /-- Once or more. -/
  | many (r : Rule τ)
  /-- What a higher rank can have, a lower one does not get. -/
  | ranked (rank : Int) (side : Option Side) (r : Rule τ)
  /-- Of two readings that stay possible to the end the heavier is meant. -/
  | weighted (weight : Int) (r : Rule τ)
  /-- Known by another name in this place. -/
  | called (name : String) (r : Rule τ)
  deriving DecidableEq, Repr

namespace Rule

variable {τ : Type}

def chain : List (Rule τ) → Rule τ
  | [] => .empty
  | [r] => r
  | r :: rs => .seq r (chain rs)

def anyOf : List (Rule τ) → Rule τ
  | [] => .empty
  | [r] => r
  | r :: rs => .alt r (anyOf rs)

def optional (r : Rule τ) : Rule τ :=
  .alt r .empty

/-- Any number of times. -/
def anyMany (r : Rule τ) : Rule τ :=
  optional (.many r)

/-- Separated parts, at least one. -/
def separated (separator r : Rule τ) : Rule τ :=
  .seq r (anyMany (.seq separator r))

end Rule

/-- A rule with its name. The nodes of a hidden rule do not show in a tree. -/
structure NamedRule (τ : Type) where
  name : String
  hidden : Bool := false
  /-- Made from a repetition. -/
  repeated : Bool := false
  body : Rule τ

/-- A symbol in a production. Tokens come first in the numbering of symbols, then the end of the
source, then the rules. -/
structure Step where
  symbol : Nat
  rank : Int
  side : Option Side
  name : Option String
  deriving DecidableEq, Repr, Hashable

structure Production where
  rule : Nat
  steps : List Step
  weight : Int
  deriving DecidableEq, Repr

/-! ## Repetitions -/

/-- Gives every repetition a rule of its own, and equal ones the same rule. `found` holds the bodies
and names of those met so far. -/
def unroll {τ : Type} [DecidableEq τ] (owner : String) :
    Rule τ → List (Rule τ × String) → Rule τ × List (Rule τ × String)
  | .seq a b, found =>
    let (a, found) := unroll owner a found
    let (b, found) := unroll owner b found
    (.seq a b, found)
  | .alt a b, found =>
    let (a, found) := unroll owner a found
    let (b, found) := unroll owner b found
    (.alt a b, found)
  | .many r, found =>
    let (r, found) := unroll owner r found
    match found.lookup r with
    | some name => (.rule name, found)
    | none =>
      let name := s!"{owner}, repeated, {found.length}"
      (.rule name, found ++ [(r, name)])
  | .ranked rank side r, found =>
    let (r, found) := unroll owner r found
    (.ranked rank side r, found)
  | .weighted weight r, found =>
    let (r, found) := unroll owner r found
    (.weighted weight r, found)
  | .called name r, found =>
    let (r, found) := unroll owner r found
    (.called name r, found)
  | r, found => (r, found)

/-- The rules without repetitions. The rules made from repetitions come last. -/
def unrolled {τ : Type} [DecidableEq τ] (rules : List (NamedRule τ)) : List (NamedRule τ) :=
  let (plain, found) := rules.foldl (fun (done, found) r =>
    let (body, found) := unroll r.name r.body found
    (done ++ [{ r with body }], found)) (([], []) : List (NamedRule τ) × List (Rule τ × String))
  plain ++ found.map fun (body, name) =>
    { name, hidden := true, repeated := true
      body := .alt (.seq (.rule name) (.rule name)) body }

/-! ## Spreading out -/

/-- The alternatives of a rule without repetitions. -/
def alternatives {τ : Type} : Rule τ → List (Rule τ)
  | .alt a b => alternatives a ++ alternatives b
  | .seq a b => (alternatives a).flatMap fun x => (alternatives b).map (.seq x ·)
  | .ranked rank side r => (alternatives r).map (.ranked rank side ·)
  | .weighted weight r => (alternatives r).map (.weighted weight ·)
  | .called name r => (alternatives r).map (.called name ·)
  | r => [r]

/-- Gives the last step a rank and, where there is one to give, a side. -/
def withLastRank (rank : Int) (side : Option (Option Side)) : List Step → List Step
  | [] => []
  | [s] => [{ s with rank, side := side.getD s.side }]
  | s :: ss => s :: withLastRank rank side ss

/-- The steps of an alternative. A rank reaches the last step of its part only at the end of the
production: before other steps it is the rank around the part that counts. -/
def stepsOf {τ : Type} (code : Rule τ → Nat) (rank : Int) (side : Option Side)
    (name : Option String) (atEnd : Bool) : Rule τ → List Step
  | .seq a b => stepsOf code rank side name false a ++ stepsOf code rank side name atEnd b
  | .ranked inner innerSide r =>
    let steps := stepsOf code inner (innerSide.or side) name atEnd r
    if atEnd then steps else withLastRank rank (innerSide.map fun _ => side) steps
  | .weighted _ r => stepsOf code rank side name atEnd r
  | .called inner r => stepsOf code rank side (some inner) atEnd r
  | .token t => [⟨code (.token t), rank, side, name⟩]
  | .rule r => [⟨code (.rule r), rank, side, name⟩]
  | _ => []

/-- The weight of an alternative: the one farthest from zero of those in it. -/
def weightOf {τ : Type} : Rule τ → Int
  | .seq a b => farther (weightOf a) (weightOf b)
  | .weighted weight r => farther weight (weightOf r)
  | .ranked _ _ r => weightOf r
  | .called _ r => weightOf r
  | _ => 0
where
  farther (a b : Int) : Int := if a.natAbs < b.natAbs then b else a

/-- A syntax, spread out. -/
structure Grammar (τ : Type) where
  tokens : Array τ
  rules : Array (NamedRule τ)
  productions : Array Production

namespace Grammar

variable {τ : Type}

/-- The symbol for the end of the source. -/
def finish (g : Grammar τ) : Nat :=
  g.tokens.size

def symbolOfRule (g : Grammar τ) (rule : Nat) : Nat :=
  g.tokens.size + 1 + rule

/-- The number of symbols. -/
def symbolCount (g : Grammar τ) : Nat :=
  g.tokens.size + 1 + g.rules.size

/-- The rule that a symbol stands for, if it is one. -/
def ruleOfSymbol? (g : Grammar τ) (symbol : Nat) : Option Nat :=
  if g.tokens.size < symbol then some (symbol - (g.tokens.size + 1)) else none

def isRepeated (g : Grammar τ) (rule : Nat) : Bool :=
  (g.rules[rule]?.map (·.repeated)).getD false

/-- Spreads out the rules, given with all tokens. -/
def ofRules [DecidableEq τ] (tokens : List τ) (rules : List (NamedRule τ)) : Grammar τ :=
  let rules := unrolled rules
  let names := rules.map (·.name)
  let code : Rule τ → Nat
    | .token t => tokens.idxOf t
    | .rule name => tokens.length + 1 + names.idxOf name
    | _ => tokens.length
  let productions := rules.zipIdx.flatMap fun (r, i) =>
    ((alternatives r.body).map fun a =>
      (⟨i, stepsOf code 0 none none true a, weightOf a⟩ : Production)).eraseDups
  ⟨tokens.toArray, rules.toArray, productions.toArray⟩

end Grammar

end SourceBundle.Lr
