import SourceBundle.GoGrammar
import SourceBundle.GoScan

/-!
# Reading forms

Where the readings of a form can end. A form may be read in several ways; `Form.ends` lists every
end once, and `Form.weight?` is the weight of the heaviest reading that ends at a given place.
-/

namespace SourceBundle.Go

namespace Cursor

/-- Adds an end that is not listed yet. -/
def addEnd (ends : List Cursor) (c : Cursor) : List Cursor :=
  if ends.any (·.left == c.left) then ends else ends ++ [c]

def union (as bs : List Cursor) : List Cursor :=
  bs.foldl addEnd as

/-- Passes a token of the given length. -/
def passLength (c : Cursor) : Option Nat → List Cursor
  | none => []
  | some n => [c.advance n]

/-- Passes a sign. -/
def passSign (c : Cursor) (s : String) : Option Cursor :=
  if s.toList.isPrefixOf c.rest then some (c.advance s.length) else none

end Cursor

/-- The longest of the signs that the text begins with. -/
def longestSign (text : List Char) (signs : List String) : Option String :=
  signs.foldl (fun best s =>
    if s.toList.isPrefixOf text && best.all (·.length < s.length) then some s else best) none

namespace Form

/-- The ends of a token at a cursor that stands before it. Forms that are no tokens have none. -/
def tokenEnds (c : Cursor) : Form → List Cursor
  | .word w =>
    let n := wordLength c.rest
    if n != 0 && c.rest.take n == w.toList then [c.advance n] else []
  | .name reserved =>
    let n := wordLength c.rest
    if n == 0 || reserved.contains (String.ofList (c.rest.take n)) then [] else [c.advance n]
  | .sign s longer =>
    if longer.any fun l => l.toList.isPrefixOf c.rest then [] else (c.passSign s).toList
  | .operator ending =>
    match longestSign c.rest (binaryOperators ++ ending.operators) with
    | some s => if binaryOperators.contains s then (c.passSign s).toList else []
    | none => []
  | .number => c.passLength (numberLength? c.rest)
  | .rune => c.passLength (runeLength? c.rest)
  | .string => (passString c).toList
  | _ => []

/-- A line end, a semicolon or a NUL, on the line of the cursor. -/
def terminatorEnds (c : Cursor) : List Cursor :=
  let c := c.skipInLine
  match c.rest with
  | '\n' :: _ | ';' :: _ | '\x00' :: _ => [c.next]
  | _ => []

/-- The places that a step leads to in any number of steps from those in `todo`, which are found
already. `count` bounds the number of places. -/
def spread (step : Cursor → List Cursor) :
    (count : Nat) → (todo found : List Cursor) → List Cursor
  | 0, _, found => found
  | _, [], found => found
  | count + 1, c :: todo, found =>
    let fresh := (step c).filter fun d => d.left < c.left && !found.any (·.left == d.left)
    spread step count (todo ++ fresh) (found ++ fresh)

/-- Where the readings of a form that begin at the cursor can end. `fuel` bounds the depth of the
reading. -/
def ends : (fuel : Nat) → Form → Cursor → List Cursor
  | 0, _, _ => []
  | fuel + 1, f, c =>
    match f with
    | .empty => [c]
    | .terminator => terminatorEnds c
    | .phrase p => ends fuel p.form c
    | .seq f g => (ends fuel f c).foldl (fun found d => Cursor.union found (ends fuel g d)) []
    | .alt f g => Cursor.union (ends fuel f c) (ends fuel g c)
    | .many f => spread (ends fuel f) (c.left + 1) [c] [c]
    | .sameLine f =>
      let d := c.skipInLine
      match d.rest with
      | '\n' :: _ => []
      | _ => ends fuel f d
    | .notNext f => if (ends fuel f c).isEmpty then [c] else []
    | .weighted _ f => ends fuel f c
    | token => token.tokenEnds c.skip

/-- The heavier of two readings, if there are any. -/
def heavier : Option Int → Option Int → Option Int
  | some a, some b => some (max a b)
  | some a, none => some a
  | none, b => b

/-- The weight of the heaviest reading of a form between two cursors. `fuel` bounds the depth of the
reading. -/
def weight? : (fuel : Nat) → Form → (c stop : Cursor) → Option Int
  | 0, _, _, _ => none
  | fuel + 1, f, c, stop =>
    match f with
    | .phrase p => weight? fuel p.form c stop
    | .weighted n f => (weight? fuel f c stop).map (n + ·)
    | .alt f g => heavier (weight? fuel f c stop) (weight? fuel g c stop)
    | .seq f g => (f.ends fuel c).foldl (fun best d => heavier best (do
        return (← weight? fuel f c d) + (← weight? fuel g d stop))) none
    | .many f => (f.ends fuel c).foldl (fun best d => heavier best (do
        if d.left < c.left then return (← weight? fuel f c d) + (← weight? fuel (.many f) d stop)
        none)) (if c.left == stop.left then some 0 else none)
    | .sameLine f => if c.skipInLine.rest.head? == some '\n' then none
      else weight? fuel f c.skipInLine stop
    | other => if (other.ends fuel c).any (·.left == stop.left) then some 0 else none

end Form

end SourceBundle.Go
