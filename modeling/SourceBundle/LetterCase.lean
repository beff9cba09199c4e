import SourceBundle.LetterCaseTable

/-!
# Lowercase text

Lowercase by the full mappings of Unicode: one character may become two, and a capital sigma at the
end of a word becomes the final form. Names are ordered by their lowercase text.
-/

namespace SourceBundle

def inRanges (ranges : List (Nat × Nat)) (c : Char) : Bool :=
  ranges.any fun (lo, hi) => lo ≤ c.toNat && c.toNat ≤ hi

def isCased (c : Char) : Bool :=
  inRanges casedRanges c

def isCaseIgnorable (c : Char) : Bool :=
  inRanges caseIgnorableRanges c

/-- The lowercase form of a character on its own. -/
def lowercaseChar (c : Char) : List Char :=
  if c.toNat < 0x80 then [c.toLower]
  else if c.toNat == 0x130 then ['i', '\u0307']
  else
    match lowercaseRuns.findSome? (·.lower? c.toNat) with
    | some n => [Char.ofNat n]
    | none => [c]

/-- Whether the first character that case does not ignore has case. -/
def casedAhead (cs : List Char) : Bool :=
  match cs.dropWhile isCaseIgnorable with
  | [] => false
  | c :: _ => isCased c

/-- Lowercase of the text after `before`, which is given from its end to its start. -/
def lowercaseAfter : List Char → List Char → List Char
  | _, [] => []
  | before, c :: cs =>
    (if c == 'Σ' then
        if casedAhead before && !casedAhead cs then ['ς'] else ['σ']
      else lowercaseChar c) ++ lowercaseAfter (c :: before) cs

def lowercase (text : List Char) : List Char :=
  lowercaseAfter [] text

end SourceBundle
