/-!
# Blank characters

The characters with Unicode's `White_Space` property, and trimming by them. Every line of a rule
file, comment or command value that this library trims is trimmed by this class.
-/

namespace SourceBundle

/-- Unicode's `White_Space` property. -/
def isBlank (c : Char) : Bool :=
  let n := c.toNat
  (9 ≤ n && n ≤ 13) || n == 0x20 || n == 0x85 || n == 0xA0 || n == 0x1680 ||
    (0x2000 ≤ n && n ≤ 0x200A) || n == 0x2028 || n == 0x2029 || n == 0x202F || n == 0x205F ||
    n == 0x3000

/-- The characters before the blank tail. -/
def trimEndBlank (cs : List Char) : List Char :=
  cs.foldr (fun c tail => if tail.isEmpty && isBlank c then [] else c :: tail) []

/-- Drops the blank characters at both ends. -/
def trimBlank (cs : List Char) : List Char :=
  trimEndBlank (cs.dropWhile isBlank)

end SourceBundle
