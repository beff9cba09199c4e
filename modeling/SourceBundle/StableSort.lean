/-!
# Stable sorting

Sorting by insertion. Elements that the order does not tell apart keep their places.
-/

namespace SourceBundle

variable {α : Type}

/-- Puts an element before the first one that it may precede. -/
def insertOrdered (le : α → α → Bool) (a : α) : List α → List α
  | [] => [a]
  | b :: bs => if le a b then a :: b :: bs else b :: insertOrdered le a bs

def stableSort (le : α → α → Bool) : List α → List α
  | [] => []
  | a :: as => insertOrdered le a (stableSort le as)

/-- The order of byte strings. -/
def bytesLe : List UInt8 → List UInt8 → Bool
  | [], _ => true
  | _ :: _, [] => false
  | a :: as, b :: bs => a < b || (a == b && bytesLe as bs)

end SourceBundle
