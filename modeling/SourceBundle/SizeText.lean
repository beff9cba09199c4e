/-!
# File sizes as text

A size is shown in bytes, kibibytes or mebibytes, the larger units with one decimal place. The
amount is first held in 53 significant bits and then rounded to tenths; in both steps a value
halfway between two neighbours goes to the even one.
-/

namespace SourceBundle

/-- The whole number nearest to `n / d`, an even one where two are nearest. -/
def roundQuotient (n d : Nat) : Nat :=
  let q := n / d
  let r := n % d
  if d < 2 * r || (d == 2 * r && q % 2 == 1) then q + 1 else q

/-- The nearest number of 53 significant bits. -/
def nearest53 (n : Nat) : Nat :=
  let unit := 1 <<< (n.log2 - 52)
  roundQuotient n unit * unit

inductive SizeUnit where
  | byte
  | kibibyte
  | mebibyte
  deriving DecidableEq, Repr

namespace SizeUnit

def bytes : SizeUnit → Nat
  | .byte => 1
  | .kibibyte => 1024
  | .mebibyte => 1024 * 1024

def label : SizeUnit → String
  | .byte => "B"
  | .kibibyte => "KB"
  | .mebibyte => "MB"

/-- The unit that a size is shown in. -/
def ofSize (n : Nat) : SizeUnit :=
  if n < kibibyte.bytes then .byte
  else if n < mebibyte.bytes then .kibibyte
  else .mebibyte

end SizeUnit

/-- A size as it is shown: tenths of a unit. -/
structure ShownSize where
  tenths : Nat
  unit : SizeUnit
  deriving DecidableEq, Repr

namespace ShownSize

def ofSize (n : Nat) : ShownSize :=
  let unit := SizeUnit.ofSize n
  ⟨roundQuotient (nearest53 n * 10) unit.bytes, unit⟩

/-- Ten times the number of bytes that is shown. -/
def tenthsOfBytes (s : ShownSize) : Nat :=
  s.tenths * s.unit.bytes

/-- Whole bytes have no decimal place. -/
def text (s : ShownSize) : String :=
  match s.unit with
  | .byte => toString (s.tenths / 10) ++ s.unit.label
  | _ => toString (s.tenths / 10) ++ "." ++ toString (s.tenths % 10) ++ s.unit.label

end ShownSize

def sizeText (n : Nat) : String :=
  (ShownSize.ofSize n).text

end SourceBundle
