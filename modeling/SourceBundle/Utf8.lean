/-!
# Reading UTF-8

Every byte string reads as a text: bytes that do not form a character read as U+FFFD, one for each
longest stretch that a character could have begun with. The reader keeps what it has seen of an
unfinished character and takes one byte at a time.
-/

namespace SourceBundle.Utf8

/-- Stands where bytes were not understood. -/
def replacement : Char := '\uFFFD'

/-- The beginning of a character of several bytes. -/
structure Begun where
  /-- Bytes still to come, at least one. -/
  missing : Nat
  /-- The range of the next byte. -/
  low : Nat
  high : Nat
  /-- The bits read so far. -/
  bits : Nat
  deriving DecidableEq, Repr

/-- What a byte says at the start of a character. -/
inductive Lead where
  | ascii (c : Char)
  | begins (b : Begun)
  | invalid
  deriving DecidableEq, Repr

def Lead.ofByte (byte : UInt8) : Lead :=
  let n := byte.toNat
  if n < 0x80 then .ascii (Char.ofNat n)
  else if n < 0xC2 then .invalid
  else if n < 0xE0 then .begins ⟨1, 0x80, 0xBF, n - 0xC0⟩
  else if n == 0xE0 then .begins ⟨2, 0xA0, 0xBF, 0⟩
  else if n == 0xED then .begins ⟨2, 0x80, 0x9F, 0xD⟩
  else if n < 0xF0 then .begins ⟨2, 0x80, 0xBF, n - 0xE0⟩
  else if n == 0xF0 then .begins ⟨3, 0x90, 0xBF, 0⟩
  else if n < 0xF4 then .begins ⟨3, 0x80, 0xBF, n - 0xF0⟩
  else if n == 0xF4 then .begins ⟨3, 0x80, 0x8F, 4⟩
  else .invalid

/-- The characters that a byte completes at the start of a character, and what it leaves begun. -/
def start (byte : UInt8) : List Char × Option Begun :=
  match Lead.ofByte byte with
  | .ascii c => ([c], none)
  | .begins b => ([], some b)
  | .invalid => ([replacement], none)

/-- The characters that a byte completes, and what it leaves begun. A byte that cannot continue what
was begun ends it and starts anew. -/
def step : Option Begun → UInt8 → List Char × Option Begun
  | none, byte => start byte
  | some b, byte =>
    if b.low ≤ byte.toNat && byte.toNat ≤ b.high then
      let bits := b.bits * 64 + (byte.toNat - 0x80)
      if b.missing == 1 then ([Char.ofNat bits], none)
      else ([], some ⟨b.missing - 1, 0x80, 0xBF, bits⟩)
    else (replacement :: (start byte).1, (start byte).2)

def decodeFrom : Option Begun → List UInt8 → List Char
  | none, [] => []
  | some _, [] => [replacement]
  | state, byte :: bytes => (step state byte).1 ++ decodeFrom (step state byte).2 bytes

/-- The text of the bytes. -/
def decode (bytes : List UInt8) : List Char :=
  decodeFrom none bytes

/-- Whether a byte goes on with what was begun, or begins a character where nothing was. -/
def fits : Option Begun → UInt8 → Bool
  | none, byte => Lead.ofByte byte != .invalid
  | some b, byte => b.low ≤ byte.toNat && byte.toNat ≤ b.high

def decodeFrom? : Option Begun → List UInt8 → Option (List Char)
  | none, [] => some []
  | some _, [] => none
  | state, byte :: bytes =>
    if fits state byte then
      (decodeFrom? (step state byte).2 bytes).map ((step state byte).1 ++ ·)
    else none

/-- The text of the bytes, if every byte belongs to a character. -/
def decode? (bytes : List UInt8) : Option (List Char) :=
  decodeFrom? none bytes

/-- The bytes of a text. -/
def encode (text : List Char) : List UInt8 :=
  text.flatMap String.utf8EncodeChar

end SourceBundle.Utf8
