import SourceBundle.BundleError
import SourceBundle.FileSystem
import SourceBundle.Utf8

/-!
# File contents

A file counts as binary if a control character other than a tab or a line ending stands near its
beginning. Everything else is text.
-/

namespace SourceBundle

/-- How many bytes are looked at. -/
def sniffedBytes : Nat := 512

/-- Control characters that no text holds. -/
def isBinaryByte (byte : UInt8) : Bool :=
  byte < 0x20 && byte != 0x09 && byte != 0x0A && byte != 0x0D

def isBinary (bytes : List UInt8) : Bool :=
  (bytes.take sniffedBytes).any isBinaryByte

inductive Content where
  | text (text : String)
  /-- A binary file that is left out. -/
  | binary
  deriving DecidableEq, Repr

namespace Content

/-- A file is read in two pieces, the second one only if the first does not tell that it is binary.
Bytes that are no text are read as one all the same. -/
def ofBytes (skipBinary : Bool) (bytes : List UInt8) : Content :=
  let sniffed := bytes.take sniffedBytes
  if skipBinary && isBinary sniffed then .binary
  else
    let whole := sniffed ++ bytes.drop sniffedBytes
    match Utf8.decode? whole with
    | some cs => .text (String.ofList cs)
    | none => .text (String.ofList (Utf8.decode whole))

def load (fs : FileSystem) (path : String) (skipBinary : Bool) : Except OutputError Content :=
  match fs.read path with
  | .ok bytes => .ok (ofBytes skipBinary bytes)
  | .error cause => .error (.content path cause)

end Content

end SourceBundle
