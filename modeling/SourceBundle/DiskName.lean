import SourceBundle.Utf8

/-!
# Names on disk

The name of an entry is a string of bytes other than NUL and the slash. One that is the UTF-8 of a
text is written as that text. Any other one is written as a NUL, which no name has, and behind it one
character for each of its bytes. Paths are written with their names.
-/

namespace SourceBundle.DiskName

/-- Begins what is written for a name that is no text. -/
def mark : Char := '\x00'

/-- The bytes of a name that is no text. -/
def rawBytes? (name : String) : Option (List UInt8) :=
  match name.toList with
  | [] => none
  | first :: rest =>
    let bytes := rest.map fun c => UInt8.ofNat c.toNat
    if first == mark && rest.all (fun c => c.toNat < 256) && (Utf8.decode? bytes).isNone then
      some bytes
    else none

def bytes (name : String) : List UInt8 :=
  (rawBytes? name).getD (Utf8.encode name.toList)

/-- The name as a text. Bytes that form no character show as U+FFFD. -/
def shown (name : String) : String :=
  String.ofList (Utf8.decode (bytes name))

end SourceBundle.DiskName
