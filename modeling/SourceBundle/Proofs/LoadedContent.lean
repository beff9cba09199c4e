import SourceBundle.Content
import SourceBundle.Proofs.Utf8Reading

/-!
# Loaded contents

What is loaded is the text of the whole file, whichever of the two readers finds it and wherever the
end of the first piece falls. Only a control character near the beginning makes a file binary.
-/

namespace SourceBundle.Content

/-- The two pieces are the whole, and the two readers agree where both read. -/
theorem ofBytes_eq (skipBinary : Bool) (bytes : List UInt8) :
    ofBytes skipBinary bytes =
      if skipBinary && isBinary bytes then .binary
      else .text (String.ofList (Utf8.decode bytes)) := by
  have hsniffed : isBinary (bytes.take sniffedBytes) = isBinary bytes := by
    simp [isBinary, List.take_take]
  rw [ofBytes, hsniffed, List.take_append_drop]
  cases hstrict : Utf8.decode? bytes with
  | none => simp only [hstrict]
  | some text => simp only [hstrict, Utf8.decode_of_strict hstrict]

theorem isBinary_iff {bytes : List UInt8} :
    isBinary bytes = true ↔ ∃ i < 512, ∃ byte, bytes[i]? = some byte ∧
      byte < 0x20 ∧ byte ≠ 0x09 ∧ byte ≠ 0x0A ∧ byte ≠ 0x0D := by
  simp only [isBinary, sniffedBytes, List.any_eq_true, List.mem_take_iff_getElem, isBinaryByte,
    Bool.and_eq_true, bne_iff_ne, decide_eq_true_eq]
  constructor
  · rintro ⟨byte, ⟨i, hi, rfl⟩, hbyte⟩
    exact ⟨i, by omega, _, List.getElem?_eq_getElem (by omega), by simpa [and_assoc] using hbyte⟩
  · rintro ⟨i, hi, byte, hget, hbyte⟩
    obtain ⟨hlength, rfl⟩ := List.getElem?_eq_some_iff.mp hget
    exact ⟨_, ⟨i, by omega, rfl⟩, by simpa [and_assoc] using hbyte⟩

theorem encode_toList (s : String) : Utf8.encode s.toList = s.toUTF8.data.toList := by
  rw [String.toUTF8, ← String.utf8Encode_toList, List.utf8Encode, Utf8.encode]
  simp

variable {fs : FileSystem} {path : String} {bytes : List UInt8}

theorem load_of_read (hread : fs.read path = .ok bytes) (skipBinary : Bool) :
    load fs path skipBinary = .ok (if skipBinary && isBinary bytes then .binary
      else .text (String.ofList (Utf8.decode bytes))) := by
  rw [load, hread, ← ofBytes_eq]

/-- A file is loaded as the one text that its bytes read as, in whole; it is binary instead only
where binary files are left out and one of its first 512 bytes is a control character other than a
tab or a line ending. The bytes of a text are loaded as that text. -/
theorem load_text (hread : fs.read path = .ok bytes) :
    (∃ text : String, (∀ cs, Utf8.ReadsAs bytes cs ↔ cs = text.toList) ∧
      load fs path false = .ok (.text text)) ∧
    (load fs path true = .ok .binary ↔ ∃ i < 512, ∃ byte, bytes[i]? = some byte ∧
      byte < 0x20 ∧ byte ≠ 0x09 ∧ byte ≠ 0x0A ∧ byte ≠ 0x0D) ∧
    (load fs path true = .ok .binary ∨ load fs path true = load fs path false) ∧
    ∀ (s : String) (skipBinary : Bool), bytes = s.toUTF8.data.toList →
      load fs path skipBinary ≠ .ok .binary → load fs path skipBinary = .ok (.text s) := by
  have hwhole : load fs path false = .ok (.text (String.ofList (Utf8.decode bytes))) :=
    load_of_read hread false
  have hskipped := load_of_read hread true
  refine ⟨⟨String.ofList (Utf8.decode bytes), fun cs => ?_, hwhole⟩, ?_, ?_, ?_⟩
  · rw [Utf8.readsAs_iff, String.toList_ofList, eq_comm]
  · rw [← isBinary_iff, hskipped]
    cases isBinary bytes <;> simp
  · rw [hwhole, hskipped]
    cases isBinary bytes <;> simp
  · intro s skipBinary hs hkept
    have htext : String.ofList (Utf8.decode bytes) = s := by
      rw [hs, ← encode_toList, Utf8.decode_encode, String.ofList_toList]
    rw [load_of_read hread, htext] at hkept ⊢
    cases hleft : skipBinary && isBinary bytes <;> simp [hleft] at hkept ⊢

def straddlingText : String :=
  String.ofList (List.replicate 511 'a' ++ ['é', '\n'])

def straddlingFile : FileSystem where
  root := .directory [("a.txt", .file straddlingText.toUTF8.data.toList)]

theorem load_straddling :
    straddlingFile.read "a.txt" = .ok straddlingText.toUTF8.data.toList ∧
      load straddlingFile "a.txt" true = .ok (.text straddlingText) := by
  have hread : straddlingFile.read "a.txt" = .ok straddlingText.toUTF8.data.toList := by
    have hplace : straddlingFile.resolve "a.txt" = .ok ["a.txt"] := by decide +kernel
    rw [FileSystem.read, hplace]
    rfl
  have hplain : isBinary straddlingText.toUTF8.data.toList = false := by
    have htext : straddlingText.toList = List.replicate 511 'a' ++ ['é', '\n'] :=
      String.toList_ofList
    rw [← encode_toList, htext]
    decide +kernel
  obtain ⟨-, hbinary, -, htext⟩ := load_text hread
  refine ⟨hread, htext straddlingText true rfl ?_⟩
  rw [ne_eq, hbinary, ← isBinary_iff, hplain]
  simp

end SourceBundle.Content
