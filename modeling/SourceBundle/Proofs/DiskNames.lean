import SourceBundle.Proofs.PathPieces
import SourceBundle.Proofs.Utf8Reading

/-!
# What names stand for

Every string of bytes that an entry can have for its name is the bytes of one name. The text that a
name shows as is a name of the same kind; it is the name itself where that is a text, and other names
can show as one.
-/

namespace SourceBundle

namespace Utf8

variable {c : Char} {bytes : List UInt8} {text : List Char}

theorem encodeChar_of_plain (hc : c.toNat < 0x80) :
    String.utf8EncodeChar c = [UInt8.ofNat c.toNat] := by
  rw [encodeChar_eq_iff, encodeChar_toNat, if_pos hc]
  simp
  omega

theorem plain_mem_encodeChar_iff (hc : c.toNat < 0x80) {d : Char} :
    UInt8.ofNat c.toNat ∈ String.utf8EncodeChar d ↔ d = c := by
  constructor
  · intro hmem
    have hbyte := List.mem_map_of_mem (f := UInt8.toNat) hmem
    have hsmall : (UInt8.ofNat c.toNat).toNat = c.toNat := by simp; omega
    rw [hsmall, encodeChar_toNat] at hbyte
    split at hbyte
    · exact Char.toNat_inj.mp (List.mem_singleton.mp hbyte).symm
    · split at hbyte
      · simp at hbyte
        omega
      · split at hbyte <;> simp at hbyte <;> omega
  · rintro rfl
    simp [encodeChar_of_plain hc]

theorem plain_mem_encode_iff (hc : c.toNat < 0x80) :
    UInt8.ofNat c.toNat ∈ encode text ↔ c ∈ text := by
  simp only [encode, List.mem_flatMap, plain_mem_encodeChar_iff hc, exists_eq_right]

theorem plain_mem_of_mem_decode (hc : c.toNat < 0x80) (h : c ∈ decode bytes) :
    UInt8.ofNat c.toNat ∈ bytes := by
  have hreads : ReadsAs bytes (decode bytes) := readsAs_iff.mpr rfl
  generalize decode bytes = text at h hreads
  induction hreads with
  | nil => simp at h
  | character d _ ih =>
    rcases List.mem_cons.mp h with rfl | h
    · simp [encodeChar_of_plain hc]
    · exact List.mem_append_right _ (ih h)
  | broken _ _ ih =>
    rcases List.mem_cons.mp h with rfl | h
    · simp [replacement] at hc
    · exact List.mem_append_right _ (ih h)

theorem eq_encode_of_decode (h : replacement ∉ decode bytes) : bytes = encode (decode bytes) := by
  have hreads : ReadsAs bytes (decode bytes) := readsAs_iff.mpr rfl
  generalize decode bytes = text at h hreads
  induction hreads with
  | nil => rfl
  | character d _ ih =>
    rw [encode, List.flatMap_cons, ← encode, ← ih (mt (List.mem_cons_of_mem d) h)]
  | broken => simp at h

end Utf8

namespace DiskName

variable {name other : String} {bs : List UInt8}

/-- A name that is a text has the bytes of the text. -/
def IsText (name : String) : Prop :=
  bytes name = Utf8.encode name.toList

instance (name : String) : Decidable (IsText name) :=
  inferInstanceAs (Decidable (_ = _))

def ofBytes (bs : List UInt8) : String :=
  match Utf8.decode? bs with
  | some text => String.ofList text
  | none => String.ofList (mark :: bs.map fun byte => Char.ofNat byte.toNat)

theorem toNat_ofByte (byte : UInt8) : (Char.ofNat byte.toNat).toNat = byte.toNat := by
  have hlt := byte.toNat_lt
  exact Utf8.toNat_of_valid (.inl (by omega))

theorem rawBytes?_eq_some_iff :
    rawBytes? name = some bs ↔
      name = String.ofList (mark :: bs.map fun byte => Char.ofNat byte.toNat) ∧
        Utf8.decode? bs = none := by
  rw [← String.toList_inj, String.toList_ofList, rawBytes?]
  cases name.toList with
  | nil => simp
  | cons first rest =>
    simp only [Option.ite_none_right_eq_some, Bool.and_eq_true, beq_iff_eq, List.all_eq_true,
      decide_eq_true_eq, Option.isNone_iff_eq_none, Option.some.injEq, List.cons.injEq]
    constructor
    · rintro ⟨⟨⟨rfl, hsmall⟩, hnone⟩, rfl⟩
      refine ⟨⟨rfl, ?_⟩, hnone⟩
      rw [List.map_map, List.map_congr_left (g := id), List.map_id]
      intro c hc
      have hc := hsmall c hc
      rw [Function.comp_apply, UInt8.toNat_ofNat', Nat.mod_eq_of_lt hc, Char.ofNat_toNat, id]
    · rintro ⟨⟨rfl, rfl⟩, hnone⟩
      have hback : (bs.map fun byte => Char.ofNat byte.toNat).map (fun c => UInt8.ofNat c.toNat) =
          bs := by
        simp [Function.comp_def, toNat_ofByte]
      rw [hback]
      refine ⟨⟨⟨rfl, ?_⟩, hnone⟩, rfl⟩
      simpa [toNat_ofByte] using fun byte _ => byte.toNat_lt

theorem isText_of_rawBytes? (h : rawBytes? name = none) : IsText name := by
  rw [IsText, bytes, h, Option.getD_none]

theorem bytes_cases (name : String) :
    IsText name ∨ rawBytes? name = some (bytes name) := by
  cases hraw : rawBytes? name with
  | none => exact .inl (isText_of_rawBytes? hraw)
  | some bs => exact .inr (by simp [bytes, hraw])

theorem bytes_injective : Function.Injective bytes := by
  have hapart : ∀ {a b}, IsText a → rawBytes? b = some (bytes b) → bytes a ≠ bytes b := by
    intro a b ha hb heq
    have hnone := (rawBytes?_eq_some_iff.mp hb).2
    rw [← heq, ha, Utf8.strict_of_encode] at hnone
    cases hnone
  intro a b heq
  rcases bytes_cases a with ha | ha
  · rcases bytes_cases b with hb | hb
    · rw [ha, hb] at heq
      exact String.toList_inj.mp (Utf8.encode_injective heq)
    · exact absurd heq (hapart ha hb)
  · rcases bytes_cases b with hb | hb
    · exact absurd heq.symm (hapart hb ha)
    · rw [(rawBytes?_eq_some_iff.mp ha).1, (rawBytes?_eq_some_iff.mp hb).1, heq]

theorem bytes_ofBytes (h : 0 ∉ bs) : bytes (ofBytes bs) = bs := by
  rw [ofBytes]
  split
  next text htext =>
    have hbs := Utf8.strict_eq_some_iff.mp htext
    have hraw : rawBytes? (String.ofList text) = none := by
      rw [Option.eq_none_iff_forall_ne_some]
      intro raw hraw
      have hmark : mark ∈ text := by
        have hname := (rawBytes?_eq_some_iff.mp hraw).1
        rw [← String.toList_inj, String.toList_ofList, String.toList_ofList] at hname
        simp [hname]
      rw [hbs] at h
      exact h ((Utf8.plain_mem_encode_iff (by decide)).mpr hmark)
    rw [isText_of_rawBytes? hraw, String.toList_ofList, hbs]
  next hnone => rw [bytes, rawBytes?_eq_some_iff.mpr ⟨rfl, hnone⟩, Option.getD_some]

/-- The names and the strings of bytes that names can have are in one-to-one correspondence. -/
theorem existsUnique_bytes (h : 0 ∉ bs) : ∃! name, bytes name = bs :=
  ⟨ofBytes bs, bytes_ofBytes h, fun _ hname => bytes_injective (hname.trans (bytes_ofBytes h).symm)⟩

/-! ## Names as they are shown -/

theorem shown_eq_self (h : IsText name) : shown name = name := by
  rw [shown, h, Utf8.decode_encode, String.ofList_toList]

theorem plain_mem_toList {c : Char} (hc : c.toNat < 0x80)
    (h : UInt8.ofNat c.toNat ∈ bytes name) : c ∈ name.toList := by
  rcases bytes_cases name with htext | hraw
  · rw [htext] at h
    exact (Utf8.plain_mem_encode_iff hc).mp h
  · rw [(rawBytes?_eq_some_iff.mp hraw).1, String.toList_ofList]
    refine List.mem_cons_of_mem _ (List.mem_map.mpr ⟨_, h, ?_⟩)
    rw [UInt8.toNat_ofNat', Nat.mod_eq_of_lt (by omega), Char.ofNat_toNat]

theorem no_slash_shown (h : '/' ∉ name.toList) : '/' ∉ (shown name).toList := by
  rw [shown, String.toList_ofList]
  intro hmem
  have hplain : ('/').toNat < 0x80 := by decide
  exact h (plain_mem_toList hplain (Utf8.plain_mem_of_mem_decode hplain hmem))

/-- No other name shows as a text without replacements. -/
theorem eq_of_shown_eq (hother : IsText other) (hplain : Utf8.replacement ∉ other.toList)
    (h : shown name = other) : name = other := by
  rw [shown, ← String.toList_inj, String.toList_ofList] at h
  have hbytes := Utf8.eq_encode_of_decode (h ▸ hplain)
  exact bytes_injective (by rw [hbytes, h, hother])

theorem proper_shown (h : ProperName name) : ProperName (shown name) where
  nonempty := mt (eq_of_shown_eq (by decide) (by decide)) h.nonempty
  no_slash := no_slash_shown h.no_slash
  no_dot := mt (eq_of_shown_eq (by decide) (by decide)) h.no_dot
  no_dots := mt (eq_of_shown_eq (by decide) (by decide)) h.no_dots

end DiskName

end SourceBundle
