import Mathlib.Data.List.Basic
import SourceBundle.Utf8

/-!
# What any bytes say

A text is read off any bytes: the characters that stand there in UTF-8, and a replacement for each
broken stretch. There is one such text, and the reader that takes a byte at a time finds it. The
strict reader gives it where nothing is broken.
-/

namespace SourceBundle.Utf8

/-! ## First bytes -/

def Finishes : Begun → List UInt8 → Char → Prop
  | _, [], _ => False
  | b, byte :: bytes, c =>
    (b.low ≤ byte.toNat ∧ byte.toNat ≤ b.high) ∧
      if b.missing = 1 then bytes = [] ∧ c = Char.ofNat (b.bits * 64 + (byte.toNat - 0x80))
      else Finishes ⟨b.missing - 1, 0x80, 0xBF, b.bits * 64 + (byte.toNat - 0x80)⟩ bytes c

def Lead.Finishes : Lead → List UInt8 → Char → Prop
  | .ascii d, bytes, c => bytes = [] ∧ c = d
  | .begins b, bytes, c => Utf8.Finishes b bytes c
  | .invalid, _, _ => False

theorem Lead.ofByte_ascii {byte : UInt8} (h : byte.toNat < 0x80) :
    Lead.ofByte byte = .ascii (Char.ofNat byte.toNat) := by
  simp [Lead.ofByte, h]

theorem Lead.ofByte_invalid {byte : UInt8}
    (h : 0x80 ≤ byte.toNat ∧ byte.toNat < 0xC2 ∨ 0xF4 < byte.toNat) :
    Lead.ofByte byte = .invalid := by
  grind [Lead.ofByte]

theorem Lead.ofByte_two {byte : UInt8} (hlow : 0xC2 ≤ byte.toNat) (hhigh : byte.toNat < 0xE0) :
    Lead.ofByte byte = .begins ⟨1, 0x80, 0xBF, byte.toNat - 0xC0⟩ := by
  grind [Lead.ofByte]

theorem Lead.ofByte_three {byte : UInt8} (hlow : 0xE0 ≤ byte.toNat) (hhigh : byte.toNat < 0xF0) :
    Lead.ofByte byte = .begins ⟨2, if byte.toNat = 0xE0 then 0xA0 else 0x80,
      if byte.toNat = 0xED then 0x9F else 0xBF, byte.toNat - 0xE0⟩ := by
  grind [Lead.ofByte]

theorem Lead.ofByte_four {byte : UInt8} (hlow : 0xF0 ≤ byte.toNat) (hhigh : byte.toNat ≤ 0xF4) :
    Lead.ofByte byte = .begins ⟨3, if byte.toNat = 0xF0 then 0x90 else 0x80,
      if byte.toNat = 0xF4 then 0x8F else 0xBF, byte.toNat - 0xF0⟩ := by
  grind [Lead.ofByte]

theorem encodeChar_toNat (c : Char) :
    (String.utf8EncodeChar c).map UInt8.toNat =
      if c.toNat < 0x80 then [c.toNat]
      else if c.toNat < 0x800 then [0xC0 + c.toNat / 64, 0x80 + c.toNat % 64]
      else if c.toNat < 0x10000 then
        [0xE0 + c.toNat / 4096, 0x80 + c.toNat / 64 % 64, 0x80 + c.toNat % 64]
      else [0xF0 + c.toNat / 262144, 0x80 + c.toNat / 4096 % 64, 0x80 + c.toNat / 64 % 64,
        0x80 + c.toNat % 64] := by
  have hvalid : c.toNat < 0xD800 ∨ (0xDFFF < c.toNat ∧ c.toNat < 0x110000) := c.valid
  have hv : c.val.toNat = c.toNat := rfl
  simp only [String.utf8EncodeChar, hv]
  split
  · rw [if_pos (by omega)]
    simp
    omega
  split
  · rw [if_neg (by omega), if_pos (by omega)]
    simp
    omega
  split
  · rw [if_neg (by omega), if_neg (by omega), if_pos (by omega)]
    simp
    omega
  · rw [if_neg (by omega), if_neg (by omega), if_neg (by omega)]
    simp
    omega

theorem encodeChar_eq_iff {c : Char} {bytes : List UInt8} :
    String.utf8EncodeChar c = bytes ↔
      (String.utf8EncodeChar c).map UInt8.toNat = bytes.map UInt8.toNat :=
  (List.map_injective_iff.mpr fun _ _ => UInt8.toNat_inj.mp).eq_iff.symm

section

variable {low high bits : Nat} {byte : UInt8} {bytes : List UInt8} {c : Char}

theorem finishes_one : Finishes ⟨1, low, high, bits⟩ bytes c ↔
    ∃ a : UInt8, bytes = [a] ∧ (low ≤ a.toNat ∧ a.toNat ≤ high) ∧
      c = Char.ofNat (bits * 64 + (a.toNat - 0x80)) := by
  cases bytes with
  | nil => simp [Finishes]
  | cons a bytes =>
    simp only [Finishes, if_true, List.cons.injEq]
    constructor
    · rintro ⟨ha, rfl, hc⟩
      exact ⟨a, ⟨rfl, rfl⟩, ha, hc⟩
    · rintro ⟨_, ⟨rfl, rfl⟩, ha, hc⟩
      exact ⟨ha, rfl, hc⟩

theorem finishes_more {missing : Nat} : Finishes ⟨missing + 2, low, high, bits⟩ bytes c ↔
    ∃ (a : UInt8) (more : List UInt8), bytes = a :: more ∧ (low ≤ a.toNat ∧ a.toNat ≤ high) ∧
      Finishes ⟨missing + 1, 0x80, 0xBF, bits * 64 + (a.toNat - 0x80)⟩ more c := by
  cases bytes with
  | nil => simp [Finishes]
  | cons a bytes =>
    simp only [Finishes, List.cons.injEq]
    constructor
    · rintro ⟨ha, hmore⟩
      exact ⟨a, bytes, ⟨rfl, rfl⟩, ha, by simpa using hmore⟩
    · rintro ⟨_, _, ⟨rfl, rfl⟩, ha, hmore⟩
      exact ⟨ha, by simpa using hmore⟩

theorem finishes_of_encodeChar (h : String.utf8EncodeChar c = byte :: bytes) :
    (Lead.ofByte byte).Finishes bytes c := by
  have hvalid : c.toNat < 0xD800 ∨ (0xDFFF < c.toNat ∧ c.toNat < 0x110000) := c.valid
  have hcode (n : Nat) (hn : n = c.toNat) : c = Char.ofNat n := hn ▸ (Char.ofNat_toNat c).symm
  rw [encodeChar_eq_iff, encodeChar_toNat] at h
  split at h
  · obtain ⟨hbyte, hnil⟩ := List.cons.inj h
    rw [Lead.ofByte_ascii (by omega)]
    exact ⟨List.map_eq_nil_iff.mp hnil.symm, hcode _ hbyte.symm⟩
  split at h
  · obtain ⟨hbyte, hrest⟩ := List.cons.inj h
    obtain ⟨a, more, rfl, ha, hmore⟩ := List.map_eq_cons_iff.mp hrest.symm
    obtain rfl := List.map_eq_nil_iff.mp hmore
    rw [Lead.ofByte_two (by omega) (by omega), Lead.Finishes, finishes_one]
    exact ⟨a, rfl, by omega, hcode _ (by omega)⟩
  split at h
  · obtain ⟨hbyte, hrest⟩ := List.cons.inj h
    obtain ⟨a, more, rfl, ha, hmore⟩ := List.map_eq_cons_iff.mp hrest.symm
    obtain ⟨b, more, rfl, hb, hmore⟩ := List.map_eq_cons_iff.mp hmore
    obtain rfl := List.map_eq_nil_iff.mp hmore
    rw [Lead.ofByte_three (by omega) (by omega), Lead.Finishes, finishes_more]
    refine ⟨a, [b], rfl, by split <;> split <;> omega, finishes_one.mpr ⟨b, rfl, by omega, hcode _ ?_⟩⟩
    omega
  · obtain ⟨hbyte, hrest⟩ := List.cons.inj h
    obtain ⟨a, more, rfl, ha, hmore⟩ := List.map_eq_cons_iff.mp hrest.symm
    obtain ⟨b, more, rfl, hb, hmore⟩ := List.map_eq_cons_iff.mp hmore
    obtain ⟨d, more, rfl, hd, hmore⟩ := List.map_eq_cons_iff.mp hmore
    obtain rfl := List.map_eq_nil_iff.mp hmore
    rw [Lead.ofByte_four (by omega) (by omega), Lead.Finishes, finishes_more]
    refine ⟨a, [b, d], rfl, by split <;> split <;> omega, finishes_more.mpr ⟨b, [d], rfl, by omega,
      finishes_one.mpr ⟨d, rfl, by omega, hcode _ ?_⟩⟩⟩
    omega

theorem toNat_of_valid {n : Nat} (h : n < 0xD800 ∨ (0xDFFF < n ∧ n < 0x110000)) :
    (Char.ofNat n).toNat = n := by
  have hvalid : n.isValidChar := h
  rw [Char.ofNat, dif_pos hvalid]
  rfl

theorem encodeChar_of_finishes (h : (Lead.ofByte byte).Finishes bytes c) :
    String.utf8EncodeChar c = byte :: bytes := by
  rw [encodeChar_eq_iff, encodeChar_toNat]
  rcases Nat.lt_or_ge byte.toNat 0x80 with hascii | hascii
  · rw [Lead.ofByte_ascii hascii] at h
    obtain ⟨rfl, hc⟩ := h
    have hcode : c.toNat = byte.toNat := by rw [hc, toNat_of_valid (by omega)]
    rw [hcode, if_pos hascii]
    rfl
  rcases Nat.lt_or_ge byte.toNat 0xC2 with hlow | hlow
  · rw [Lead.ofByte_invalid (by omega)] at h
    exact h.elim
  rcases Nat.lt_or_ge byte.toNat 0xE0 with htwo | htwo
  · rw [Lead.ofByte_two hlow htwo, Lead.Finishes, finishes_one] at h
    obtain ⟨a, rfl, ha, hc⟩ := h
    have hcode : c.toNat = (byte.toNat - 0xC0) * 64 + (a.toNat - 0x80) := by
      rw [hc, toNat_of_valid (by omega)]
    rw [if_neg (by omega), if_pos (by omega)]
    simp only [List.map_cons, List.map_nil, List.cons.injEq, and_true]
    omega
  rcases Nat.lt_or_ge byte.toNat 0xF0 with hthree | hthree
  · rw [Lead.ofByte_three htwo hthree, Lead.Finishes, finishes_more] at h
    obtain ⟨a, more, rfl, ha, hmore⟩ := h
    obtain ⟨b, rfl, hb, hc⟩ := finishes_one.mp hmore
    have hrange : (byte.toNat = 0xE0 → 0xA0 ≤ a.toNat) ∧ (byte.toNat = 0xED → a.toNat ≤ 0x9F) ∧
        0x80 ≤ a.toNat ∧ a.toNat ≤ 0xBF := by
      split at ha <;> split at ha <;> omega
    have hcode : c.toNat = ((byte.toNat - 0xE0) * 64 + (a.toNat - 0x80)) * 64 + (b.toNat - 0x80) := by
      rw [hc, toNat_of_valid (by omega)]
    rw [if_neg (by omega), if_neg (by omega), if_pos (by omega)]
    simp only [List.map_cons, List.map_nil, List.cons.injEq, and_true]
    omega
  rcases Nat.lt_or_ge byte.toNat 0xF5 with hfour | hfour
  · rw [Lead.ofByte_four hthree (by omega), Lead.Finishes, finishes_more] at h
    obtain ⟨a, more, rfl, ha, hmore⟩ := h
    obtain ⟨b, more, rfl, hb, hmore⟩ := finishes_more.mp hmore
    obtain ⟨d, rfl, hd, hc⟩ := finishes_one.mp hmore
    have hrange : (byte.toNat = 0xF0 → 0x90 ≤ a.toNat) ∧ (byte.toNat = 0xF4 → a.toNat ≤ 0x8F) ∧
        0x80 ≤ a.toNat ∧ a.toNat ≤ 0xBF := by
      split at ha <;> split at ha <;> omega
    have hcode : c.toNat = (((byte.toNat - 0xF0) * 64 + (a.toNat - 0x80)) * 64 + (b.toNat - 0x80)) * 64 +
        (d.toNat - 0x80) := by
      rw [hc, toNat_of_valid (by omega)]
    rw [if_neg (by omega), if_neg (by omega), if_neg (by omega)]
    simp only [List.map_cons, List.map_nil, List.cons.injEq, and_true]
    omega
  · rw [Lead.ofByte_invalid (by omega)] at h
    exact h.elim

theorem encodeChar_eq_cons_iff :
    String.utf8EncodeChar c = byte :: bytes ↔ (Lead.ofByte byte).Finishes bytes c :=
  ⟨finishes_of_encodeChar, encodeChar_of_finishes⟩

end

/-! ## What has begun -/

def BeginsChar (bytes : List UInt8) : Prop :=
  ∃ c more, String.utf8EncodeChar c = bytes ++ more

/-- The beginning of a character of several bytes, as it is kept after some bytes. -/
structure Started (front : List UInt8) (b : Begun) : Prop where
  finishes_iff : ∀ bytes c, String.utf8EncodeChar c = front ++ bytes ↔ Finishes b bytes c
  missing_pos : 0 < b.missing
  low_le_high : b.low ≤ b.high
  high_lt : b.high < 256

theorem started_of_lead {byte : UInt8} {b : Begun} (h : Lead.ofByte byte = .begins b) :
    Started [byte] b where
  finishes_iff bytes c := by
    rw [List.singleton_append, encodeChar_eq_cons_iff, h]
    rfl
  missing_pos := by grind [Lead.ofByte]
  low_le_high := by grind [Lead.ofByte]
  high_lt := by grind [Lead.ofByte]

theorem exists_finishes {missing low high : Nat} (bits : Nat) (hmissing : 0 < missing) (hlow : low ≤ high)
    (hhigh : high < 256) : ∃ bytes c, Finishes ⟨missing, low, high, bits⟩ bytes c := by
  have hbyte {n : Nat} (hn : n < 256) : (UInt8.ofNat n).toNat = n := by
    simpa using hn
  induction missing using Nat.strongRecOn generalizing low high bits with
  | _ missing ih =>
    match missing with
    | 1 => exact ⟨[UInt8.ofNat low], _, finishes_one.mpr ⟨_, rfl, by rw [hbyte (by omega)]; omega, rfl⟩⟩
    | missing + 2 =>
      have hlast : 0x80 ≤ 0xBF ∧ 0xBF < 256 := by omega
      obtain ⟨bytes, c, h⟩ := ih (missing + 1) (by omega) (bits * 64 + (low - 0x80)) (by omega)
        hlast.1 hlast.2
      refine ⟨UInt8.ofNat low :: bytes, c, finishes_more.mpr ⟨_, bytes, rfl, ?_, ?_⟩⟩
      · rw [hbyte (by omega)]
        omega
      · rw [hbyte (by omega)]
        exact h

namespace Started

variable {front : List UInt8} {b : Begun} {byte : UInt8}

theorem not_whole (h : Started front b) (c : Char) : String.utf8EncodeChar c ≠ front := by
  intro hc
  have hfinishes := (h.finishes_iff [] c).mp (by rw [hc, List.append_nil])
  exact hfinishes.elim

theorem beginsChar (h : Started front b) : BeginsChar front := by
  obtain ⟨bytes, c, hfinishes⟩ := exists_finishes b.bits h.missing_pos h.low_le_high h.high_lt
  exact ⟨c, bytes, (h.finishes_iff bytes c).mpr hfinishes⟩

theorem whole (h : Started front b) (hrange : b.low ≤ byte.toNat ∧ byte.toNat ≤ b.high)
    (hmissing : b.missing = 1) :
    String.utf8EncodeChar (Char.ofNat (b.bits * 64 + (byte.toNat - 0x80))) = front ++ [byte] := by
  rw [h.finishes_iff, Finishes, if_pos hmissing]
  exact ⟨hrange, rfl, rfl⟩

theorem further (h : Started front b) (hrange : b.low ≤ byte.toNat ∧ byte.toNat ≤ b.high)
    (hmissing : b.missing ≠ 1) :
    Started (front ++ [byte])
      ⟨b.missing - 1, 0x80, 0xBF, b.bits * 64 + (byte.toNat - 0x80)⟩ where
  finishes_iff bytes c := by
    rw [List.append_assoc, h.finishes_iff, List.singleton_append, Finishes, if_neg hmissing]
    exact and_iff_right hrange
  missing_pos := by
    have := h.missing_pos
    dsimp only
    omega
  low_le_high := by dsimp only; omega
  high_lt := by dsimp only; omega

theorem stuck (h : Started front b) (hrange : ¬(b.low ≤ byte.toNat ∧ byte.toNat ≤ b.high)) :
    ¬BeginsChar (front ++ [byte]) := by
  rintro ⟨c, more, hc⟩
  rw [List.append_assoc, h.finishes_iff, List.singleton_append, Finishes] at hc
  exact hrange hc.1

end Started

/-! ## Texts of any bytes -/

/-- The longest stretch at the front that a character could have begun with, where it is no whole
one; or a byte that no character begins with. -/
def Breaks (bad rest : List UInt8) : Prop :=
  (∃ byte, bad = [byte] ∧ ¬BeginsChar [byte]) ∨
    bad ≠ [] ∧ BeginsChar bad ∧ (∀ c, String.utf8EncodeChar c ≠ bad) ∧
      ∀ next, rest.head? = some next → ¬BeginsChar (bad ++ [next])

/-- Bytes read as a text: characters as themselves, each broken stretch as a replacement. -/
inductive ReadsAs : List UInt8 → List Char → Prop
  | nil : ReadsAs [] []
  | character {bytes text} (c : Char) (hrest : ReadsAs bytes text) :
      ReadsAs (String.utf8EncodeChar c ++ bytes) (c :: text)
  | broken {bad bytes text} (hbad : Breaks bad bytes) (hrest : ReadsAs bytes text) :
      ReadsAs (bad ++ bytes) (replacement :: text)

theorem decodeFrom_cons (state : Option Begun) (byte : UInt8) (bytes : List UInt8) :
    decodeFrom state (byte :: bytes) =
      (step state byte).1 ++ decodeFrom (step state byte).2 bytes := by
  cases state <;> rfl

theorem readsAs_decodeFrom (bytes : List UInt8) :
    ReadsAs bytes (decodeFrom none bytes) ∧
      ∀ front b, Started front b → front ≠ [] → ReadsAs (front ++ bytes) (decodeFrom (some b) bytes) := by
  induction bytes with
  | nil =>
    refine ⟨.nil, fun front b h hne => ?_⟩
    exact .broken (.inr ⟨hne, h.beginsChar, h.not_whole, by simp⟩) .nil
  | cons byte bytes ih =>
    have hnone : ReadsAs (byte :: bytes) (decodeFrom none (byte :: bytes)) := by
      rw [decodeFrom_cons, step, start]
      cases hlead : Lead.ofByte byte with
      | ascii c =>
        have hc : String.utf8EncodeChar c = [byte] :=
          encodeChar_eq_cons_iff.mpr (by rw [hlead]; exact ⟨rfl, rfl⟩)
        have hreads := ReadsAs.character c ih.1
        rwa [hc] at hreads
      | begins b => exact ih.2 [byte] b (started_of_lead hlead) (by simp)
      | invalid =>
        have hno : ¬BeginsChar [byte] := by
          rintro ⟨c, more, hc⟩
          have hfinishes := encodeChar_eq_cons_iff.mp hc
          rwa [hlead] at hfinishes
        exact .broken (.inl ⟨byte, rfl, hno⟩) ih.1
    refine ⟨hnone, fun front b h hne => ?_⟩
    rw [decodeFrom_cons, step]
    by_cases hrange : b.low ≤ byte.toNat ∧ byte.toNat ≤ b.high
    · rw [if_pos (by simpa using hrange)]
      dsimp only
      by_cases hmissing : b.missing = 1
      · rw [if_pos (by simpa using hmissing)]
        have hreads := ReadsAs.character (Char.ofNat (b.bits * 64 + (byte.toNat - 0x80))) ih.1
        rwa [h.whole hrange hmissing, List.append_assoc] at hreads
      · rw [if_neg (by simpa using hmissing)]
        have hreads := ih.2 _ _ (h.further hrange hmissing) (by simp)
        rwa [List.append_assoc] at hreads
    · rw [if_neg (by simpa using hrange)]
      refine .broken (.inr ⟨hne, h.beginsChar, h.not_whole, ?_⟩) hnone
      rintro next hnext
      obtain rfl := Option.some.inj hnext
      exact h.stuck hrange

/-! ## One text only -/

theorem decodeFrom_finishes {b : Begun} {bytes : List UInt8} {c : Char} (h : Finishes b bytes c)
    (rest : List UInt8) : decodeFrom (some b) (bytes ++ rest) = c :: decodeFrom none rest := by
  induction bytes generalizing b with
  | nil => exact h.elim
  | cons byte bytes ih =>
    rw [Finishes] at h
    obtain ⟨hrange, hrest⟩ := h
    rw [List.cons_append, decodeFrom_cons, step, if_pos (by simpa using hrange)]
    dsimp only
    by_cases hmissing : b.missing = 1
    · rw [if_pos hmissing] at hrest
      rw [if_pos (by simpa using hmissing), hrest.1, hrest.2, List.singleton_append,
        List.nil_append]
    · rw [if_neg hmissing] at hrest
      rw [if_neg (by simpa using hmissing)]
      exact ih hrest

theorem decodeFrom_encodeChar (c : Char) (rest : List UInt8) :
    decodeFrom none (String.utf8EncodeChar c ++ rest) = c :: decodeFrom none rest := by
  cases hbytes : String.utf8EncodeChar c with
  | nil => exact absurd hbytes String.utf8EncodeChar_ne_nil
  | cons byte bytes =>
    have hfinishes := encodeChar_eq_cons_iff.mp hbytes
    rw [List.cons_append, decodeFrom_cons, step, start]
    cases hlead : Lead.ofByte byte with
    | ascii d =>
      rw [hlead] at hfinishes
      obtain ⟨rfl, rfl⟩ := hfinishes
      rfl
    | begins b =>
      rw [hlead] at hfinishes
      exact decodeFrom_finishes hfinishes rest
    | invalid => exact (hlead ▸ hfinishes : Lead.invalid.Finishes bytes c).elim

theorem Started.decodeFrom_broken {front bad rest : List UInt8} {b : Begun} (h : Started front b)
    (hbegins : BeginsChar (front ++ bad)) (hwhole : ∀ c, String.utf8EncodeChar c ≠ front ++ bad)
    (hnext : ∀ next, rest.head? = some next → ¬BeginsChar (front ++ bad ++ [next])) :
    decodeFrom (some b) (bad ++ rest) = replacement :: decodeFrom none rest := by
  induction bad generalizing front b with
  | nil =>
    rw [List.append_nil] at hnext
    cases rest with
    | nil => rfl
    | cons next rest =>
      have hrange : ¬(b.low ≤ next.toNat ∧ next.toNat ≤ b.high) := by
        intro hrange
        refine hnext next rfl ?_
        by_cases hmissing : b.missing = 1
        · exact ⟨_, [], by rw [h.whole hrange hmissing, List.append_nil]⟩
        · exact (h.further hrange hmissing).beginsChar
      rw [List.nil_append, decodeFrom_cons, step, if_neg (by simpa using hrange), decodeFrom_cons]
      rfl
  | cons byte bad ih =>
    obtain ⟨c, more, hc⟩ := hbegins
    have hfinishes := hc
    rw [List.append_assoc, h.finishes_iff, List.cons_append, Finishes] at hfinishes
    obtain ⟨hrange, hrest⟩ := hfinishes
    have hmissing : b.missing ≠ 1 := by
      intro hmissing
      rw [if_pos hmissing] at hrest
      obtain ⟨rfl, -⟩ := List.append_eq_nil_iff.mp hrest.1
      exact hwhole _ (h.whole hrange hmissing)
    have hone : front ++ byte :: bad = front ++ [byte] ++ bad := by simp
    rw [hone] at hc hwhole hnext
    rw [List.cons_append, decodeFrom_cons, step, if_pos (by simpa using hrange)]
    dsimp only
    rw [if_neg (by simpa using hmissing)]
    exact ih (h.further hrange hmissing) ⟨c, more, hc⟩ hwhole hnext

theorem decodeFrom_broken {bad rest : List UInt8} (h : Breaks bad rest) :
    decodeFrom none (bad ++ rest) = replacement :: decodeFrom none rest := by
  cases bad with
  | nil => simp [Breaks] at h
  | cons byte bad =>
    rw [List.cons_append, decodeFrom_cons, step, start]
    cases hlead : Lead.ofByte byte with
    | ascii c =>
      have hc : String.utf8EncodeChar c = [byte] :=
        encodeChar_eq_cons_iff.mpr (by rw [hlead]; exact ⟨rfl, rfl⟩)
      rcases h with ⟨single, hsingle, hno⟩ | ⟨-, ⟨d, more, hd⟩, hwhole, -⟩
      · obtain ⟨rfl, rfl⟩ := List.cons.inj hsingle
        exact absurd ⟨c, [], by simpa using hc⟩ hno
      · have hfinishes := encodeChar_eq_cons_iff.mp hd
        rw [hlead] at hfinishes
        obtain ⟨rfl, -⟩ := List.append_eq_nil_iff.mp hfinishes.1
        exact absurd hc (hwhole c)
    | begins b =>
      have hstarted := started_of_lead hlead
      rcases h with ⟨single, hsingle, hno⟩ | ⟨-, hbegins, hwhole, hnext⟩
      · obtain ⟨rfl, rfl⟩ := List.cons.inj hsingle
        exact absurd hstarted.beginsChar hno
      · exact hstarted.decodeFrom_broken hbegins hwhole hnext
    | invalid =>
      rcases h with ⟨single, hsingle, -⟩ | ⟨-, ⟨d, more, hd⟩, -, -⟩
      · obtain ⟨rfl, rfl⟩ := List.cons.inj hsingle
        rfl
      · have hfinishes := encodeChar_eq_cons_iff.mp hd
        rw [hlead] at hfinishes
        exact hfinishes.elim

/-- The bytes read as the text that the reader gives, and as no other one. -/
theorem readsAs_iff {bytes : List UInt8} {text : List Char} :
    ReadsAs bytes text ↔ decode bytes = text := by
  constructor
  · intro h
    induction h with
    | nil => rfl
    | character c hrest ih => rw [decode, decodeFrom_encodeChar, ← ih, decode]
    | broken hbad hrest ih => rw [decode, decodeFrom_broken hbad, ← ih, decode]
  · rintro rfl
    exact (readsAs_decodeFrom bytes).1

/-! ## Encoded texts -/

theorem readsAs_encode (text : List Char) : ReadsAs (encode text) text := by
  induction text with
  | nil => exact .nil
  | cons c text ih => exact .character c ih

theorem decode_encode (text : List Char) : decode (encode text) = text :=
  readsAs_iff.mp (readsAs_encode text)

theorem encode_injective : Function.Injective encode :=
  Function.LeftInverse.injective decode_encode

/-! ## The strict reader -/

theorem decodeFrom?_cons (state : Option Begun) (byte : UInt8) (bytes : List UInt8) :
    decodeFrom? state (byte :: bytes) =
      if fits state byte then
        (decodeFrom? (step state byte).2 bytes).map ((step state byte).1 ++ ·)
      else none := by
  cases state <;> rfl

theorem fits_begun {b : Begun} {byte : UInt8} :
    fits (some b) byte = true ↔ b.low ≤ byte.toNat ∧ byte.toNat ≤ b.high := by
  simp [fits]

theorem decodeFrom_of_strict {state : Option Begun} {bytes : List UInt8} {text : List Char}
    (h : decodeFrom? state bytes = some text) : decodeFrom state bytes = text := by
  induction bytes generalizing state text with
  | nil =>
    cases state with
    | none => exact Option.some.inj h
    | some b => exact absurd h (by simp [decodeFrom?])
  | cons byte bytes ih =>
    rw [decodeFrom?_cons] at h
    split at h
    · obtain ⟨rest, hrest, rfl⟩ := Option.map_eq_some_iff.mp h
      rw [decodeFrom_cons, ih hrest]
    · exact absurd h (by simp)

theorem decode_of_strict {bytes : List UInt8} {text : List Char} (h : decode? bytes = some text) :
    decode bytes = text :=
  decodeFrom_of_strict h

theorem decodeFrom?_finishes {b : Begun} {bytes : List UInt8} {c : Char} (h : Finishes b bytes c)
    (rest : List UInt8) :
    decodeFrom? (some b) (bytes ++ rest) = (decodeFrom? none rest).map (c :: ·) := by
  induction bytes generalizing b with
  | nil => exact h.elim
  | cons byte bytes ih =>
    rw [Finishes] at h
    obtain ⟨hrange, hrest⟩ := h
    rw [List.cons_append, decodeFrom?_cons, if_pos (fits_begun.mpr hrange), step,
      if_pos (by simpa using hrange)]
    by_cases hmissing : b.missing = 1
    · rw [if_pos hmissing] at hrest
      rw [if_pos (by simpa using hmissing), hrest.1, hrest.2, List.nil_append]
      simp only [List.singleton_append]
    · rw [if_neg hmissing] at hrest
      rw [if_neg (by simpa using hmissing), ih hrest]
      simp [Function.comp_def]

theorem decodeFrom?_encodeChar (c : Char) (rest : List UInt8) :
    decodeFrom? none (String.utf8EncodeChar c ++ rest) =
      (decodeFrom? none rest).map (c :: ·) := by
  cases hbytes : String.utf8EncodeChar c with
  | nil => exact absurd hbytes String.utf8EncodeChar_ne_nil
  | cons byte bytes =>
    have hfinishes := encodeChar_eq_cons_iff.mp hbytes
    rw [List.cons_append, decodeFrom?_cons, step, start]
    cases hlead : Lead.ofByte byte with
    | ascii d =>
      rw [hlead] at hfinishes
      obtain ⟨rfl, rfl⟩ := hfinishes
      simp [fits, hlead]
    | begins b =>
      rw [hlead] at hfinishes
      rw [if_pos (by simp [fits, hlead]), decodeFrom?_finishes hfinishes]
      simp [Function.comp_def]
    | invalid => exact (hlead ▸ hfinishes : Lead.invalid.Finishes bytes c).elim

theorem strict_of_encode (text : List Char) : decode? (encode text) = some text := by
  induction text with
  | nil => rfl
  | cons c text ih =>
    have hcons : encode (c :: text) = String.utf8EncodeChar c ++ encode text := rfl
    rw [decode?, hcons, decodeFrom?_encodeChar, ← decode?, ih]
    rfl

theorem eq_encode_of_strict (bytes : List UInt8) :
    (∀ text, decodeFrom? none bytes = some text → bytes = encode text) ∧
      ∀ front b text, Started front b → decodeFrom? (some b) bytes = some text →
        front ++ bytes = encode text := by
  induction bytes with
  | nil =>
    refine ⟨fun text h => ?_, fun front b text _ h => absurd h (by simp [decodeFrom?])⟩
    obtain rfl := Option.some.inj h
    rfl
  | cons byte bytes ih =>
    refine ⟨fun text h => ?_, fun front b text hstarted h => ?_⟩
    · rw [decodeFrom?_cons, step, start] at h
      cases hlead : Lead.ofByte byte with
      | ascii c =>
        simp only [fits, hlead, bne_iff_ne, ne_eq, reduceCtorEq, not_false_eq_true, if_true] at h
        obtain ⟨rest, hrest, rfl⟩ := Option.map_eq_some_iff.mp h
        have hc : String.utf8EncodeChar c = [byte] :=
          encodeChar_eq_cons_iff.mpr (by rw [hlead]; exact ⟨rfl, rfl⟩)
        rw [ih.1 rest hrest]
        simp [encode, hc]
      | begins b =>
        simp only [fits, hlead, bne_iff_ne, ne_eq, reduceCtorEq, not_false_eq_true, if_true] at h
        obtain ⟨rest, hrest, rfl⟩ := Option.map_eq_some_iff.mp h
        exact ih.2 [byte] b rest (started_of_lead hlead) hrest
      | invalid => simp [fits, hlead] at h
    · rw [decodeFrom?_cons] at h
      split at h
      next hfits =>
        have hrange := fits_begun.mp hfits
        obtain ⟨rest, hrest, rfl⟩ := Option.map_eq_some_iff.mp h
        rw [step, if_pos (by simpa using hrange)] at hrest ⊢
        by_cases hmissing : b.missing = 1
        · rw [if_pos (by simpa using hmissing)] at hrest ⊢
          rw [ih.1 rest hrest]
          simp [encode, hstarted.whole hrange hmissing]
        · rw [if_neg (by simpa using hmissing)] at hrest ⊢
          simpa using ih.2 _ _ rest (hstarted.further hrange hmissing) hrest
      next => exact absurd h (by simp)

/-- The strict reader takes the encoded texts and nothing else. -/
theorem strict_eq_some_iff {bytes : List UInt8} {text : List Char} :
    decode? bytes = some text ↔ bytes = encode text := by
  constructor
  · exact (eq_encode_of_strict bytes).1 text
  · rintro rfl
    exact strict_of_encode text

end SourceBundle.Utf8
