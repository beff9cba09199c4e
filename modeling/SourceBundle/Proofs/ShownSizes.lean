import Mathlib.Algebra.Order.Field.Basic
import Mathlib.Data.List.TakeWhile
import Mathlib.Data.Nat.Cast.Field
import Mathlib.Tactic.Linarith
import Mathlib.Tactic.Ring
import SourceBundle.SizeText

/-!
# Shown sizes

A size is rounded twice before it is shown, and in units that change with it. Rounding keeps to any
bound that is on its grid, so it never turns the order of two sizes around: the powers of two bound
what is held in 53 bits, and a unit bounds what is shown in the units below it. The amount that a
size's text tells therefore grows with the size, and up to 2 ^ 53 only the rounding to tenths of a unit
makes it differ from the size.
-/

namespace SourceBundle

variable {m n d k : Nat}

/-! ## Rounding -/

theorem roundQuotient_eq (n d : Nat) :
    roundQuotient n d =
      if d < 2 * (n % d) ∨ d = 2 * (n % d) ∧ n / d % 2 = 1 then n / d + 1 else n / d := by
  simp [roundQuotient]

theorem roundQuotient_near (n : Nat) (hd : 0 < d) :
    2 * n ≤ 2 * (roundQuotient n d * d) + d ∧ 2 * (roundQuotient n d * d) ≤ 2 * n + d := by
  have hsplit := Nat.div_add_mod' n d
  have hlt := Nat.mod_lt n hd
  rw [roundQuotient_eq]
  split
  · rw [Nat.add_one_mul (n / d) d]
    omega
  · omega

theorem roundQuotient_mono (d : Nat) (h : m ≤ n) : roundQuotient m d ≤ roundQuotient n d := by
  have hquotient : m / d ≤ n / d := Nat.div_le_div_right h
  have hm := Nat.div_add_mod' m d
  have hn := Nat.div_add_mod' n d
  rw [roundQuotient_eq, roundQuotient_eq]
  rcases Nat.lt_or_eq_of_le hquotient with hlt | heq
  · split <;> split <;> omega
  · rw [heq] at hm ⊢
    split <;> split <;> omega

theorem roundQuotient_mul (m : Nat) (hd : 0 < d) : roundQuotient (m * d) d = m := by
  rw [roundQuotient_eq, Nat.mul_mod_left, Nat.mul_div_cancel m hd]
  exact if_neg (by omega)

theorem roundQuotient_mul_le (hd : 0 < d) (h : n ≤ m * d) : roundQuotient n d * d ≤ m * d :=
  Nat.mul_le_mul_right d (roundQuotient_mul m hd ▸ roundQuotient_mono d h)

theorem le_roundQuotient_mul (hd : 0 < d) (h : m * d ≤ n) : m * d ≤ roundQuotient n d * d :=
  Nat.mul_le_mul_right d (roundQuotient_mul m hd ▸ roundQuotient_mono d h)

/-! ## Significant bits -/

theorem nearest53_eq (n : Nat) :
    nearest53 n = roundQuotient n (2 ^ (n.log2 - 52)) * 2 ^ (n.log2 - 52) := by
  rw [nearest53, Nat.one_shiftLeft]

theorem nearest53_le_two_pow (h : n ≤ 2 ^ k) : nearest53 n ≤ 2 ^ k := by
  have hbits : n.log2 ≤ k := by
    rcases Nat.eq_zero_or_pos n with rfl | hn
    · simp
    · exact (Nat.pow_le_pow_iff_right (by omega)).mp ((Nat.log2_self_le (by omega)).trans h)
  have hgrid : 2 ^ k = 2 ^ (k - (n.log2 - 52)) * 2 ^ (n.log2 - 52) := by
    rw [← Nat.pow_add, Nat.sub_add_cancel (by omega)]
  rw [nearest53_eq, hgrid]
  exact roundQuotient_mul_le (Nat.two_pow_pos _) (hgrid ▸ h)

theorem two_pow_log2_le_nearest53 (hn : n ≠ 0) : 2 ^ n.log2 ≤ nearest53 n := by
  have hgrid : 2 ^ n.log2 = 2 ^ (n.log2 - (n.log2 - 52)) * 2 ^ (n.log2 - 52) := by
    rw [← Nat.pow_add, Nat.sub_add_cancel (by omega)]
  rw [nearest53_eq]
  calc 2 ^ n.log2 = 2 ^ (n.log2 - (n.log2 - 52)) * 2 ^ (n.log2 - 52) := hgrid
    _ ≤ _ := le_roundQuotient_mul (Nat.two_pow_pos _) (hgrid ▸ Nat.log2_self_le hn)

theorem nearest53_mono (h : m ≤ n) : nearest53 m ≤ nearest53 n := by
  rcases Nat.eq_zero_or_pos m with rfl | hm
  · exact Nat.zero_le _
  have hbits : m.log2 ≤ n.log2 :=
    (Nat.le_log2 (by omega)).mpr ((Nat.log2_self_le (by omega)).trans h)
  rcases Nat.lt_or_eq_of_le hbits with hlt | heq
  · calc nearest53 m ≤ 2 ^ n.log2 := nearest53_le_two_pow
            ((Nat.lt_log2_self).le.trans (Nat.pow_le_pow_right (by omega) hlt))
      _ ≤ nearest53 n := two_pow_log2_le_nearest53 (by omega)
  · rw [nearest53_eq, nearest53_eq, heq]
    exact Nat.mul_le_mul_right _ (roundQuotient_mono _ h)

theorem nearest53_eq_self (h : n ≤ 2 ^ 53) : nearest53 n = n := by
  rcases Nat.lt_or_eq_of_le h with hlt | rfl
  · have hbits : n.log2 - 52 = 0 := by
      rcases Nat.eq_zero_or_pos n with rfl | hn
      · simp
      · have := (Nat.log2_lt (by omega)).mpr hlt
        omega
    rw [nearest53_eq, hbits, Nat.pow_zero, Nat.mul_one]
    simpa using roundQuotient_mul n Nat.one_pos
  · decide

/-! ## Shown amounts -/

namespace SizeUnit

theorem bytes_pos (u : SizeUnit) : 0 < u.bytes := by
  cases u <;> decide

theorem nearest53_bytes (u : SizeUnit) : nearest53 u.bytes = u.bytes :=
  nearest53_eq_self (by cases u <;> decide)

theorem ofSize_cases (n : Nat) :
    n < 1024 ∧ ofSize n = .byte ∨ 1024 ≤ n ∧ n < 1048576 ∧ ofSize n = .kibibyte ∨
      1048576 ≤ n ∧ ofSize n = .mebibyte := by
  fun_cases ofSize n with
  | case1 h => exact .inl ⟨h, rfl⟩
  | case2 h h' => exact .inr (.inl ⟨Nat.not_lt.mp h, h', rfl⟩)
  | case3 h h' => exact .inr (.inr ⟨Nat.not_lt.mp h', rfl⟩)

theorem ofSize_eq_or_between (h : m ≤ n) :
    ofSize m = ofSize n ∨
      m ≤ (ofSize n).bytes ∧ (ofSize n).bytes ≤ n ∧ (ofSize m).bytes ∣ (ofSize n).bytes := by
  rcases ofSize_cases n with ⟨_, hn⟩ | ⟨_, _, hn⟩ | ⟨_, hn⟩
  all_goals rcases ofSize_cases m with ⟨_, hm⟩ | ⟨_, _, hm⟩ | ⟨_, hm⟩
  all_goals simp only [hm, hn, bytes, reduceCtorEq, true_or, false_or]
  all_goals omega

end SizeUnit

namespace ShownSize

theorem tenthsOfBytes_ofSize (n : Nat) :
    (ofSize n).tenthsOfBytes =
      roundQuotient (nearest53 n * 10) (SizeUnit.ofSize n).bytes * (SizeUnit.ofSize n).bytes := by
  rw [tenthsOfBytes, ofSize]

theorem tenthsOfBytes_le {u : SizeUnit} (hdvd : (SizeUnit.ofSize n).bytes ∣ u.bytes)
    (h : n ≤ u.bytes) : (ofSize n).tenthsOfBytes ≤ u.bytes * 10 := by
  obtain ⟨c, hc⟩ := hdvd
  have hgrid : u.bytes * 10 = c * 10 * (SizeUnit.ofSize n).bytes := by
    rw [hc, Nat.mul_comm _ c, Nat.mul_right_comm]
  have hheld : nearest53 n * 10 ≤ u.bytes * 10 :=
    Nat.mul_le_mul_right 10 (u.nearest53_bytes ▸ nearest53_mono h)
  rw [tenthsOfBytes_ofSize, hgrid]
  exact roundQuotient_mul_le (SizeUnit.bytes_pos _) (hgrid ▸ hheld)

theorem le_tenthsOfBytes (h : (SizeUnit.ofSize n).bytes ≤ n) :
    (SizeUnit.ofSize n).bytes * 10 ≤ (ofSize n).tenthsOfBytes := by
  have hheld : 10 * (SizeUnit.ofSize n).bytes ≤ nearest53 n * 10 := by
    have := nearest53_mono h
    rw [SizeUnit.nearest53_bytes] at this
    omega
  rw [tenthsOfBytes_ofSize, Nat.mul_comm _ 10]
  exact le_roundQuotient_mul (SizeUnit.bytes_pos _) hheld

theorem tenthsOfBytes_mono (h : m ≤ n) : (ofSize m).tenthsOfBytes ≤ (ofSize n).tenthsOfBytes := by
  rcases SizeUnit.ofSize_eq_or_between h with heq | ⟨hm, hn, hdvd⟩
  · rw [tenthsOfBytes_ofSize, tenthsOfBytes_ofSize, heq]
    exact Nat.mul_le_mul_right _ (roundQuotient_mono _ (Nat.mul_le_mul_right 10 (nearest53_mono h)))
  · exact (tenthsOfBytes_le hdvd hm).trans (le_tenthsOfBytes hn)

/-- What is shown of a size that is held exactly is off by half a tenth of the unit at most. -/
theorem tenthsOfBytes_near (h : n ≤ 2 ^ 53) :
    2 * (n * 10) ≤ 2 * (ofSize n).tenthsOfBytes + (SizeUnit.ofSize n).bytes ∧
      2 * (ofSize n).tenthsOfBytes ≤ 2 * (n * 10) + (SizeUnit.ofSize n).bytes := by
  rw [tenthsOfBytes_ofSize, nearest53_eq_self h]
  exact roundQuotient_near (n * 10) (SizeUnit.bytes_pos _)

end ShownSize

/-! ## Texts -/

/-- A size as a text tells it. -/
structure ToldSize where
  number : ℚ
  /-- The bytes of the unit that the number counts. -/
  unit : Nat

namespace ToldSize

def amount (s : ToldSize) : ℚ :=
  s.number * s.unit

def digits? (cs : List Char) : Option Nat :=
  if !cs.isEmpty && cs.all Char.isDigit then some (Nat.ofDigitChars 10 cs 0) else none

def decimal? (cs : List Char) : Option ℚ :=
  match cs.dropWhile (· ≠ '.') with
  | [] => (digits? cs).map (Nat.cast : Nat → ℚ)
  | _ :: places => do
    let whole ← digits? (cs.takeWhile (· ≠ '.'))
    let part ← digits? places
    some (whole + part / 10 ^ places.length)

def unit? : List Char → Option Nat
  | ['B'] => some 1
  | ['K', 'B'] => some 1024
  | ['M', 'B'] => some (1024 * 1024)
  | _ => none

def isNumeral (c : Char) : Bool :=
  c.isDigit || c == '.'

/-- A number, and behind it the letters of a unit. -/
def ofText? (text : String) : Option ToldSize := do
  let number ← decimal? (text.toList.takeWhile isNumeral)
  let unit ← unit? (text.toList.dropWhile isNumeral)
  some ⟨number, unit⟩

theorem ne_point_of_mem_toDigits {n : Nat} {c : Char} (h : c ∈ Nat.toDigits 10 n) : c ≠ '.' := by
  rintro rfl
  exact absurd (Nat.isDigit_of_mem_toDigits (by omega) (by omega) h) (by decide)

theorem isNumeral_of_mem_toDigits {n : Nat} {c : Char} (h : c ∈ Nat.toDigits 10 n) :
    isNumeral c = true := by
  rw [isNumeral, Nat.isDigit_of_mem_toDigits (by omega) (by omega) h, Bool.true_or]

theorem digits?_toDigits (n : Nat) : digits? (Nat.toDigits 10 n) = some n := by
  have hdigits : (Nat.toDigits 10 n).all Char.isDigit = true :=
    List.all_eq_true.mpr fun c hc => Nat.isDigit_of_mem_toDigits (by omega) (by omega) hc
  rw [digits?, if_pos (by simpa using hdigits), Nat.ofDigitChars_ten_toDigits]

theorem decimal?_whole (n : Nat) : decimal? (Nat.toDigits 10 n) = some (n : ℚ) := by
  have hnone : (Nat.toDigits 10 n).dropWhile (· ≠ '.') = [] :=
    List.dropWhile_eq_nil_iff.mpr fun c hc => by simpa using ne_point_of_mem_toDigits hc
  rw [decimal?, hnone, digits?_toDigits]
  rfl

theorem decimal?_tenths (n : Nat) :
    decimal? (Nat.toDigits 10 (n / 10) ++ '.' :: Nat.toDigits 10 (n % 10)) = some (n / 10 : ℚ) := by
  have hwhole : ∀ c ∈ Nat.toDigits 10 (n / 10), decide (c ≠ '.') = true := fun c hc => by
    simpa using ne_point_of_mem_toDigits hc
  have hplaces : (Nat.toDigits 10 (n % 10)).length = 1 := by
    rw [Nat.toDigits_of_lt_base (Nat.mod_lt n (by omega))]
    rfl
  have hsplit : (n : ℚ) = (n / 10 : Nat) * 10 + (n % 10 : Nat) := by
    exact_mod_cast (Nat.div_add_mod' n 10).symm
  rw [decimal?, List.dropWhile_append_of_pos hwhole, List.dropWhile_cons_of_neg (by simp),
    List.takeWhile_append_of_pos hwhole, List.takeWhile_cons_of_neg (by simp), List.append_nil]
  simp only [digits?_toDigits, hplaces, Option.bind_eq_bind, Option.bind_some, Option.some.injEq]
  rw [hsplit]
  ring

theorem ofText?_labelled {text : String} {number : List Char} {value : ℚ} {u : SizeUnit}
    (htext : text.toList = number ++ u.label.toList) (hnumber : ∀ c ∈ number, isNumeral c = true)
    (hvalue : decimal? number = some value) : ofText? text = some ⟨value, u.bytes⟩ := by
  have hlabel : u.label.toList.takeWhile isNumeral = [] ∧
      u.label.toList.dropWhile isNumeral = u.label.toList := by
    cases u <;> decide
  have hunit : unit? u.label.toList = some u.bytes := by
    cases u <;> decide
  rw [ofText?, htext, List.takeWhile_append_of_pos hnumber, List.dropWhile_append_of_pos hnumber,
    hlabel.1, hlabel.2, List.append_nil, hvalue, hunit]
  rfl

/-- The text of a size tells its tenths and its unit. -/
theorem ofText?_text {s : ShownSize} (h : s.unit = .byte → 10 ∣ s.tenths) :
    ofText? s.text = some ⟨s.tenths / 10, s.unit.bytes⟩ := by
  have hdigits : ∀ n, ∀ c ∈ Nat.toDigits 10 n, isNumeral c = true := fun n c hc =>
    isNumeral_of_mem_toDigits hc
  have hplaces : ∀ c ∈ Nat.toDigits 10 (s.tenths / 10) ++ '.' :: Nat.toDigits 10 (s.tenths % 10),
      isNumeral c = true :=
    List.forall_mem_append.mpr ⟨hdigits _, List.forall_mem_cons.mpr ⟨by decide, hdigits _⟩⟩
  cases hunit : s.unit with
  | byte =>
    have hwhole : ((s.tenths / 10 : Nat) : ℚ) = s.tenths / 10 := by
      exact_mod_cast Nat.cast_div (h hunit) (by norm_num)
    refine ofText?_labelled ?_ (hdigits _) (hwhole ▸ decimal?_whole (s.tenths / 10))
    simp [ShownSize.text, hunit]
  | kibibyte =>
    refine ofText?_labelled ?_ hplaces (decimal?_tenths _)
    simp [ShownSize.text, hunit]
  | mebibyte =>
    refine ofText?_labelled ?_ hplaces (decimal?_tenths _)
    simp [ShownSize.text, hunit]

theorem ofText?_sizeText (n : Nat) :
    ofText? (sizeText n) =
      some ⟨(ShownSize.ofSize n).tenths / 10, (ShownSize.ofSize n).unit.bytes⟩ := by
  refine ofText?_text fun hunit => ?_
  have hbyte : SizeUnit.ofSize n = .byte := hunit
  have htenths : (ShownSize.ofSize n).tenths = nearest53 n * 10 := by
    rw [ShownSize.ofSize, hbyte]
    simpa [SizeUnit.bytes] using roundQuotient_mul (nearest53 n * 10) Nat.one_pos
  exact htenths ▸ Nat.dvd_mul_left 10 _

theorem exists_amount (n : Nat) :
    ∃ s, ofText? (sizeText n) = some s ∧ s.unit = (SizeUnit.ofSize n).bytes ∧
      s.amount = (ShownSize.ofSize n).tenthsOfBytes / 10 := by
  refine ⟨_, ofText?_sizeText n, rfl, ?_⟩
  rw [amount, ShownSize.tenthsOfBytes]
  push_cast
  ring

end ToldSize

/-- The larger of two sizes is not shown as less, whatever their units, and what is shown of a size of
up to 2 ^ 53 bytes differs from it by a twentieth of the unit at most. -/
theorem sizeText_tells_amount :
    (∀ m n, m ≤ n → ∃ s t, ToldSize.ofText? (sizeText m) = some s ∧
      ToldSize.ofText? (sizeText n) = some t ∧ s.amount ≤ t.amount) ∧
    ∀ n, n ≤ 2 ^ 53 → ∃ s, ToldSize.ofText? (sizeText n) = some s ∧ |s.amount - n| ≤ s.unit / 20 := by
  refine ⟨fun m n h => ?_, fun n h => ?_⟩
  · obtain ⟨s, hs, -, hm⟩ := ToldSize.exists_amount m
    obtain ⟨t, ht, -, hn⟩ := ToldSize.exists_amount n
    refine ⟨s, t, hs, ht, ?_⟩
    rw [hm, hn]
    gcongr
    exact ShownSize.tenthsOfBytes_mono h
  · obtain ⟨s, hs, hunit, hamount⟩ := ToldSize.exists_amount n
    refine ⟨s, hs, ?_⟩
    obtain ⟨hlow, hhigh⟩ := ShownSize.tenthsOfBytes_near h
    have hlow' : (2 * (n * 10) : ℚ) ≤ 2 * (ShownSize.ofSize n).tenthsOfBytes + s.unit := by
      rw [hunit]
      exact_mod_cast hlow
    have hhigh' : (2 * (ShownSize.ofSize n).tenthsOfBytes : ℚ) ≤ 2 * (n * 10) + s.unit := by
      rw [hunit]
      exact_mod_cast hhigh
    rw [hamount, abs_le]
    constructor <;> linarith

/-- The last size shown in kibibytes is rounded up to the first one shown in mebibytes. -/
theorem sizeText_tells_amount_below_mebibyte :
    sizeText 1048575 = "1024.0KB" ∧ sizeText 1048576 = "1.0MB" ∧
      (∃ s t, ToldSize.ofText? (sizeText 1048575) = some s ∧
        ToldSize.ofText? (sizeText 1048576) = some t ∧ s.amount ≤ t.amount) ∧
      ∃ s, ToldSize.ofText? (sizeText 1048575) = some s ∧
        |s.amount - (1048575 : Nat)| ≤ s.unit / 20 := by
  refine ⟨by decide, by decide, ?_, ?_⟩
  · exact sizeText_tells_amount.1 1048575 1048576 (by decide)
  · exact sizeText_tells_amount.2 1048575 (by decide)

end SourceBundle
