import Mathlib.Data.List.Basic
import SourceBundle.GoFile

/-!
# Tokens before an opening brace

How long a token is does not depend on what stands behind an opening brace further on: no word, number
or sign runs into a brace, and whatever runs over it ends behind it. Words, numbers and most signs
hold no bracket and no character that begins a comment, a string or a rune.
-/

namespace SourceBundle.Go

def isFlat (c : Char) : Bool :=
  !"\"'/()[]\x7b\x7d".toList.contains c && c != Char.ofNat 0x60

def StartsBody (text : List Char) : Prop :=
  ∀ c ∈ text.head?, c = '\x7b'

theorem startsBody_cases {text : List Char} (h : StartsBody text) :
    text = [] ∨ ∃ rest, text = '\x7b' :: rest := by
  cases text with
  | nil => exact .inl rfl
  | cons c rest => exact .inr ⟨rest, by rw [h c rfl]⟩

theorem not_flat_iff {c : Char} :
    isFlat c = false ↔ c ∈ ['"', '\'', '/', '(', ')', '[', ']', '\x7b', '\x7d', Char.ofNat 0x60] := by
  simp [isFlat]
  tauto

theorem isFlat_of_kind {kind : Char → Bool}
    (h : ['"', '\'', '/', '(', ')', '[', ']', '\x7b', '\x7d', Char.ofNat 0x60].any kind = false)
    {c : Char} (hc : kind c = true) : isFlat c = true := by
  by_contra hflat
  exact List.any_eq_false.mp h c (not_flat_iff.mp (Bool.eq_false_iff.mpr hflat)) hc

theorem isFlat_of_isIdentifierPart {c : Char} (h : isIdentifierPart c = true) : isFlat c = true :=
  isFlat_of_kind (by decide) h

theorem isIdentifierPart_of_start {c : Char} (h : isIdentifierStart c = true) :
    isIdentifierPart c = true := by
  simp [isIdentifierPart, h]

/-! ## Words -/

theorem takeWhile_append_startsBody {kind : Char → Bool} (hbrace : kind '\x7b' = false)
    (text : List Char) {more : List Char} (h : StartsBody more) :
    (text ++ more).takeWhile kind = text.takeWhile kind := by
  induction text with
  | nil =>
    rcases startsBody_cases h with rfl | ⟨rest, rfl⟩
    · rfl
    · simp [hbrace]
  | cons c text ih => simp [List.takeWhile_cons, ih]

theorem wordLength_append (text : List Char) {more : List Char} (h : StartsBody more) :
    wordLength (text ++ more) = wordLength text := by
  cases text with
  | nil =>
    rcases startsBody_cases h with rfl | ⟨rest, rfl⟩
    · rfl
    · rfl
  | cons c text =>
    rw [List.cons_append, wordLength, wordLength,
      takeWhile_append_startsBody (by decide) text h]

theorem wordLength_le (text : List Char) : wordLength text ≤ text.length := by
  cases text with
  | nil => exact Nat.le_refl _
  | cons c text =>
    rw [wordLength]
    split
    · exact Nat.succ_le_succ (List.takeWhile_sublist _).length_le
    · exact Nat.zero_le _

theorem flat_of_word (text : List Char) : ∀ c ∈ text.take (wordLength text), isFlat c = true := by
  cases text with
  | nil => simp
  | cons first text =>
    rw [wordLength]
    split
    · next hfirst =>
      intro c hc
      rw [List.take_succ_cons, ← (List.prefix_iff_eq_take.mp (List.takeWhile_prefix _))] at hc
      rcases List.mem_cons.mp hc with rfl | hc
      · exact isFlat_of_isIdentifierPart (isIdentifierPart_of_start hfirst)
      · exact isFlat_of_isIdentifierPart (List.all_eq_true.mp List.all_takeWhile c hc)
    · simp

/-! ## Signs -/

theorem isPrefixOf_append {sign : List Char} (hsign : '\x7b' ∉ sign) (text : List Char)
    {more : List Char} (h : StartsBody more) :
    sign.isPrefixOf (text ++ more) = sign.isPrefixOf text := by
  induction sign generalizing text with
  | nil => simp
  | cons s sign ih =>
    rw [List.mem_cons, not_or] at hsign
    cases text with
    | nil =>
      rcases startsBody_cases h with rfl | ⟨rest, rfl⟩
      · rfl
      · simp [List.isPrefixOf, Ne.symm hsign.1]
    | cons c text =>
      rw [List.cons_append, List.isPrefixOf, List.isPrefixOf, ih hsign.2]

theorem longestSign_append {signs : List String} (hsigns : ∀ s ∈ signs, '\x7b' ∉ s.toList)
    (text : List Char) {more : List Char} (h : StartsBody more) :
    longestSign (text ++ more) signs = longestSign text signs := by
  unfold longestSign
  generalize (none : Option String) = best
  induction signs generalizing best with
  | nil => rfl
  | cons s signs ih =>
    rw [List.foldl_cons, List.foldl_cons,
      isPrefixOf_append (hsigns s List.mem_cons_self) text h,
      ih fun s hs => hsigns s (List.mem_cons_of_mem _ hs)]

/-! ## Numbers -/

/-- A scanner that passes flat characters only and stops before an opening brace. -/
structure Scanner (scan : List Char → List (List Char)) : Prop where
  passes : ∀ text, ∀ rest ∈ scan text, ∃ front, text = front ++ rest ∧ ∀ c ∈ front, isFlat c = true
  stops : ∀ text more, StartsBody more → scan (text ++ more) = (scan text).map (· ++ more)

def Eats (scan : List Char → List (List Char)) : Prop :=
  ∀ text, ∀ rest ∈ scan text, rest.length < text.length

section

variable {scan other : List Char → List (List Char)}

theorem Scanner.length_le (h : Scanner scan) {text rest : List Char} (hrest : rest ∈ scan text) :
    rest.length ≤ text.length := by
  obtain ⟨front, rfl, -⟩ := h.passes text rest hrest
  simp

theorem Scanner.same : Scanner fun text => [text] where
  passes text rest hrest := ⟨[], (List.mem_singleton.mp hrest).symm, by simp⟩
  stops text more _ := rfl

theorem Scanner.append (hscan : Scanner scan) (hother : Scanner other) :
    Scanner fun text => scan text ++ other text where
  passes text rest hrest := by
    rcases List.mem_append.mp hrest with hrest | hrest
    · exact hscan.passes text rest hrest
    · exact hother.passes text rest hrest
  stops text more h := by simp [hscan.stops text more h, hother.stops text more h]

theorem Scanner.flatMap (hscan : Scanner scan) (hother : Scanner other) :
    Scanner fun text => (scan text).flatMap other where
  passes text rest hrest := by
    obtain ⟨mid, hmid, hrest⟩ := List.mem_flatMap.mp hrest
    obtain ⟨back, rfl, hback⟩ := hother.passes mid rest hrest
    obtain ⟨front, rfl, hfront⟩ := hscan.passes text _ hmid
    refine ⟨front ++ back, by simp, fun c hc => ?_⟩
    rcases List.mem_append.mp hc with hc | hc
    · exact hfront c hc
    · exact hback c hc
  stops text more h := by
    rw [hscan.stops text more h, List.flatMap_map, List.map_flatMap]
    exact List.flatMap_congr fun mid _ => hother.stops mid more h

theorem Eats.append (hscan : Eats scan) (hother : Eats other) :
    Eats fun text => scan text ++ other text := fun text rest hrest =>
  (List.mem_append.mp hrest).elim (hscan text rest) (hother text rest)

theorem Eats.flatMap (hscan : Eats scan) (hother : Scanner other) :
    Eats fun text => (scan text).flatMap other := by
  intro text rest hrest
  obtain ⟨mid, hmid, hrest⟩ := List.mem_flatMap.mp hrest
  exact Nat.lt_of_le_of_lt (hother.length_le hrest) (hscan text mid hmid)

theorem Eats.of_flatMap (hscan : Scanner scan) (hother : Eats other) :
    Eats fun text => (scan text).flatMap other := by
  intro text rest hrest
  obtain ⟨mid, hmid, hrest⟩ := List.mem_flatMap.mp hrest
  exact Nat.lt_of_lt_of_le (hother mid rest hrest) (hscan.length_le hmid)

theorem scanner_oneOf {cs : List Char} (hcs : cs.all isFlat = true) : Scanner (oneOf cs) where
  passes text rest hrest := by
    cases text with
    | nil => cases hrest
    | cons d text =>
      rw [oneOf] at hrest
      split at hrest
      · next hd =>
        obtain rfl := List.mem_singleton.mp hrest
        refine ⟨[d], rfl, fun c hc => ?_⟩
        rw [List.mem_singleton.mp hc]
        exact List.all_eq_true.mp hcs d (by simpa using hd)
      · cases hrest
  stops text more h := by
    cases text with
    | nil =>
      rcases startsBody_cases h with rfl | ⟨rest, rfl⟩
      · rfl
      · have hbrace : '\x7b' ∉ cs := fun hmem =>
          absurd (List.all_eq_true.mp hcs _ hmem) (by decide)
        simp [oneOf, hbrace]
    | cons d text =>
      rw [List.cons_append, oneOf, oneOf]
      split <;> rfl

theorem eats_oneOf (cs : List Char) : Eats (oneOf cs) := by
  intro text rest hrest
  cases text with
  | nil => cases hrest
  | cons d text =>
    rw [oneOf] at hrest
    split at hrest
    · rw [List.mem_singleton.mp hrest]
      exact Nat.lt_succ_self _
    · cases hrest

theorem scanner_maybeOneOf {cs : List Char} (hcs : cs.all isFlat = true) :
    Scanner (maybeOneOf cs) :=
  Scanner.same.append (scanner_oneOf hcs)

structure DigitKind (digit : Char → Bool) : Prop where
  flat : ∀ c, digit c = true → isFlat c = true
  underscore : digit '_' = false

variable {digit : Char → Bool}

theorem DigitKind.brace (h : DigitKind digit) : digit '\x7b' = false :=
  Bool.eq_false_iff.mpr fun hbrace => absurd (h.flat _ hbrace) (by decide)

theorem moreDigits_cons {d : Char} (hd : d ≠ '_') (cs : List Char) :
    moreDigits digit (d :: cs) = if digit d then cs :: moreDigits digit cs else [] := by
  rw [moreDigits]
  rintro d' cs' rfl
  exact absurd rfl hd

theorem scanner_moreDigits (h : DigitKind digit) : Scanner (moreDigits digit) where
  passes text := by
    fun_induction moreDigits digit text with
    | case1 d cs hd ih =>
      intro rest hrest
      rcases List.mem_cons.mp hrest with rfl | hrest
      · exact ⟨['_', d], rfl, by simpa using ⟨by decide, h.flat d hd⟩⟩
      · obtain ⟨front, rfl, hfront⟩ := ih rest hrest
        refine ⟨'_' :: d :: front, rfl, ?_⟩
        simpa using ⟨by decide, h.flat d hd, hfront⟩
    | case2 => simp
    | case3 d cs _ hd ih =>
      intro rest hrest
      rcases List.mem_cons.mp hrest with rfl | hrest
      · exact ⟨[d], rfl, by simpa using h.flat d hd⟩
      · obtain ⟨front, rfl, hfront⟩ := ih rest hrest
        exact ⟨d :: front, rfl, by simpa using ⟨h.flat d hd, hfront⟩⟩
    | case4 => simp
    | case5 => simp
  stops text more hmore := by
    fun_induction moreDigits digit text with
    | case1 d cs hd ih => simp [moreDigits, hd, ih]
    | case2 d cs hd => simp [moreDigits, hd]
    | case3 d cs hcs hd ih =>
      have hd_ne : d ≠ '_' := by
        rintro rfl
        exact absurd hd (by simp [h.underscore])
      rw [List.cons_append, moreDigits_cons hd_ne, if_pos hd, ih]
      rfl
    | case4 d cs hcs hd =>
      rcases startsBody_cases hmore with rfl | ⟨rest, rfl⟩
      · simp [moreDigits, hd]
      by_cases hunder : d = '_'
      · cases cs with
        | nil => simp [hunder, moreDigits, h.brace]
        | cons d' cs' => exact absurd rfl (hcs d' cs' hunder)
      · simp [moreDigits_cons hunder, hd]
    | case5 =>
      rcases startsBody_cases hmore with rfl | ⟨rest, rfl⟩
      · rfl
      · simp [moreDigits, h.brace]

theorem scanner_digits (h : DigitKind digit) : Scanner (digits digit) where
  passes text rest hrest := by
    cases text with
    | nil => cases hrest
    | cons d text =>
      rw [digits] at hrest
      split at hrest
      · next hd =>
        have hflat := h.flat d hd
        rcases List.mem_cons.mp hrest with rfl | hrest
        · exact ⟨[d], rfl, by simpa using hflat⟩
        · obtain ⟨front, rfl, hfront⟩ := (scanner_moreDigits h).passes text rest hrest
          exact ⟨d :: front, rfl, by simpa using ⟨hflat, hfront⟩⟩
      · cases hrest
  stops text more hmore := by
    cases text with
    | nil =>
      rcases startsBody_cases hmore with rfl | ⟨rest, rfl⟩
      · rfl
      · simp [digits, h.brace]
    | cons d text =>
      rw [List.cons_append, digits, digits, (scanner_moreDigits h).stops text more hmore]
      split <;> rfl

theorem eats_digits (h : DigitKind digit) : Eats (digits digit) := by
  intro text rest hrest
  cases text with
  | nil => cases hrest
  | cons d text =>
    rw [digits] at hrest
    split at hrest
    · rcases List.mem_cons.mp hrest with rfl | hrest
      · exact Nat.lt_succ_self _
      · exact Nat.lt_succ_of_le ((scanner_moreDigits h).length_le hrest)
    · cases hrest

end

theorem digitKind_of {digit : Char → Bool}
    (h : ['"', '\'', '/', '(', ')', '[', ']', '\x7b', '\x7d', Char.ofNat 0x60].any digit = false)
    (hunderscore : digit '_' = false) : DigitKind digit :=
  ⟨fun _ => isFlat_of_kind h, hunderscore⟩

theorem digitKind_isDigit : DigitKind Char.isDigit := digitKind_of (by decide) rfl
theorem digitKind_isHexDigit : DigitKind isHexDigit := digitKind_of (by decide) (by decide)
theorem digitKind_isOctalDigit : DigitKind isOctalDigit := digitKind_of (by decide) (by decide)
theorem digitKind_isBinaryDigit : DigitKind isBinaryDigit := digitKind_of (by decide) (by decide)

theorem scanner_integers : Scanner integers := by
  have hzero : Scanner (oneOf ['0']) := scanner_oneOf (by decide)
  have hunderscore : Scanner (maybeOneOf ['_']) := scanner_maybeOneOf (by decide)
  have hmore : Scanner fun cs => cs :: moreDigits Char.isDigit cs :=
    Scanner.same.append (scanner_moreDigits digitKind_isDigit)
  exact (((hzero.append ((scanner_oneOf (by decide)).flatMap hmore)).append
    (((hzero.flatMap (scanner_maybeOneOf (by decide))).flatMap hunderscore).flatMap
      (scanner_digits digitKind_isOctalDigit))).append
    (((hzero.flatMap (scanner_oneOf (by decide))).flatMap hunderscore).flatMap
      (scanner_digits digitKind_isBinaryDigit))).append
    (((hzero.flatMap (scanner_oneOf (by decide))).flatMap hunderscore).flatMap
      (scanner_digits digitKind_isHexDigit))

theorem eats_integers : Eats integers := by
  have hzero : Eats (oneOf ['0']) := eats_oneOf _
  have hunderscore : Scanner (maybeOneOf ['_']) := scanner_maybeOneOf (by decide)
  have hmore : Scanner fun cs => cs :: moreDigits Char.isDigit cs :=
    Scanner.same.append (scanner_moreDigits digitKind_isDigit)
  exact (((hzero.append ((eats_oneOf _).flatMap hmore)).append
    (((hzero.flatMap (scanner_maybeOneOf (by decide))).flatMap hunderscore).flatMap
      (scanner_digits digitKind_isOctalDigit))).append
    (((hzero.flatMap (scanner_oneOf (by decide))).flatMap hunderscore).flatMap
      (scanner_digits digitKind_isBinaryDigit))).append
    (((hzero.flatMap (scanner_oneOf (by decide))).flatMap hunderscore).flatMap
      (scanner_digits digitKind_isHexDigit))

theorem scanner_exponents {marks : List Char} (h : marks.all isFlat = true) :
    Scanner (exponents marks) :=
  ((scanner_oneOf h).flatMap (scanner_maybeOneOf (by decide))).flatMap
    (scanner_digits digitKind_isDigit)

theorem eats_exponents (marks : List Char) : Eats (exponents marks) :=
  ((eats_oneOf marks).flatMap (scanner_maybeOneOf (by decide))).flatMap
    (scanner_digits digitKind_isDigit)

theorem scanner_maybeDigits {digit : Char → Bool} (h : DigitKind digit) :
    Scanner (maybeDigits digit) :=
  Scanner.same.append (scanner_digits h)

def hexFronts (text : List Char) : List (List Char) :=
  let behindMark := (oneOf ['0'] text).flatMap (oneOf ['x', 'X'])
  let whole := (behindMark.flatMap (maybeOneOf ['_'])).flatMap (digits isHexDigit)
  (whole.flatMap (oneOf ['.'])).flatMap (maybeDigits isHexDigit) ++ whole ++
    (behindMark.flatMap (oneOf ['.'])).flatMap (digits isHexDigit)

theorem scanner_hexFronts : Scanner hexFronts := by
  have hpoint : Scanner (oneOf ['.']) := scanner_oneOf (by decide)
  have hmark : Scanner fun text => (oneOf ['0'] text).flatMap (oneOf ['x', 'X']) :=
    (scanner_oneOf (by decide)).flatMap (scanner_oneOf (by decide))
  have hunderscore : Scanner (maybeOneOf ['_']) := scanner_maybeOneOf (by decide)
  have hhex := scanner_digits digitKind_isHexDigit
  have hwhole := (hmark.flatMap hunderscore).flatMap hhex
  have hpointed := (hwhole.flatMap hpoint).flatMap (scanner_maybeDigits digitKind_isHexDigit)
  exact (hpointed.append hwhole).append ((hmark.flatMap hpoint).flatMap hhex)

theorem scanner_floats : Scanner floats := by
  have hwhole := scanner_digits digitKind_isDigit
  have hpoint : Scanner (oneOf ['.']) := scanner_oneOf (by decide)
  have hmaybe := scanner_maybeDigits digitKind_isDigit
  have hexponents : Scanner (exponents ['e', 'E']) := scanner_exponents (by decide)
  have hmaybeExponent : Scanner fun cs => cs :: exponents ['e', 'E'] cs :=
    Scanner.same.append hexponents
  exact ((((hwhole.flatMap hpoint).flatMap hmaybe).flatMap hmaybeExponent).append
    (hwhole.flatMap hexponents)).append ((hpoint.flatMap hwhole).flatMap hmaybeExponent)
    |>.append (scanner_hexFronts.flatMap (scanner_exponents (by decide)))

theorem eats_floats : Eats floats := by
  have hwhole := scanner_digits digitKind_isDigit
  have hwholeEats := eats_digits digitKind_isDigit
  have hpoint : Scanner (oneOf ['.']) := scanner_oneOf (by decide)
  have hmaybe := scanner_maybeDigits digitKind_isDigit
  have hexponents : Scanner (exponents ['e', 'E']) := scanner_exponents (by decide)
  have hmaybeExponent : Scanner fun cs => cs :: exponents ['e', 'E'] cs :=
    Scanner.same.append hexponents
  exact ((((hwholeEats.flatMap hpoint).flatMap hmaybe).flatMap hmaybeExponent).append
    (hwholeEats.flatMap hexponents)).append (((eats_oneOf _).flatMap hwhole).flatMap hmaybeExponent)
    |>.append (Eats.of_flatMap scanner_hexFronts (eats_exponents _))

def numbers (text : List Char) : List (List Char) :=
  let plain := integers text ++ floats text
  plain ++ (plain ++ digits Char.isDigit text).flatMap (oneOf ['i'])

theorem scanner_numbers : Scanner numbers :=
  (scanner_integers.append scanner_floats).append
    (((scanner_integers.append scanner_floats).append (scanner_digits digitKind_isDigit)).flatMap
      (scanner_oneOf (by decide)))

theorem eats_numbers : Eats numbers :=
  (eats_integers.append eats_floats).append
    (((eats_integers.append eats_floats).append (eats_digits digitKind_isDigit)).flatMap
      (scanner_oneOf (by decide)))

theorem foldl_min_mem (first : List Char) (others : List (List Char)) :
    ∃ rest ∈ first :: others,
      others.foldl (fun least cs => min least cs.length) first.length = rest.length := by
  induction others generalizing first with
  | nil => exact ⟨first, List.mem_cons_self, rfl⟩
  | cons next others ih =>
    rw [List.foldl_cons]
    rcases Nat.le_total first.length next.length with h | h
    · rw [Nat.min_eq_left h]
      obtain ⟨rest, hrest, heq⟩ := ih first
      refine ⟨rest, ?_, heq⟩
      rcases List.mem_cons.mp hrest with rfl | hrest
      · exact List.mem_cons_self
      · exact List.mem_cons_of_mem _ (List.mem_cons_of_mem _ hrest)
    · rw [Nat.min_eq_right h]
      obtain ⟨rest, hrest, heq⟩ := ih next
      exact ⟨rest, List.mem_cons_of_mem _ hrest, heq⟩

theorem numberLength?_bounds {text : List Char} {n : Nat} (h : numberLength? text = some n) :
    0 < n ∧ n ≤ text.length ∧ ∀ c ∈ text.take n, isFlat c = true := by
  obtain ⟨rest, hrest, rfl⟩ : ∃ rest ∈ numbers text, n = text.length - rest.length := by
    unfold numberLength? at h
    split at h
    · cases h
    split at h
    · dsimp only at h
      split at h
      · cases h
      · next first others hall =>
        obtain ⟨rest, hrest, heq⟩ := foldl_min_mem first others
        cases h
        exact ⟨rest, by rw [numbers, hall]; exact hrest, by rw [heq]⟩
    · cases h
  obtain ⟨front, rfl, hfront⟩ := scanner_numbers.passes text rest hrest
  have heats := eats_numbers _ rest hrest
  rw [List.length_append] at heats
  have hlength : (front ++ rest).length - rest.length = front.length := by simp
  rw [hlength]
  exact ⟨by omega, by simp, by simpa using hfront⟩

theorem foldl_min_append (others : List (List Char)) (more : List Char) (least : Nat) :
    (others.map (· ++ more)).foldl (fun least cs => min least cs.length) (least + more.length) =
      others.foldl (fun least cs => min least cs.length) least + more.length := by
  induction others generalizing least with
  | nil => rfl
  | cons cs others ih =>
    rw [List.map_cons, List.foldl_cons, List.foldl_cons, ← ih, List.length_append,
      Nat.add_min_add_right]

theorem numberLength?_append (text : List Char) {more : List Char} (h : StartsBody more) :
    numberLength? (text ++ more) = numberLength? text := by
  cases text with
  | nil =>
    rcases startsBody_cases h with rfl | ⟨rest, rfl⟩
    · rfl
    · rfl
  | cons c text =>
    have hstops := scanner_numbers.stops (c :: text) more h
    simp only [numbers] at hstops
    unfold numberLength?
    simp only [List.cons_append] at hstops ⊢
    rw [hstops]
    split
    · generalize integers (c :: text) ++ floats (c :: text) ++
        (integers (c :: text) ++ floats (c :: text) ++ digits Char.isDigit (c :: text)).flatMap
          (oneOf ['i']) = all
      cases all with
      | nil => rfl
      | cons first others =>
        simp only [List.map_cons, List.length_append, foldl_min_append, List.length_cons]
        congr 1
        omega
    · rfl

/-! ## Runes and escapes -/

theorem beginsWith_append {kind : Char → Bool} (hbrace : kind '\x7b' = false) (n : Nat)
    (text : List Char) {more : List Char} (h : StartsBody more) :
    beginsWith kind n (text ++ more) = beginsWith kind n text := by
  rcases startsBody_cases h with rfl | ⟨rest, rfl⟩
  · rw [List.append_nil]
  unfold beginsWith
  rcases Nat.lt_or_ge text.length n with hn | hn
  · obtain ⟨k, hk⟩ := Nat.exists_eq_add_of_lt hn
    have hlong : (text ++ '\x7b' :: rest).take n = text ++ '\x7b' :: rest.take k := by
      rw [List.take_append, List.take_of_length_le (by omega), hk]
      congr 1
      have hsub : text.length + k + 1 - text.length = k + 1 := by omega
      rw [hsub, List.take_succ_cons]
    have hshort : ((text.take n).length == n) = false := by
      simp
      omega
    rw [hlong, hshort]
    simp [hbrace]
  · rw [List.take_append_of_le_length hn]

theorem beginsWith_length {kind : Char → Bool} {n : Nat} {text : List Char}
    (h : beginsWith kind n text = true) : n ≤ text.length := by
  simp only [beginsWith, Bool.and_eq_true, beq_iff_eq, List.length_take] at h
  omega

theorem runeEscapeLength?_append (text : List Char) {more : List Char} (h : StartsBody more) :
    runeEscapeLength? (text ++ more) = runeEscapeLength? text := by
  have hhex (n : Nat) (cs : List Char) :
      beginsWith isHexDigit n (cs ++ more) = beginsWith isHexDigit n cs :=
    beginsWith_append (by decide) n cs h
  have hoctal (cs : List Char) :
      beginsWith isOctalDigit 3 (cs ++ more) = beginsWith isOctalDigit 3 cs :=
    beginsWith_append (by decide) 3 cs h
  cases text with
  | nil =>
    rcases startsBody_cases h with rfl | ⟨rest, rfl⟩
    · rfl
    · simp [runeEscapeLength?, beginsWith, isOctalDigit]
  | cons c text =>
    by_cases hx : c = 'x'
    · simp [hx, runeEscapeLength?, hhex]
    by_cases hu : c = 'u'
    · simp [hu, runeEscapeLength?, hhex]
    by_cases hU : c = 'U'
    · simp [hU, runeEscapeLength?, hhex]
    · have heq := hoctal (c :: text)
      rw [List.cons_append] at heq ⊢
      simp only [runeEscapeLength?, heq]

theorem runeEscapeLength?_le {text : List Char} {n : Nat} (h : runeEscapeLength? text = some n) :
    n ≤ text.length := by
  unfold runeEscapeLength? at h
  split at h
  · split at h
    · next hhex =>
      cases h
      exact Nat.succ_le_succ (beginsWith_length hhex)
    · cases h
  · split at h
    · next hhex =>
      cases h
      exact Nat.succ_le_succ (beginsWith_length hhex)
    · cases h
  · split at h
    · next hhex =>
      cases h
      exact Nat.succ_le_succ (beginsWith_length hhex)
    · cases h
  · split at h
    · next hoctal =>
      cases h
      exact beginsWith_length hoctal
    · split at h
      · cases h
        exact Nat.succ_le_succ (Nat.zero_le _)
      · cases h
  · cases h

theorem stringEscapeLength?_append {text more : List Char} (h : StartsBody more)
    (hne : text ≠ []) : stringEscapeLength? (text ++ more) = stringEscapeLength? text := by
  have hhex (n : Nat) (cs : List Char) :
      beginsWith isHexDigit n (cs ++ more) = beginsWith isHexDigit n cs :=
    beginsWith_append (by decide) n cs h
  cases text with
  | nil => exact absurd rfl hne
  | cons c text =>
    by_cases hx : c = 'x'
    · simp [hx, stringEscapeLength?, hhex]
    by_cases hu : c = 'u'
    · simp [hu, stringEscapeLength?, hhex]
    by_cases hU : c = 'U'
    · simp [hU, stringEscapeLength?, hhex]
    · simp [stringEscapeLength?]

theorem stringEscapeLength?_le {text : List Char} {n : Nat}
    (h : stringEscapeLength? text = some n) : n ≤ text.length := by
  unfold stringEscapeLength? at h
  split at h
  · split at h
    · next hhex =>
      cases h
      exact Nat.succ_le_succ (beginsWith_length hhex)
    · cases h
  · split at h
    · next hhex =>
      cases h
      exact Nat.succ_le_succ (beginsWith_length hhex)
    · cases h
  · split at h
    · next hhex =>
      cases h
      exact Nat.succ_le_succ (beginsWith_length hhex)
    · cases h
  · cases h
    exact Nat.succ_le_succ (Nat.zero_le _)
  · cases h

theorem runeLength?_bounds {text : List Char} {n : Nat} (h : runeLength? text = some n) :
    0 < n ∧ n ≤ text.length := by
  unfold runeLength? at h
  split at h
  · next cs =>
    obtain ⟨m, hm, h⟩ := Option.bind_eq_some_iff.mp h
    split at h
    · next hquote =>
      cases h
      have hlt : m < cs.length := by
        by_contra hge
        rw [List.drop_of_length_le (by omega)] at hquote
        simp at hquote
      exact ⟨by omega, by simp only [List.length_cons]; omega⟩
    · cases h
  · split at h
    · cases h
    · cases h
      simp
  · cases h

theorem runeLength?_escape_append (cs : List Char) {more : List Char} (h : StartsBody more) :
    runeLength? ('\'' :: '\\' :: (cs ++ more)) = runeLength? ('\'' :: '\\' :: cs) := by
  simp only [runeLength?, runeEscapeLength?_append cs h]
  cases hescape : runeEscapeLength? cs with
  | none => rfl
  | some n =>
    have hle := runeEscapeLength?_le hescape
    have hhead : ((cs ++ more).drop n).head? == some '\'' ↔ (cs.drop n).head? == some '\'' := by
      rcases Nat.lt_or_ge n cs.length with hlt | hge
      · rw [List.drop_append_of_le_length (by omega), List.drop_eq_getElem_cons hlt]
        rfl
      · obtain rfl : n = cs.length := by omega
        rw [List.drop_left, List.drop_length]
        rcases startsBody_cases h with rfl | ⟨rest, rfl⟩
        · rfl
        · simp
    rw [Option.bind_some, Option.bind_some, Bool.eq_iff_iff.mpr hhead]

theorem runeLength?_of_head {text : List Char} (h : text.head? ≠ some '\'') :
    runeLength? text = none := by
  unfold runeLength?
  split
  · exact absurd rfl h
  · exact absurd rfl h
  · rfl

theorem runeLength?_append (text : List Char) {more : List Char} (h : StartsBody more) :
    (runeLength? (text ++ more)).filter (fun n => n ≤ text.length) = runeLength? text := by
  have hkept : (runeLength? text).filter (fun n => n ≤ text.length) = runeLength? text := by
    cases hrune : runeLength? text with
    | none => rfl
    | some n => simp [(runeLength?_bounds hrune).2]
  rcases startsBody_cases h with rfl | ⟨rest, rfl⟩
  · rw [List.append_nil, hkept]
  by_cases hquote : text.head? = some '\''
  · obtain ⟨cs, rfl⟩ : ∃ cs, text = '\'' :: cs := by
      cases text with
      | nil => cases hquote
      | cons c cs => exact ⟨cs, by rw [Option.some.inj hquote]⟩
    match cs with
    | [] =>
      cases rest with
      | nil => rfl
      | cons c rest =>
        by_cases hc : c = '\''
        · simp [hc, runeLength?]
        · simp [hc, runeLength?]
    | [d] =>
      by_cases hd : d = '\\'
      · rw [← hkept, hd]
        exact congrArg _ (runeLength?_escape_append [] h)
      · simp [runeLength?, hd]
    | d :: e :: cs =>
      by_cases hd : d = '\\'
      · rw [← hkept, hd]
        exact congrArg _ (runeLength?_escape_append (e :: cs) h)
      · rw [← hkept]
        by_cases he : e = '\''
        · simp [runeLength?, he]
        · simp [runeLength?, hd, he]
  · cases text with
    | nil => rfl
    | cons c cs =>
      have hc : c ≠ '\'' := fun hc => hquote (by rw [hc]; rfl)
      simp [runeLength?, hc]

/-! ## Comments -/

theorem blockLength?_cons {c : Char} {cs : List Char} (h : c = '*' → cs.head? ≠ some '/') :
    blockLength? (c :: cs) = (blockLength? cs).map (· + 1) := by
  rw [blockLength?]
  rintro rest rfl rfl
  exact absurd rfl (h rfl)

theorem filter_map_succ (length : Option Nat) (n : Nat) :
    (length.map (· + 1)).filter (fun m => m ≤ n + 1) = (length.filter fun m => m ≤ n).map (· + 1) := by
  cases length with
  | none => rfl
  | some m => simp [Option.filter]

theorem blockLength?_append (text : List Char) {more : List Char} (h : StartsBody more) :
    (blockLength? (text ++ more)).filter (fun n => n ≤ text.length) = blockLength? text := by
  fun_induction blockLength? text with
  | case1 =>
    rcases startsBody_cases h with rfl | ⟨rest, rfl⟩
    · rfl
    · rw [List.nil_append, blockLength?_cons (by simp)]
      cases blockLength? rest <;> simp
  | case2 cs => simp [blockLength?]
  | case3 c cs hcs ih =>
    have hboth : c = '*' → (cs ++ more).head? ≠ some '/' := by
      rintro rfl hhead
      cases cs with
      | nil =>
        rw [List.nil_append] at hhead
        exact absurd (h _ hhead) (by decide)
      | cons d cs =>
        obtain rfl := Option.some.inj hhead
        exact hcs cs rfl rfl
    rw [List.cons_append, blockLength?_cons hboth, List.length_cons, filter_map_succ, ih]

theorem lineLength_append {text more : List Char}
    (hle : lineLength (text ++ more) ≤ text.length) :
    lineLength (text ++ more) = lineLength text := by
  induction text with
  | nil => rw [Nat.le_zero.mp hle]; rfl
  | cons c text ih =>
    rw [List.cons_append, lineLength] at hle ⊢
    rw [lineLength]
    split
    · rfl
    · next hc =>
      rw [if_neg hc, List.length_cons] at hle
      rw [ih (by omega)]

theorem commentLength?_of_head {text : List Char} (h : text.head? ≠ some '/') :
    commentLength? text = none := by
  unfold commentLength?
  split
  · exact absurd rfl h
  · exact absurd rfl h
  · rfl

theorem commentLength?_of_ne {c d : Char} {cs : List Char} (h : c ≠ '/' ∨ d ≠ '/' ∧ d ≠ '*') :
    commentLength? (c :: d :: cs) = none := by
  unfold commentLength?
  split
  · next heq =>
    cases heq
    simp at h
  · next heq =>
    cases heq
    simp at h
  · rfl

theorem commentLength?_singleton (c : Char) : commentLength? [c] = none := by
  rw [commentLength?]
  · rintro cs ⟨⟩
  · rintro cs ⟨⟩

theorem commentLength?_append {text more : List Char} (h : StartsBody more)
    (hle : ∀ n, commentLength? (text ++ more) = some n → n ≤ text.length) :
    commentLength? (text ++ more) = commentLength? text := by
  match text with
  | [] =>
    rcases startsBody_cases h with rfl | ⟨rest, rfl⟩
    · rfl
    · rfl
  | [c] =>
    rcases startsBody_cases h with rfl | ⟨rest, rfl⟩
    · rfl
    · rw [List.singleton_append, commentLength?_singleton,
        commentLength?_of_ne (.inr ⟨by decide, by decide⟩)]
  | c :: d :: cs =>
    by_cases hline : c = '/' ∧ d = '/'
    · obtain ⟨rfl, rfl⟩ := hline
      have hlength := hle _ rfl
      have heq : lineLength (cs ++ more) = lineLength cs := lineLength_append (by simpa using hlength)
      simp only [List.cons_append, commentLength?, heq]
    by_cases hblock : c = '/' ∧ d = '*'
    · obtain ⟨rfl, rfl⟩ := hblock
      have hkept : (blockLength? (cs ++ more)).filter (fun n => n ≤ cs.length) =
          blockLength? (cs ++ more) := by
        cases hlength : blockLength? (cs ++ more) with
        | none => rfl
        | some n =>
          have hn := hle (n + 2) (by simp [commentLength?, hlength])
          simp only [List.length_cons] at hn
          simp [Option.filter]
          omega
      simp only [List.cons_append, commentLength?, ← blockLength?_append cs h, hkept]
    · have hne : c ≠ '/' ∨ d ≠ '/' ∧ d ≠ '*' := by tauto
      rw [List.cons_append, List.cons_append, commentLength?_of_ne hne, commentLength?_of_ne hne]

theorem lineLength_le (text : List Char) : lineLength text ≤ text.length := by
  induction text with
  | nil => exact Nat.le_refl _
  | cons c text ih =>
    rw [lineLength]
    split
    · exact Nat.zero_le _
    · exact Nat.succ_le_succ ih

theorem lineLength_of_lt {text more : List Char} (h : text.length < lineLength (text ++ more)) :
    lineLength text = text.length := by
  induction text with
  | nil => rfl
  | cons c text ih =>
    rw [List.cons_append, lineLength] at h
    rw [lineLength]
    split at h
    · simp at h
    · next hc =>
      rw [if_neg hc, List.length_cons, ih (Nat.lt_of_succ_lt_succ h)]

/-- A comment that runs over the brace takes all before it, if it is one without what stands behind. -/
theorem commentLength?_of_lt {text more : List Char} (h : StartsBody more) {n k : Nat}
    (hn : commentLength? (text ++ more) = some n) (hlt : text.length < n)
    (hk : commentLength? text = some k) : k = text.length := by
  match text with
  | [] => cases hk
  | [c] =>
    rw [commentLength?_singleton] at hk
    cases hk
  | c :: d :: cs =>
    by_cases hline : c = '/' ∧ d = '/'
    · obtain ⟨rfl, rfl⟩ := hline
      obtain rfl : lineLength (cs ++ more) + 2 = n := Option.some.inj hn
      obtain rfl : lineLength cs + 2 = k := Option.some.inj hk
      rw [lineLength_of_lt (by simpa using hlt)]
      rfl
    by_cases hblock : c = '/' ∧ d = '*'
    · obtain ⟨rfl, rfl⟩ := hblock
      rw [List.cons_append, List.cons_append] at hn
      obtain ⟨i, hi, rfl⟩ := Option.map_eq_some_iff.mp hn
      obtain ⟨j, hj, rfl⟩ := Option.map_eq_some_iff.mp hk
      have happend := blockLength?_append cs h
      rw [hi, hj] at happend
      simp only [Option.filter, List.length_cons] at happend hlt
      rw [if_neg (by simpa using hlt)] at happend
      cases happend
    · have hne : c ≠ '/' ∨ d ≠ '/' ∧ d ≠ '*' := by tauto
      rw [commentLength?_of_ne hne] at hk
      cases hk

theorem blockLength?_le {text : List Char} {n : Nat} (h : blockLength? text = some n) :
    n ≤ text.length := by
  have hnothing : StartsBody [] := by simp [StartsBody]
  have hall := blockLength?_append text hnothing
  rw [List.append_nil, h] at hall
  simpa [Option.filter] using hall

theorem commentLength?_le {text : List Char} {n : Nat} (h : commentLength? text = some n) :
    n ≤ text.length := by
  unfold commentLength? at h
  split at h
  · cases h
    exact Nat.add_le_add_right (lineLength_le _) 2
  · obtain ⟨m, hm, rfl⟩ := Option.map_eq_some_iff.mp h
    exact Nat.add_le_add_right (blockLength?_le hm) 2
  · cases h

end SourceBundle.Go
