import SourceBundle.Proofs.LiteralPatterns
import SourceBundle.Proofs.PathGlob

/-!
# Paths written out as patterns

With a backslash before each of its characters a path is a pattern of its own: nothing in it is
trimmed, no character of it means anything but itself, and the pattern matches the path and what is
below it.
-/

namespace SourceBundle

def escaped (text : List Char) : List Char :=
  text.flatMap fun c => ['\\', c]

def escapedLine (text : String) : String :=
  String.ofList (escaped text.toList)

theorem toList_escapedLine (text : String) : (escapedLine text).toList = escaped text.toList := by
  simp [escapedLine]

variable {cs : List Char}

theorem escaped_cons (c : Char) (cs : List Char) : escaped (c :: cs) = '\\' :: c :: escaped cs := rfl

theorem escaped_concat (front : List Char) (c : Char) :
    escaped (front ++ [c]) = escaped front ++ ['\\'] ++ [c] := by
  simp [escaped]

theorem head?_escaped {c : Char} (h : (escaped cs).head? = some c) : c = '\\' := by
  cases cs with
  | nil => simp [escaped] at h
  | cons d cs =>
    rw [escaped_cons, List.head?_cons] at h
    exact (Option.some.inj h).symm

theorem getLast?_escaped (cs : List Char) : (escaped cs).getLast? = cs.getLast? := by
  rcases List.eq_nil_or_concat' cs with rfl | ⟨front, c, rfl⟩
  · rfl
  · rw [escaped_concat, List.getLast?_concat, List.getLast?_concat]

theorem trimBlank_escaped (h : ∀ c ∈ cs.getLast?, isBlank c = false) :
    trimBlank (escaped cs) = escaped cs := by
  have hdrop : (escaped cs).dropWhile isBlank = escaped cs := by
    cases cs with
    | nil => rfl
    | cons c cs => exact List.dropWhile_cons_of_neg (by decide)
  rw [trimBlank, hdrop]
  rcases List.eq_nil_or_concat' cs with rfl | ⟨front, c, rfl⟩
  · rfl
  · rw [escaped_concat]
    exact trimEndBlank_append_singleton (h c (by simp))

/-! ## What is read -/

namespace PatternToken

theorem scan_escaped (cs : List Char) : scan (escaped cs) = cs.map .literal := by
  induction cs with
  | nil => rfl
  | cons c cs ih =>
    have hbegins : (literal c).Begins (escaped (c :: cs)) (escaped cs) := .escaped
    rw [scan, scanFrom_of_begins hbegins, List.map_cons]
    exact congrArg _ ih

end PatternToken

theorem Anchor.begins_escaped (cs : List Char) : Anchor.Begins .bare (escaped cs) (escaped cs) := by
  refine .bare (fun hslash => ?_) (fun hstars => ?_)
  · obtain ⟨rest, he⟩ := hslash
    exact absurd (head?_escaped (congrArg List.head? he.symm)) (by decide)
  · obtain ⟨rest, he⟩ := hstars
    exact absurd (head?_escaped (congrArg List.head? he.symm)) (by decide)

theorem PathPattern.ofChars_escaped (h : cs.getLast? ≠ some '/') :
    ofChars (escaped cs) = ⟨.bare, cs.map .literal, false⟩ := by
  have hlast : (escaped cs).getLast? ≠ some '/' := by rwa [getLast?_escaped]
  rw [ofChars_of_begins (Anchor.begins_escaped cs) hlast, PatternToken.scan_escaped]

theorem PathPattern.mem_language_literals_iff {w : List Char} :
    w ∈ language ⟨.bare, cs.map .literal, false⟩ ↔
      w = cs ∨ ∃ below, '\n' ∉ below ∧ w = cs ++ '/' :: below := by
  rw [language, Anchor.language_bare, one_mul, Language.mem_mul]
  constructor
  · intro h
    obtain ⟨front, hfront, rest, hrest, he⟩ := h
    obtain rfl := PatternToken.mem_language_literals.mp hfront
    rcases hrest with rfl | ⟨below, hbelow, rfl⟩
    · exact Or.inl (by simp [← he])
    · exact Or.inr ⟨below, hbelow, he.symm⟩
  · intro h
    have hfront := PatternToken.mem_language_literals.mpr (rfl : cs = cs)
    rcases h with rfl | ⟨below, hbelow, rfl⟩
    · exact ⟨w, hfront, [], Or.inl rfl, by simp⟩
    · exact ⟨cs, hfront, _, Or.inr ⟨below, hbelow, rfl⟩, rfl⟩

namespace Rule

variable {text : String}

theorem splitNegation_escaped (cs : List Char) : splitNegation (escaped cs) = (false, escaped cs) := by
  cases cs with
  | nil => rfl
  | cons c cs => rfl

theorem compile?_escapedLine (hne : text ≠ "") (h : ∀ c ∈ text.toList.getLast?, isBlank c = false)
    (n : Nat) :
    compile? (escapedLine text) n = (Regex.compile? (translate (escaped text.toList))).map
      fun regex => ⟨regex, false, n, escapedLine text⟩ := by
  obtain ⟨c, cs, hcs⟩ := List.exists_cons_of_ne_nil (mt String.toList_eq_nil_iff.mp hne)
  rw [compile?, toList_escapedLine, trimBlank_escaped h, splitNegation_escaped]
  rw [escapedLine, hcs, escaped_cons]
  rfl

theorem isMatch_escapedLine {n : Nat} {rule : Rule} (h : compile? (escapedLine text) n = some rule)
    (hlast : ∀ c ∈ text.toList.getLast?, c ≠ '/' ∧ isBlank c = false) (path : String) :
    rule.isMatch path = true ↔
      path = text ∨ ∃ below : String, '\n' ∉ below.toList ∧ path = text ++ "/" ++ below := by
  have htrim := trimBlank_escaped fun c hc => (hlast c hc).2
  have hslash : text.toList.getLast? ≠ some '/' := fun hs => (hlast '/' hs).1 rfl
  rw [isMatch_of_compile? h, toList_escapedLine, htrim, splitNegation_escaped,
    PathPattern.ofChars_escaped hslash, PathPattern.mem_language_literals_iff, String.toList_inj]
  refine or_congr_right ⟨?_, ?_⟩
  · intro ⟨below, hbelow, he⟩
    refine ⟨String.ofList below, by simpa using hbelow, ?_⟩
    rw [← String.toList_inj, he]
    simp
  · intro ⟨below, hbelow, he⟩
    exact ⟨below.toList, hbelow, by simp [he]⟩

/-- A path that ends in no slash and no blank is named by itself, written with a backslash before each
character. The line is refused for nothing but the size of its expression; its rule includes, has the
number of the line, and matches the path and what is below it, whatever the path is made of. -/
theorem escapedLine_names_path (hne : text ≠ "")
    (hlast : ∀ c ∈ text.toList.getLast?, c ≠ '/' ∧ isBlank c = false) (n : Nat) :
    (∀ rule, compile? (escapedLine text) n = some rule →
      rule.negated = false ∧ rule.lineNo = n ∧ rule.text = escapedLine text ∧
      ∀ path, rule.isMatch path = true ↔
        path = text ∨ ∃ below : String, '\n' ∉ below.toList ∧ path = text ++ "/" ++ below) ∧
    ∃ regex, Regex.read? (translate (escaped text.toList)) = some regex ∧
      (compile? (escapedLine text) n = none ↔ Regex.sizeLimit < regex.weight) := by
  have hcompile := compile?_escapedLine hne (fun c hc => (hlast c hc).2) n
  have hread := read?_translate (escaped text.toList)
  constructor
  · intro rule hrule
    have hmatch := isMatch_escapedLine hrule hlast
    rw [hcompile] at hrule
    obtain ⟨regex, _, rfl⟩ := Option.map_eq_some_iff.mp hrule
    exact ⟨rfl, rfl, rfl, hmatch⟩
  · refine ⟨_, hread, ?_⟩
    rw [hcompile, Option.map_eq_none_iff, Regex.compile?, hread, Option.filter_eq_none_iff]
    simp

theorem escapedLine_names_marks :
    "!#/**/[?]" ≠ "" ∧ (∀ c ∈ "!#/**/[?]".toList.getLast?, c ≠ '/' ∧ isBlank c = false) ∧
      ∃ rule, compile? (escapedLine "!#/**/[?]") 7 = some rule ∧ rule.negated = false ∧
        rule.lineNo = 7 ∧ rule.isMatch "!#/**/[?]" = true ∧ rule.isMatch "!#/**/[?]/a" = true ∧
        rule.isMatch "!#/x/a" = false := by
  have hne : "!#/**/[?]" ≠ "" := by decide
  have hblank : isBlank ']' = false := by decide
  have hlast : ∀ c ∈ "!#/**/[?]".toList.getLast?, c ≠ '/' ∧ isBlank c = false := by simp [hblank]
  obtain ⟨hrule, regex, hread, hnone⟩ := escapedLine_names_path hne hlast 7
  rw [read?_translate] at hread
  obtain rfl := Option.some.inj hread
  have hsome : compile? (escapedLine "!#/**/[?]") 7 ≠ none := mt hnone.mp (by decide)
  obtain ⟨rule, hcompile⟩ := Option.ne_none_iff_exists'.mp hsome
  obtain ⟨hnegated, hline, _, hmatch⟩ := hrule rule hcompile
  have hother : ¬rule.isMatch "!#/x/a" = true := by
    intro h
    rcases (hmatch _).mp h with he | ⟨below, _, he⟩
    · exact absurd he (by decide)
    · have hthird := congrArg (fun path => path.toList[3]?) he
      simp at hthird
  refine ⟨hne, hlast, rule, hcompile, hnegated, hline, ?_, ?_, Bool.eq_false_iff.mpr hother⟩
  · exact (hmatch _).mpr (Or.inl rfl)
  · exact (hmatch _).mpr (Or.inr ⟨"a", by decide, by decide⟩)

end Rule

end SourceBundle
