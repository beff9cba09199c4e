import SourceBundle.Proofs.PatternLanguage

/-!
# Before and behind the body of a pattern

With a path, a pattern matches all that is below it, and its anchors can be said through each other.
Both are read off the languages of the parts, so they hold for every way in which a path may be cut.
-/

namespace SourceBundle

/-- The expression of the pattern matches the path. How large it is does not count here. -/
def PatternMatches (pattern path : List Char) : Prop :=
  ∃ regex, Regex.read? (translate pattern) = some regex ∧ regex.isMatch path = true

theorem patternMatches_iff {pattern path : List Char} :
    PatternMatches pattern path ↔ path ∈ (PathPattern.ofChars pattern).language := by
  rw [← PathPattern.isMatch_iff]
  constructor
  · intro ⟨regex, hread, hmatch⟩
    rw [read?_translate] at hread
    exact Option.some.inj hread ▸ hmatch
  · intro hmatch
    exact ⟨_, read?_translate pattern, hmatch⟩

/-! ## Behind the body -/

theorem append_mem_tailLanguage {directoryOnly : Bool} {w below : List Char}
    (hw : w ∈ tailLanguage directoryOnly) (hbelow : '\n' ∉ below) :
    w ++ '/' :: below ∈ tailLanguage directoryOnly := by
  cases directoryOnly with
  | true =>
    have hline : '\n' ∉ w := hw
    have hlonger : '\n' ∉ w ++ '/' :: below := by simp [hline, hbelow]
    exact hlonger
  | false =>
    rcases hw with rfl | ⟨x, hx, rfl⟩
    · exact Or.inr ⟨below, hbelow, rfl⟩
    · exact Or.inr ⟨x ++ '/' :: below, by simp [hx, hbelow], rfl⟩

/-- With a path, a pattern matches every path below it that goes on without a line feed. -/
theorem patternMatches_below {pattern path below : List Char} (h : PatternMatches pattern path)
    (hbelow : '\n' ∉ below) : PatternMatches pattern (path ++ '/' :: below) := by
  rw [patternMatches_iff, PathPattern.language, Language.mem_mul] at h ⊢
  obtain ⟨front, hfront, rest, hrest, rfl⟩ := h
  have hlonger := append_mem_tailLanguage hrest hbelow
  exact ⟨front, hfront, _, hlonger, by simp⟩

theorem patternMatches_below_stars :
    PatternMatches ['a', '/', '*', '*'] ['a', '/', 'b'] ∧ '\n' ∉ ['/', 'c'] ∧
      PatternMatches ['a', '/', '*', '*'] ['a', '/', 'b', '/', '/', 'c'] := by
  have hmatch : PatternMatches ['a', '/', '*', '*'] ['a', '/', 'b'] :=
    ⟨_, read?_translate _, by cbv⟩
  exact ⟨hmatch, by decide, patternMatches_below hmatch (by decide)⟩

/-! ## Before the body -/

def bodyLanguage (pattern : List Char) : Language Char :=
  ((PatternToken.scan pattern).map PatternToken.language).prod *
    tailLanguage (pattern.getLast? == some '/')

theorem PatternToken.scan_stars (cs : List Char) :
    scan ('*' :: '*' :: '/' :: cs) = .leading :: scan cs :=
  scanFrom_of_begins .leading

theorem bodyLanguage_stars {pattern : List Char} (hne : pattern ≠ []) :
    bodyLanguage ('*' :: '*' :: '/' :: pattern) = directoriesAbove * bodyLanguage pattern := by
  have hlast : ('*' :: '*' :: '/' :: pattern).getLast? = pattern.getLast? :=
    List.getLast?_append_of_ne_nil ['*', '*', '/'] hne
  rw [bodyLanguage, hlast, PatternToken.scan_stars, List.map_cons, List.prod_cons, mul_assoc]
  rfl

namespace PathPattern

variable {anchor : Anchor} {pattern body : List Char}

theorem language_of_begins (h : anchor.Begins pattern body) :
    (ofChars pattern).language = anchor.language *
      ((PatternToken.scan body).map PatternToken.language).prod *
        tailLanguage (pattern.getLast? == some '/') := by
  simp [ofChars, h.split_eq, language]

theorem language_of_front (front : List Char) (hne : pattern ≠ [])
    (h : anchor.Begins (front ++ pattern) pattern) :
    (ofChars (front ++ pattern)).language = anchor.language * bodyLanguage pattern := by
  rw [language_of_begins h, List.getLast?_append_of_ne_nil front hne, mul_assoc]
  rfl

theorem language_of_no_slash (hslash : pattern.head? ≠ some '/') :
    (ofChars pattern).language = bodyLanguage pattern := by
  obtain ⟨anchor, body, h⟩ := Anchor.exists_begins pattern
  rw [language_of_begins h, bodyLanguage]
  cases h with
  | root => exact absurd rfl hslash
  | anyDepth =>
    rw [PatternToken.scan_stars, List.map_cons, List.prod_cons]
    rfl
  | bare => rw [Anchor.language_bare, one_mul]

end PathPattern

section Anchors

variable {l : Language Char} {w : List Char}

theorem mem_root_mul : w ∈ Anchor.root.language * l ↔ w ∈ l ∨ ∃ v ∈ l, '/' :: v = w := by
  rw [Language.mem_mul]
  constructor
  · intro ⟨u, hu, v, hv, he⟩
    rcases hu with rfl | rfl
    · exact Or.inl (he ▸ hv)
    · exact Or.inr ⟨v, hv, he⟩
  · intro h
    rcases h with hw | ⟨v, hv, he⟩
    · exact ⟨[], Or.inl rfl, w, hw, rfl⟩
    · exact ⟨['/'], Or.inr rfl, v, hv, he⟩

theorem mem_directoriesAbove_mul_iff :
    w ∈ directoriesAbove * l ↔ w ∈ l ∨ ∃ u v, w = u ++ '/' :: v ∧ '\n' ∉ u ∧ v ∈ l := by
  rw [Language.mem_mul]
  constructor
  · intro ⟨start, hstart, v, hv, he⟩
    rcases hstart with rfl | ⟨u, hu, rfl⟩
    · exact Or.inl (he ▸ hv)
    · exact Or.inr ⟨u, v, by simp [← he], hu, hv⟩
  · intro h
    rcases h with hw | ⟨u, v, he, hu, hv⟩
    · exact ⟨[], Or.inl rfl, w, hw, rfl⟩
    · exact ⟨u ++ ['/'], Or.inr ⟨u, hu, rfl⟩, v, hv, by simp [he]⟩

theorem root_mul_directoriesAbove : Anchor.root.language * directoriesAbove = directoriesAbove := by
  ext w
  rw [mem_root_mul]
  constructor
  · intro h
    rcases h with hw | ⟨v, rfl | ⟨x, hx, rfl⟩, rfl⟩
    · exact hw
    · exact Or.inr ⟨[], by simp, rfl⟩
    · exact Or.inr ⟨'/' :: x, by simp [hx], rfl⟩
  · intro hw
    exact Or.inl hw

end Anchors

/-- How the anchors of a pattern are related. A slash before it changes nothing about paths that do
not begin with one. Stars and a slash let it match behind any slash of the path as well, and with
them a slash before it changes nothing at all. -/
theorem anchors_related {pattern : List Char} (hne : pattern ≠ [])
    (hslash : pattern.head? ≠ some '/') (path : List Char) :
    (path.head? ≠ some '/' →
      (PatternMatches ('/' :: pattern) path ↔ PatternMatches pattern path)) ∧
    (PatternMatches ('*' :: '*' :: '/' :: pattern) path ↔
      PatternMatches pattern path ∨
        ∃ u v, path = u ++ '/' :: v ∧ '\n' ∉ u ∧ PatternMatches pattern v) ∧
    (PatternMatches ('/' :: '*' :: '*' :: '/' :: pattern) path ↔
      PatternMatches ('*' :: '*' :: '/' :: pattern) path) := by
  have hroot : (PathPattern.ofChars ('/' :: pattern)).language =
      Anchor.root.language * bodyLanguage pattern :=
    PathPattern.language_of_front ['/'] hne .root
  have hstars : (PathPattern.ofChars ('*' :: '*' :: '/' :: pattern)).language =
      directoriesAbove * bodyLanguage pattern :=
    PathPattern.language_of_front ['*', '*', '/'] hne .anyDepth
  have hboth : (PathPattern.ofChars ('/' :: '*' :: '*' :: '/' :: pattern)).language =
      directoriesAbove * bodyLanguage pattern := calc
    _ = Anchor.root.language * bodyLanguage ('*' :: '*' :: '/' :: pattern) :=
      PathPattern.language_of_front ['/'] (List.cons_ne_nil _ _) .root
    _ = Anchor.root.language * directoriesAbove * bodyLanguage pattern := by
      rw [bodyLanguage_stars hne, mul_assoc]
    _ = directoriesAbove * bodyLanguage pattern := by rw [root_mul_directoriesAbove]
  simp only [patternMatches_iff]
  rw [hroot, hstars, hboth, PathPattern.language_of_no_slash hslash]
  refine ⟨?_, mem_directoriesAbove_mul_iff, Iff.rfl⟩
  intro hpath
  rw [mem_root_mul]
  constructor
  · intro h
    rcases h with hbody | ⟨v, _, rfl⟩
    · exact hbody
    · exact absurd rfl hpath
  · intro hbody
    exact Or.inl hbody

theorem anchors_related_stars :
    ['*', '*', '/', 'a'] ≠ [] ∧ ['*', '*', '/', 'a'].head? ≠ some '/' ∧
      ['b', '/', 'a'].head? ≠ some '/' ∧
      PatternMatches ['/', '*', '*', '/', 'a'] ['b', '/', 'a'] ∧
      PatternMatches ['*', '*', '/', '*', '*', '/', 'a'] ['x', '/', 'b', '/', 'a'] ∧
      PatternMatches ['/', '*', '*', '/', '*', '*', '/', 'a'] ['x', '/', 'b', '/', 'a'] := by
  have hne : ['*', '*', '/', 'a'] ≠ [] := by decide
  have hslash : ['*', '*', '/', 'a'].head? ≠ some '/' := by decide
  have hpath : ['b', '/', 'a'].head? ≠ some '/' := by decide
  have hmatch : PatternMatches ['*', '*', '/', 'a'] ['b', '/', 'a'] :=
    ⟨_, read?_translate _, by cbv⟩
  have hroot := ((anchors_related hne hslash ['b', '/', 'a']).1 hpath).mpr hmatch
  have hdeeper := anchors_related hne hslash ['x', '/', 'b', '/', 'a']
  have hstars := hdeeper.2.1.mpr (Or.inr ⟨['x'], ['b', '/', 'a'], rfl, by decide, hmatch⟩)
  exact ⟨hne, hslash, hpath, hroot, hstars, hdeeper.2.2.mpr hstars⟩

end SourceBundle
