import SourceBundle.Proofs.PathGlob
import SourceBundle.Proofs.PatternLanguage

/-!
# Matching name by name

The expression of a pattern knows only texts, and parts of it run over slashes. For a pattern made of
components it still matches as one expects of the components: two stars take any number of names
of the path, every other component takes one.
-/

namespace SourceBundle

def GlobItem.matchName : List GlobItem → List Char → Bool
  | [], name => name.isEmpty
  | .star :: items, name => name.tails.any fun rest => matchName items rest
  | .question :: items, _ :: name => matchName items name
  | .plain d _ :: items, c :: name => d == c && matchName items name
  | .escaped d _ :: items, c :: name => d == c && matchName items name
  | _ :: _, [] => false

/-- Whether the components take up all of the names. -/
def GlobComponent.takeUp : List GlobComponent → List (List Char) → Bool
  | [], names => names.isEmpty
  | .anyDepth :: components, names => names.tails.any fun rest => takeUp components rest
  | .one glob :: components, name :: names =>
    GlobItem.matchName glob.items name && takeUp components names
  | .one _ :: _, [] => false

/-- The components take up the first names, as many as they need. -/
def GlobComponent.TakesFront (components : List GlobComponent) (names : List (List Char)) : Prop :=
  ∃ front, front <+: names ∧ takeUp components front = true

def IsName (name : List Char) : Prop :=
  name ≠ [] ∧ '/' ∉ name ∧ '\n' ∉ name

/-- A path that is written as names with slashes between them. -/
structure NamePath where
  names : List (List Char)
  nonempty : names ≠ []
  valid : ∀ name ∈ names, IsName name

def NamePath.text (path : NamePath) : List Char :=
  joinWith ['/'] path.names

/-! ## One name -/

namespace PatternToken

variable {l : Language Char} {w : List Char}

theorem mem_literal_mul {c : Char} :
    w ∈ (PatternToken.literal c).language * l ↔ ∃ t ∈ l, c :: t = w := by
  simp [Language.mem_mul, language]

theorem mem_question_mul (h : '/' ∉ w) :
    w ∈ PatternToken.question.language * l ↔ ∃ c, ∃ t ∈ l, c :: t = w := by
  constructor
  · intro hw
    obtain ⟨s, ⟨c, _, hs⟩, t, ht, he⟩ := Language.mem_mul.mp hw
    exact ⟨c, t, ht, by simpa [hs] using he⟩
  · intro ⟨c, t, ht, he⟩
    have hc : c ≠ '/' := fun hc => h (by simp [← he, hc])
    exact Language.mem_mul.mpr ⟨[c], ⟨c, hc, rfl⟩, t, ht, he⟩

theorem mem_star_mul (h : '/' ∉ w) :
    w ∈ PatternToken.star.language * l ↔ ∃ t, t <:+ w ∧ t ∈ l := by
  constructor
  · intro hw
    obtain ⟨s, _, t, ht, he⟩ := Language.mem_mul.mp hw
    exact ⟨t, ⟨s, he⟩, ht⟩
  · intro ⟨t, ⟨s, he⟩, ht⟩
    have hs : '/' ∉ s := fun hs => h (he ▸ List.mem_append_left t hs)
    exact Language.mem_mul.mpr ⟨s, hs, t, ht, he⟩

end PatternToken

namespace GlobItem

def languageOf (items : List GlobItem) : Language Char :=
  ((items.map token).map PatternToken.language).prod

theorem languageOf_cons (item : GlobItem) (items : List GlobItem) :
    languageOf (item :: items) = item.token.language * languageOf items := by
  simp [languageOf]

theorem slash_not_mem_language {item : GlobItem} {w : List Char} (h : w ∈ item.token.language) :
    '/' ∉ w := by
  cases item with
  | plain c hc =>
    have hw : w = [c] := h
    have hne : '/' ≠ c := fun he => hc (he ▸ by simp)
    simpa [hw] using hne
  | escaped c hc =>
    have hw : w = [c] := h
    simpa [hw] using hc.symm
  | star => exact h
  | question =>
    obtain ⟨c, hc, hw⟩ := h
    simpa [hw] using hc.symm

theorem slash_not_mem_languageOf {items : List GlobItem} {w : List Char}
    (h : w ∈ languageOf items) : '/' ∉ w := by
  induction items generalizing w with
  | nil =>
    have hw : w = [] := h
    simp [hw]
  | cons item items ih =>
    rw [languageOf_cons, Language.mem_mul] at h
    obtain ⟨s, hs, t, ht, he⟩ := h
    rw [← he, List.mem_append, not_or]
    exact ⟨slash_not_mem_language hs, ih ht⟩

/-- On a name the items match the texts that they stand for. -/
theorem mem_languageOf {items : List GlobItem} {name : List Char} (h : '/' ∉ name) :
    name ∈ languageOf items ↔ matchName items name = true := by
  induction items generalizing name with
  | nil => simp [matchName, languageOf]
  | cons item items ih =>
    have hsuffix : ∀ {rest}, rest <:+ name →
        (rest ∈ languageOf items ↔ matchName items rest = true) :=
      fun hrest => ih fun hmem => h (hrest.subset hmem)
    rw [languageOf_cons]
    cases item with
    | plain d | escaped d =>
      rw [token, PatternToken.mem_literal_mul]
      cases name with
      | nil => simp [matchName]
      | cons c name => simp [matchName, ← hsuffix (List.suffix_cons c name), and_comm]
    | star =>
      rw [token, PatternToken.mem_star_mul h]
      simp only [matchName, List.any_eq_true, List.mem_tails]
      exact exists_congr fun rest => and_congr_right hsuffix
    | question =>
      rw [token, PatternToken.mem_question_mul h]
      cases name with
      | nil => simp [matchName]
      | cons c name => simp [matchName, ← hsuffix (List.suffix_cons c name)]

end GlobItem

/-! ## Names of a path -/

theorem newline_not_mem_slashed {names : List (List Char)} (h : ∀ name ∈ names, IsName name) :
    '\n' ∉ slashed names := by
  intro hmem
  obtain ⟨name, hname, hn⟩ := List.mem_flatMap.mp hmem
  exact (h name hname).2.2 (by simpa using hn)

theorem slashed_mem_pathsBelow {names : List (List Char)} (h : ∀ name ∈ names, IsName name) :
    slashed names ∈ pathsBelow := by
  have hline := newline_not_mem_slashed h
  cases names with
  | nil => exact Or.inl rfl
  | cons name names =>
    rw [slashed_cons] at hline ⊢
    exact Or.inr ⟨_, fun hmem => hline (List.mem_cons_of_mem _ hmem), rfl⟩

section Cuts

variable {names : List (List Char)} {l : Language Char}

theorem slashed_mem_one {items : List GlobItem} (h : ∀ name ∈ names, IsName name)
    (hl : ∀ w ∈ l, AtBoundary w) :
    slashed names ∈ (PatternToken.literal '/').language * (GlobItem.languageOf items * l) ↔
      ∃ name rest, names = name :: rest ∧ GlobItem.matchName items name = true ∧
        slashed rest ∈ l := by
  rw [PatternToken.mem_literal_mul]
  constructor
  · intro hmem
    obtain ⟨t, ht, he⟩ := hmem
    obtain ⟨u, hu, v, hv, huv⟩ := Language.mem_mul.mp ht
    cases names with
    | nil => simp [slashed] at he
    | cons name rest =>
      have hname := (h name (by simp)).2.1
      rw [slashed_cons, ← huv] at he
      obtain ⟨rfl, rfl⟩ := eq_of_boundary (GlobItem.slash_not_mem_languageOf hu) hname (hl v hv)
        (atBoundary_slashed rest) (List.cons.inj he).2
      exact ⟨_, rest, rfl, (GlobItem.mem_languageOf hname).mp hu, hv⟩
  · intro hnames
    obtain ⟨name, rest, he, hmatch, hrest⟩ := hnames
    subst he
    have hname := (h name (by simp)).2.1
    refine ⟨name ++ slashed rest, ?_, rfl⟩
    exact Language.mem_mul.mpr ⟨name, (GlobItem.mem_languageOf hname).mpr hmatch, _, hrest, rfl⟩

theorem slashed_cut_iff (h : ∀ name ∈ names, IsName name) :
    (∃ a, ∃ d ∈ l, a ++ '/' :: d = slashed names) ↔
      ∃ rest, rest <:+ names ∧ slashed rest ∈ (PatternToken.literal '/').language * l := by
  simp only [PatternToken.mem_literal_mul]
  constructor
  · intro ⟨a, d, hd, he⟩
    obtain ⟨front, rest, hsplit, _, hrest⟩ :=
      exists_of_slashed_eq (fun name hname => (h name hname).2.1) he.symm
    exact ⟨rest, ⟨front, hsplit.symm⟩, d, hd, hrest.symm⟩
  · intro ⟨rest, ⟨front, hsplit⟩, d, hd, he⟩
    exact ⟨slashed front, d, hd, by rw [he, ← slashed_append, hsplit]⟩

theorem mem_directoriesAbove_mul {text : List Char} (h : ∀ name ∈ names, IsName name)
    (htext : '/' :: text = slashed names) :
    text ∈ directoriesAbove * l ↔
      ∃ rest, rest <:+ names ∧ slashed rest ∈ (PatternToken.literal '/').language * l := by
  rw [← slashed_cut_iff h, Language.mem_mul, ← htext]
  constructor
  · intro ⟨u, hu, d, hd, he⟩
    rcases hu with hu | ⟨x, _, hu⟩
    · exact ⟨[], d, hd, by simpa [hu] using he⟩
    · exact ⟨'/' :: x, d, hd, by simpa [← hu] using he⟩
  · intro ⟨a, d, hd, he⟩
    have hline := newline_not_mem_slashed h
    rw [← htext] at hline
    cases a with
    | nil => exact ⟨[], Or.inl rfl, d, hd, (List.cons.inj he).2⟩
    | cons c x =>
      have hx : x ++ '/' :: d = text := (List.cons.inj he).2
      refine ⟨x ++ ['/'], Or.inr ⟨x, ?_, rfl⟩, d, hd, by simpa using hx⟩
      exact fun hmem => hline (by simp [← hx, hmem])

theorem slash_mem_between_mul {text : List Char} (h : ¬['/'] <+: text) :
    '/' :: text ∈ PatternToken.between.language * l ↔ text ∈ directoriesAbove * l := by
  rw [Language.mem_mul, Language.mem_mul]
  constructor
  · intro ⟨u, hu, d, hd, he⟩
    rcases hu with hu | ⟨x, ⟨hx, _⟩, hu⟩
    · exact ⟨[], Or.inl rfl, d, hd, by simpa [hu] using he⟩
    · exact ⟨x ++ ['/'], Or.inr ⟨x, hx, rfl⟩, d, hd, by simpa [← hu] using he⟩
  · intro ⟨u, hu, d, hd, he⟩
    rcases hu with hu | ⟨x, hx, hu⟩
    · exact ⟨['/'], Or.inl rfl, d, hd, by simpa [hu] using he⟩
    · have hne : x ≠ [] := fun hnil => h ⟨d, by simpa [hnil, ← hu] using he⟩
      exact ⟨'/' :: (x ++ ['/']), Or.inr ⟨x, ⟨hx, hne⟩, rfl⟩, d, hd, by simp [← he, ← hu]⟩

/-- Two stars between slashes skip any number of names. -/
theorem slashed_mem_between (h : ∀ name ∈ names, IsName name) :
    slashed names ∈ PatternToken.between.language * l ↔
      ∃ rest, rest <:+ names ∧ slashed rest ∈ (PatternToken.literal '/').language * l := by
  cases names with
  | nil => simp [slashed, Language.mem_mul, PatternToken.language]
  | cons name names =>
    obtain ⟨hne, hslash, _⟩ := h name (by simp)
    obtain ⟨c, cs, hc⟩ := List.exists_cons_of_ne_nil hne
    have hbegins : ¬['/'] <+: name ++ slashed names := by
      intro hb
      have hc' : '/' = c := by simpa [hc] using hb
      exact hslash (by simp [hc, ← hc'])
    rw [slashed_cons, slash_mem_between_mul hbegins]
    exact mem_directoriesAbove_mul h rfl

end Cuts

/-! ## Components behind the first one -/

namespace GlobComponent

def belowLanguage (components : List GlobComponent) : Language Char :=
  ((PatternToken.scan (below components)).map PatternToken.language).prod * pathsBelow

variable {glob : ComponentGlob} {components : List GlobComponent} {names : List (List Char)}

theorem belowLanguage_nil : belowLanguage [] = pathsBelow :=
  one_mul pathsBelow

theorem belowLanguage_one :
    belowLanguage (.one glob :: components) = (PatternToken.literal '/').language *
      (GlobItem.languageOf glob.items * belowLanguage components) := by
  simp [belowLanguage, scan_below_one, ComponentGlob.tokens, GlobItem.languageOf, mul_assoc]

theorem belowLanguage_between :
    belowLanguage (.anyDepth :: .one glob :: components) = PatternToken.between.language *
      (GlobItem.languageOf glob.items * belowLanguage components) := by
  simp [belowLanguage, scan_below_between, ComponentGlob.tokens, GlobItem.languageOf, mul_assoc]

theorem belowLanguage_anyDepth : belowLanguage [.anyDepth] = pathsBelow * pathsBelow := by
  simp [belowLanguage, scan_below_anyDepth, PatternToken.language]

theorem atBoundary_pathsBelow {w : List Char} (h : w ∈ pathsBelow) : AtBoundary w := by
  rcases h with h | ⟨x, _, h⟩
  · simp [h, AtBoundary]
  · simp [← h, AtBoundary]

theorem atBoundary_append {v w : List Char} (hv : AtBoundary v) (hw : AtBoundary w) :
    AtBoundary (v ++ w) := by
  cases v with
  | nil => exact hw
  | cons => exact hv

theorem atBoundary_belowLanguage (hsep : Separate components) {w : List Char}
    (h : w ∈ belowLanguage components) : AtBoundary w := by
  cases hsep with
  | nil => exact atBoundary_pathsBelow (belowLanguage_nil ▸ h)
  | one =>
    rw [belowLanguage_one, PatternToken.mem_literal_mul] at h
    obtain ⟨t, _, he⟩ := h
    simp [← he, AtBoundary]
  | last =>
    rw [belowLanguage_anyDepth, Language.mem_mul] at h
    obtain ⟨u, hu, v, hv, he⟩ := h
    exact he ▸ atBoundary_append (atBoundary_pathsBelow hu) (atBoundary_pathsBelow hv)
  | between =>
    rw [belowLanguage_between, Language.mem_mul] at h
    obtain ⟨u, hu, v, _, he⟩ := h
    rcases hu with hu | ⟨x, _, hu⟩
    · simp [← he, hu, AtBoundary]
    · simp [← he, ← hu, AtBoundary]

theorem takesFront_nil : TakesFront [] names :=
  ⟨[], List.nil_prefix, rfl⟩

theorem takesFront_one :
    TakesFront (.one glob :: components) names ↔
      ∃ name rest, names = name :: rest ∧ GlobItem.matchName glob.items name = true ∧
        TakesFront components rest := by
  constructor
  · intro ⟨front, ⟨back, hsplit⟩, htake⟩
    cases front with
    | nil => simp [takeUp] at htake
    | cons name front =>
      rw [takeUp, Bool.and_eq_true] at htake
      exact ⟨name, front ++ back, hsplit.symm, htake.1, front, List.prefix_append _ _, htake.2⟩
  · intro ⟨name, rest, he, hmatch, front, hfront, htake⟩
    subst he
    exact ⟨name :: front, List.cons_prefix_cons.mpr ⟨rfl, hfront⟩, by simp [takeUp, hmatch, htake]⟩

theorem takesFront_anyDepth :
    TakesFront (.anyDepth :: components) names ↔
      ∃ rest, rest <:+ names ∧ TakesFront components rest := by
  constructor
  · intro ⟨front, ⟨back, hsplit⟩, htake⟩
    simp only [takeUp, List.any_eq_true, List.mem_tails] at htake
    obtain ⟨rest, ⟨skipped, hskip⟩, htake⟩ := htake
    refine ⟨rest ++ back, ⟨skipped, ?_⟩, rest, List.prefix_append _ _, htake⟩
    rw [← List.append_assoc, hskip, hsplit]
  · intro ⟨rest, ⟨skipped, hskip⟩, front, ⟨back, hsplit⟩, htake⟩
    refine ⟨skipped ++ front, ⟨back, by simp [hsplit, hskip]⟩, ?_⟩
    simp only [takeUp, List.any_eq_true, List.mem_tails]
    exact ⟨front, List.suffix_append _ _, htake⟩

theorem slashed_mem_belowLanguage (hsep : Separate components)
    (h : ∀ name ∈ names, IsName name) :
    slashed names ∈ belowLanguage components ↔ TakesFront components names := by
  induction hsep generalizing names with
  | nil => exact iff_of_true (belowLanguage_nil ▸ slashed_mem_pathsBelow h) takesFront_nil
  | one hsep ih =>
    rw [belowLanguage_one, takesFront_one,
      slashed_mem_one h fun w hw => atBoundary_belowLanguage hsep hw]
    refine exists_congr fun name => exists_congr fun rest => and_congr_right fun he => ?_
    exact and_congr_right fun _ => ih fun n hn => h n (he ▸ List.mem_cons_of_mem _ hn)
  | last =>
    have hall : TakesFront [.anyDepth] names :=
      takesFront_anyDepth.mpr ⟨names, List.suffix_rfl, takesFront_nil⟩
    refine iff_of_true ?_ hall
    rw [belowLanguage_anyDepth]
    exact Language.mem_mul.mpr ⟨[], Or.inl rfl, _, slashed_mem_pathsBelow h, rfl⟩
  | between _ ih =>
    rw [belowLanguage_between, slashed_mem_between h, ← belowLanguage_one, takesFront_anyDepth]
    refine exists_congr fun rest => and_congr_right fun hrest => ?_
    exact ih fun n hn => h n (hrest.subset hn)

end GlobComponent

/-! ## Whole patterns -/

theorem NamePath.slash_text (path : NamePath) : '/' :: path.text = slashed path.names :=
  slash_joinWith path.nonempty

namespace PathGlob

variable {glob : PathGlob} {first : ComponentGlob} {components : List GlobComponent}

theorem language_of_one (h : glob.components = .one first :: components) :
    (PathPattern.ofChars glob.text).language =
      GlobItem.languageOf first.items * GlobComponent.belowLanguage components := by
  simp [ofChars_of_one h, PathPattern.language, Anchor.language_bare, tailLanguage,
    GlobComponent.belowLanguage, ComponentGlob.tokens, GlobItem.languageOf, mul_assoc]

theorem language_of_anyDepth_one (h : glob.components = .anyDepth :: .one first :: components) :
    (PathPattern.ofChars glob.text).language = directoriesAbove *
      (GlobItem.languageOf first.items * GlobComponent.belowLanguage components) := by
  simp [ofChars_of_anyDepth_one h, PathPattern.language, Anchor.language, tailLanguage,
    GlobComponent.belowLanguage, ComponentGlob.tokens, GlobItem.languageOf, mul_assoc]

theorem mem_language_of_anyDepth (h : glob.components = [.anyDepth]) (path : NamePath) :
    path.text ∈ (PathPattern.ofChars glob.text).language := by
  have hlanguage : (PathPattern.ofChars glob.text).language =
      PatternToken.star.language * (PatternToken.star.language * pathsBelow) := by
    simp [ofChars_of_anyDepth h, PathPattern.language, Anchor.language_bare, tailLanguage,
      mul_assoc]
  obtain ⟨name, rest, hnames⟩ := List.exists_cons_of_ne_nil path.nonempty
  have hvalid := path.valid
  have htext := path.slash_text
  rw [hnames] at hvalid htext
  obtain ⟨hname, hrest⟩ := List.forall_mem_cons.mp hvalid
  have hbelow : slashed rest ∈ PatternToken.star.language * pathsBelow :=
    Language.mem_mul.mpr ⟨[], by simp [PatternToken.language], _, slashed_mem_pathsBelow hrest, rfl⟩
  rw [hlanguage, (List.cons.inj htext).2]
  exact Language.mem_mul.mpr ⟨name, hname.2.1, slashed rest, hbelow, rfl⟩

/-- The expression of a pattern made of components matches a path just if the components take up the
first names of the path. -/
theorem isMatch_iff_takesFront (glob : PathGlob) (path : NamePath) :
    ∃ regex, Regex.read? (translate glob.text) = some regex ∧
      (regex.isMatch path.text = true ↔
        GlobComponent.TakesFront glob.components path.names) := by
  refine ⟨_, read?_translate glob.text, ?_⟩
  rw [PathPattern.isMatch_iff]
  have hsep := GlobComponent.separate_of_not_infix glob.separate
  generalize hc : glob.components = components at hsep ⊢
  cases hsep with
  | nil => exact absurd hc glob.nonempty
  | one h =>
    rw [language_of_one hc, ← GlobComponent.slashed_mem_belowLanguage (.one h) path.valid,
      GlobComponent.belowLanguage_one, ← path.slash_text, PatternToken.mem_literal_mul]
    simp
  | last =>
    refine iff_of_true (mem_language_of_anyDepth hc path) ?_
    exact GlobComponent.takesFront_anyDepth.mpr
      ⟨path.names, List.suffix_rfl, GlobComponent.takesFront_nil⟩
  | between h =>
    rw [GlobComponent.takesFront_anyDepth, language_of_anyDepth_one hc,
      mem_directoriesAbove_mul path.valid path.slash_text, ← GlobComponent.belowLanguage_one]
    refine exists_congr fun rest => and_congr_right fun hrest => ?_
    exact GlobComponent.slashed_mem_belowLanguage h fun n hn => path.valid n (hrest.subset hn)

example :
    let a : ComponentGlob := ⟨[.plain 'a' (by decide)], by decide, by decide, by decide⟩
    let starB : ComponentGlob :=
      ⟨[.star, .plain 'b' (by decide)], by decide, by decide, by decide⟩
    GlobComponent.takeUp [.one a, .anyDepth, .one starB]
      [['a'], ['x', 'b'], ['y'], ['a', 'b']] = true := by decide

end PathGlob

end SourceBundle
