import Mathlib
import SourceBundle.Proofs.IgnorePrecedence
import SourceBundle.Proofs.PatternLanguage

/-!
# Patterns that name one directory

A plain name with a slash behind it is a pattern without wildcards. As an exclusion it takes out the
paths below the directory of that name, whatever the rules before it say, as far as they stand on
one line: the tail of a pattern runs over every character but a line feed.
-/

namespace SourceBundle

/-! ## Trimming -/

theorem trimEndBlank_cons (c : Char) (cs : List Char) :
    trimEndBlank (c :: cs) =
      if (trimEndBlank cs).isEmpty && isBlank c then [] else c :: trimEndBlank cs := rfl

theorem trimEndBlank_append_singleton {cs : List Char} {c : Char} (hc : isBlank c = false) :
    trimEndBlank (cs ++ [c]) = cs ++ [c] := by
  induction cs with
  | nil => simp [trimEndBlank, hc]
  | cons d cs ih => simp [trimEndBlank_cons, ih]

theorem trimEndBlank_isPrefixOf (cs : List Char) : trimEndBlank cs <+: cs := by
  induction cs with
  | nil => exact List.prefix_rfl
  | cons c cs ih =>
    rw [trimEndBlank_cons]
    split
    · exact List.nil_prefix
    · exact List.prefix_cons_inj c |>.mpr ih

theorem not_blank_of_trimmed {c : Char} {cs : List Char} (h : trimBlank (c :: cs) = c :: cs) :
    isBlank c = false := by
  by_contra hc
  have hdrop : (c :: cs).dropWhile isBlank = cs.dropWhile isBlank :=
    List.dropWhile_cons_of_pos (by simpa using hc)
  have hlength : (trimBlank (c :: cs)).length ≤ cs.length := by
    rw [trimBlank, hdrop]
    exact (trimEndBlank_isPrefixOf _).length_le.trans (List.dropWhile_suffix isBlank).length_le
  rw [h, List.length_cons] at hlength
  omega

/-! ## The texts of a rule -/

namespace Rule

theorem isMatch_of_compile? {line : String} {n : Nat} {rule : Rule}
    (h : compile? line n = some rule) (path : String) :
    rule.isMatch path = true ↔
      path.toList ∈ (PathPattern.ofChars (splitNegation (trimBlank line.toList)).2).language := by
  obtain ⟨-, -, -, hregex⟩ := compile?_eq_some h
  rw [Regex.compile?, read?_translate, Option.filter_eq_some_iff] at hregex
  rw [isMatch, ← Option.some.inj hregex.1, PathPattern.isMatch_iff]

end Rule

/-! ## Plain names -/

/-- A name that a pattern means just as it is written. -/
structure PlainName (name : String) : Prop where
  nonempty : name ≠ ""
  plain : ∀ c ∈ name.toList, c ∉ ['/', '\\', '[', '*', '?']
  first : ∀ c ∈ name.toList.head?, c ∉ ['!', '#']
  trimmed : trimBlank name.toList = name.toList

/-- The pattern of a directory and everything below it. -/
def directoryLine (name : String) : String :=
  name ++ "/"

theorem toList_directoryLine (name : String) :
    (directoryLine name).toList = name.toList ++ ['/'] := by
  simp [directoryLine]

namespace PatternToken

theorem scan_plain {cs : List Char} (h : ∀ c ∈ cs, c ∉ ['/', '\\', '[', '*', '?']) :
    scan (cs ++ ['/']) = (cs ++ ['/']).map .literal := by
  induction cs with
  | nil => rfl
  | cons c cs ih =>
    obtain ⟨hc, hcs⟩ := List.forall_mem_cons.mp h
    have hbegins : (literal c).Begins (c :: (cs ++ ['/'])) (cs ++ ['/']) := by
      refine .plain (fun hmem => hc ?_) fun he => absurd (by simp [he]) hc
      revert hmem
      simp
      tauto
    rw [List.cons_append, scan, scanFrom_of_begins hbegins, List.map_cons]
    exact congrArg _ (ih hcs)

theorem mem_language_literals {cs w : List Char} :
    w ∈ ((cs.map literal).map language).prod ↔ w = cs := by
  induction cs generalizing w with
  | nil => simp
  | cons c cs ih =>
    rw [List.map_cons, List.map_cons, List.prod_cons, Language.mem_mul]
    constructor
    · intro ⟨s, hs, t, ht, he⟩
      have hsingle : s = [c] := hs
      rw [← he, hsingle, ih.mp ht]
      rfl
    · intro he
      exact ⟨[c], rfl, cs, ih.mpr rfl, he ▸ rfl⟩

end PatternToken

namespace PlainName

variable {name : String}

theorem exists_cons (h : PlainName name) :
    ∃ c cs, name.toList = c :: cs ∧ isBlank c = false ∧ c ∉ ['!', '#', '/', '*'] := by
  cases hname : name.toList with
  | nil => exact absurd (String.toList_eq_nil_iff.mp hname) h.nonempty
  | cons c cs =>
    have hplain := h.plain c (by simp [hname])
    have hfirst := h.first c (by simp [hname])
    have htrimmed := h.trimmed
    rw [hname] at htrimmed
    refine ⟨c, cs, rfl, not_blank_of_trimmed htrimmed, ?_⟩
    simp only [List.mem_cons, not_or] at hplain hfirst ⊢
    tauto

theorem trimBlank_directoryLine (h : PlainName name) :
    trimBlank (directoryLine name).toList = name.toList ++ ['/'] := by
  obtain ⟨c, cs, hname, hblank, _⟩ := h.exists_cons
  have hdrop : (name.toList ++ ['/']).dropWhile isBlank = name.toList ++ ['/'] := by
    rw [hname, List.cons_append, List.dropWhile_cons_of_neg (by simp [hblank])]
  rw [toList_directoryLine, trimBlank, hdrop]
  exact trimEndBlank_append_singleton (by decide)

theorem splitNegation_directoryLine (h : PlainName name) :
    Rule.splitNegation (trimBlank (directoryLine name).toList) = (false, name.toList ++ ['/']) := by
  obtain ⟨c, cs, hname, _, hc⟩ := h.exists_cons
  rw [h.trimBlank_directoryLine, hname, List.cons_append, Rule.splitNegation]
  intro rest he
  exact hc (by simp [(List.cons.inj he).1])

theorem ofChars_directoryLine (h : PlainName name) :
    PathPattern.ofChars (name.toList ++ ['/']) =
      ⟨.bare, (name.toList ++ ['/']).map .literal, true⟩ := by
  obtain ⟨c, cs, hname, _, hc⟩ := h.exists_cons
  have hsplit : Anchor.split (name.toList ++ ['/']) = (.bare, name.toList ++ ['/']) := by
    refine (Anchor.Begins.bare ?_ ?_).split_eq
    · rw [hname]
      rintro ⟨rest, he⟩
      exact hc (by simp [← (List.cons.inj he).1])
    · rw [hname]
      rintro ⟨rest, he⟩
      exact hc (by simp [← (List.cons.inj he).1])
  simp [PathPattern.ofChars, hsplit, PatternToken.scan_plain h.plain]

/-- The directory's line matches what is below it, on one line. -/
theorem lineMatches_directoryLine (h : PlainName name)
    (hcompiles : (Rule.compile? (directoryLine name) 1).isSome) (rest : String) :
    Rule.lineMatches (directoryLine name ++ rest) (directoryLine name) =
      !rest.toList.contains '\n' := by
  obtain ⟨rule, hrule⟩ := Option.isSome_iff_exists.mp hcompiles
  have hpath : (directoryLine name ++ rest).toList = name.toList ++ ['/'] ++ rest.toList := by
    rw [String.toList_append, toList_directoryLine]
  rw [Rule.lineMatches, hrule, Option.any_some, Bool.eq_iff_iff, Rule.isMatch_of_compile? hrule,
    h.splitNegation_directoryLine, h.ofChars_directoryLine, hpath, PathPattern.language]
  simp only [Language.mem_mul, PatternToken.mem_language_literals, Anchor.language, tailLanguage,
    mem_textsWhere, Bool.not_eq_true', List.contains_eq_mem, decide_eq_false_iff_not]
  constructor
  · rintro ⟨front, ⟨_, rfl, middle, rfl, rfl⟩, tail, htail, he⟩
    exact List.append_cancel_left he ▸ htail
  · intro hrest
    exact ⟨_, ⟨[], rfl, _, rfl, rfl⟩, _, hrest, rfl⟩

theorem oddMarks_directoryLine (h : PlainName name) : Rule.oddMarks (directoryLine name) = false := by
  rw [Rule.oddMarks, ← Rule.splitNegation_fst, h.splitNegation_directoryLine]

end PlainName

namespace RuleSet

variable {name : String}

theorem signs_directoryLine (h : PlainName name)
    (hcompiles : (Rule.compile? (directoryLine name) 1).isSome) (rest : String) :
    (compile [directoryLine name]).negateAll.signs (directoryLine name ++ rest) =
      if rest.toList.contains '\n' then [] else [true] := by
  have hmatch := h.lineMatches_directoryLine hcompiles rest
  rw [signs_negateAll, compile, signs_rulesFrom]
  cases hrest : rest.toList.contains '\n' with
  | true =>
    rw [hrest] at hmatch
    rw [List.filter_cons_of_neg (by simp [hmatch])]
    rfl
  | false =>
    rw [hrest] at hmatch
    rw [List.filter_cons_of_pos (by simp [hmatch])]
    simp [h.oddMarks_directoryLine]

/-- Over any rules, the line of a directory leaves out all that is below the directory, but for
paths with a line feed behind it: about those it says nothing. -/
theorem includes_below_left_out (set : RuleSet) (h : PlainName name)
    (hcompiles : (Rule.compile? (directoryLine name) 1).isSome) (rest : String) :
    (set.withHigherPrecedence (compile [directoryLine name]).negateAll).includes
        (directoryLine name ++ rest) =
      (set.includes (directoryLine name ++ rest) && rest.toList.contains '\n') := by
  rw [Bool.eq_iff_iff, Bool.and_eq_true, includes_iff_signs, includes_iff_signs,
    signs_withHigherPrecedence, signs_directoryLine h hcompiles]
  cases rest.toList.contains '\n' with
  | true => simp
  | false => simp

theorem plainName_secret : PlainName "secret" :=
  ⟨by decide, by simp, by simp, by decide⟩

theorem compiles_secret : (Rule.compile? (directoryLine "secret") 1).isSome = true := by
  decide +kernel

theorem includes_below_secret :
    PlainName "secret" ∧ (Rule.compile? (directoryLine "secret") 1).isSome = true ∧
      ((compile ["*"]).withHigherPrecedence (compile [directoryLine "secret"]).negateAll).includes
        (directoryLine "secret" ++ "keys/id") = false := by
  have hnewline : "keys/id".toList.contains '\n' = false := by decide
  refine ⟨plainName_secret, compiles_secret, ?_⟩
  rw [includes_below_left_out (compile ["*"]) plainName_secret compiles_secret "keys/id", hnewline,
    Bool.and_false]

set_option maxRecDepth 100000 in
/-- A star takes a line feed in a name, and the tail of a directory's pattern does not: such a name
below a directory that is left out stays in. -/
theorem line_feed_below_left_out_stays :
    ¬∀ (set : RuleSet) (name : String), PlainName name →
      (Rule.compile? (directoryLine name) 1).isSome = true → ∀ rest : String,
        (set.withHigherPrecedence (compile [directoryLine name]).negateAll).includes
          (directoryLine name ++ rest) = false := by
  intro hall
  have hin : ((compile ["secret/*"]).withHigherPrecedence
      (compile [directoryLine "secret"]).negateAll).includes
        (directoryLine "secret" ++ "a\nb") = true := by cbv
  rw [hall _ _ plainName_secret compiles_secret] at hin
  exact Bool.false_ne_true hin

end RuleSet

end SourceBundle
