import Mathlib.Data.List.Forall2
import SourceBundle.BundlePlan
import SourceBundle.Proofs.RuleVerdict

/-!
# Ignore files over filters

The rules of a plan are its filters and, behind them, the lines of its ignore files with inclusion
and exclusion exchanged. So the last line that matches a path decides about it, in whatever file it
stands, and the filters decide about the paths that no line matches.
-/

namespace SourceBundle

namespace Rule

def oddMarks (line : String) : Bool :=
  ((trimBlank line.toList).takeWhile (· == '!')).length % 2 == 1

/-- Whether a line gives a rule and the rule matches the path. -/
def lineMatches (path line : String) : Bool :=
  (compile? line 1).any (·.isMatch path)

theorem splitNegation_fst (text : List Char) :
    (splitNegation text).1 = ((text.takeWhile (· == '!')).length % 2 == 1) := by
  fun_induction splitNegation text with
  | case1 cs ih =>
    have hstep : ((splitNegation cs).map not id).1 = !(splitNegation cs).1 := rfl
    rw [hstep, ih, Bool.eq_iff_iff, List.takeWhile_cons_of_pos rfl, List.length_cons]
    simp only [Bool.not_eq_true', beq_eq_false_iff_ne, beq_iff_eq]
    omega
  | case2 text h =>
    have hnil : text.takeWhile (· == '!') = [] := by
      cases text with
      | nil => rfl
      | cons c cs =>
        have hc : c ≠ '!' := fun he => h cs (he ▸ rfl)
        simp [hc]
    simp [hnil]

/-- What a line gives: its number, its text without blanks around it, whether the exclamation marks in
front are odd in number, and the expression of the pattern behind them. -/
theorem compile?_eq_some {line : String} {n : Nat} {rule : Rule} (h : compile? line n = some rule) :
    rule.lineNo = n ∧ rule.text = String.ofList (trimBlank line.toList) ∧
      rule.negated = (splitNegation (trimBlank line.toList)).1 ∧
      Regex.compile? (translate (splitNegation (trimBlank line.toList)).2) = some rule.regex := by
  revert h
  fun_cases compile? line n with
  | case4 text negated body hsplit =>
    intro h
    obtain ⟨regex, hregex, rfl⟩ := Option.map_eq_some_iff.mp h
    have htext : splitNegation (trimBlank line.toList) = (negated, body) := hsplit
    rw [htext]
    exact ⟨rfl, rfl, rfl, hregex⟩
  | _ =>
    intro h
    simp at h

theorem compile?_negated {line : String} {n : Nat} {rule : Rule}
    (h : compile? line n = some rule) : rule.negated = oddMarks line := by
  obtain ⟨-, -, hnegated, -⟩ := compile?_eq_some h
  rw [hnegated, splitNegation_fst, oddMarks]

theorem any_compile? (path line : String) (n : Nat) :
    (compile? line n).any (·.isMatch path) = lineMatches path line := by
  unfold lineMatches compile?
  simp only
  split
  · rfl
  · rfl
  · split
    · rfl
    · simp [Option.any_map, isMatch]

end Rule

namespace RuleSet

def signs (set : RuleSet) (path : String) : List Bool :=
  (set.matching path).map Rule.negated

theorem includes_iff_signs (set : RuleSet) (path : String) :
    set.includes path = true ↔ (set.signs path).getLast? = some false := by
  simp [includes_iff, signs, List.getLast?_map]

theorem signs_withHigherPrecedence (set other : RuleSet) (path : String) :
    (set.withHigherPrecedence other).signs path = set.signs path ++ other.signs path := by
  simp [signs, matching, withHigherPrecedence]

theorem signs_negateAll (set : RuleSet) (path : String) :
    set.negateAll.signs path = (set.signs path).map not := by
  simp [signs, matching, negateAll, List.filter_map, Function.comp_def, Rule.isMatch, Rule.negate]

theorem signs_rulesFrom (n : Nat) (lines : List String) (path : String) :
    signs ⟨rulesFrom n lines⟩ path =
      (lines.filter (Rule.lineMatches path)).map Rule.oddMarks := by
  induction lines generalizing n with
  | nil => rfl
  | cons line lines ih =>
    have hcons : signs ⟨rulesFrom n (line :: lines)⟩ path =
        signs ⟨(Rule.compile? line n).toList⟩ path ++ signs ⟨rulesFrom (n + 1) lines⟩ path := by
      simp [signs, matching, rulesFrom]
    rw [hcons, ih]
    have hm := Rule.any_compile? path line n
    cases hc : Rule.compile? line n with
    | none =>
      have hf : Rule.lineMatches path line = false := by simpa [hc] using hm.symm
      simp [signs, matching, hf]
    | some rule =>
      have hr : rule.isMatch path = Rule.lineMatches path line := by simpa [hc] using hm
      have hn := Rule.compile?_negated hc
      by_cases hl : Rule.lineMatches path line = true
      · simp [signs, matching, hr, hl, hn]
      · simp [signs, matching, hr, hl]

theorem signs_ofBytes (bytes : List UInt8) (path : String) :
    (ofBytes bytes []).signs path =
      ((linesOfBytes bytes).filter (Rule.lineMatches path)).map Rule.oddMarks := by
  rw [← signs_rulesFrom 1]
  simp [ofBytes, rulesFrom]

end RuleSet

namespace BundlePlan

theorem addIgnoreFile_of_ok {fs : FileSystem} {path : String} {bytes : List UInt8}
    (h : fs.read path = .ok bytes) (set : RuleSet) :
    addIgnoreFile fs set path =
      .ok (set.withHigherPrecedence (RuleSet.ofBytes bytes []).negateAll) := by
  rw [addIgnoreFile, RuleSet.ofFile, h]
  rfl

theorem addIgnoreFile_of_error {fs : FileSystem} {path : String} {cause : IoError}
    (h : fs.read path = .error cause) (set : RuleSet) :
    addIgnoreFile fs set path = .error (.ignoreFile ⟨path, cause⟩) := by
  rw [addIgnoreFile, RuleSet.ofFile, h]
  rfl

/-- Ignore files that can be read add the signs of their lines, each the other way round. -/
theorem foldlM_addIgnoreFile {fs : FileSystem} {paths : List String}
    {contents : List (List UInt8)}
    (h : List.Forall₂ (fun path bytes => fs.read path = .ok bytes) paths contents)
    (set : RuleSet) :
    ∃ rules, paths.foldlM (addIgnoreFile fs) set = .ok rules ∧ ∀ path,
      rules.signs path = set.signs path ++
        ((contents.flatMap RuleSet.linesOfBytes).filter (Rule.lineMatches path)).map
          fun line => !Rule.oddMarks line := by
  induction h generalizing set with
  | nil => exact ⟨set, rfl, by simp⟩
  | @cons file bytes files contents hread _ ih =>
    have hstep := addIgnoreFile_of_ok hread set
    obtain ⟨rules, hrules, hsigns⟩ :=
      ih (set.withHigherPrecedence (RuleSet.ofBytes bytes []).negateAll)
    refine ⟨rules, ?_, ?_⟩
    · rw [List.foldlM_cons, hstep]
      exact hrules
    · intro path
      rw [hsigns, RuleSet.signs_withHigherPrecedence, RuleSet.signs_negateAll,
        RuleSet.signs_ofBytes]
      simp [Function.comp_def]

theorem foldlM_addIgnoreFile_error {fs : FileSystem} {paths : List String}
    (h : ∃ path ∈ paths, ∃ cause, fs.read path = .error cause) (set : RuleSet) :
    ∃ failure : RuleFileError,
      paths.foldlM (addIgnoreFile fs) set = .error (.ignoreFile failure) ∧
        failure.path ∈ paths ∧ fs.read failure.path = .error failure.cause := by
  induction paths generalizing set with
  | nil => simp at h
  | cons file files ih =>
    rw [List.foldlM_cons]
    cases hread : fs.read file with
    | error cause =>
      refine ⟨⟨file, cause⟩, ?_, by simp, hread⟩
      rw [addIgnoreFile_of_error hread]
      rfl
    | ok bytes =>
      have hrest : ∃ path ∈ files, ∃ cause, fs.read path = .error cause := by
        simpa [hread] using h
      obtain ⟨failure, herror, hmem, hcause⟩ :=
        ih hrest (set.withHigherPrecedence (RuleSet.ofBytes bytes []).negateAll)
      refine ⟨failure, ?_, List.mem_cons_of_mem _ hmem, hcause⟩
      rw [addIgnoreFile_of_ok hread]
      exact herror

/-- The last line of the ignore files that matches a path decides about it: with an odd number of
exclamation marks in front it takes the path in, else it leaves it out. About the other paths the
filters decide. There are no rules unless every ignore file can be read. -/
theorem rules_by_last_line (fs : FileSystem) (plan : BundlePlan) :
    (∀ contents,
      List.Forall₂ (fun path bytes => fs.read path = .ok bytes) (plan.ignorePaths fs) contents →
      ∃ rules, plan.rules fs = .ok rules ∧ ∀ path,
        (∀ line,
          ((contents.flatMap RuleSet.linesOfBytes).filter (Rule.lineMatches path)).getLast? =
            some line → rules.includes path = Rule.oddMarks line) ∧
        ((∀ line ∈ contents.flatMap RuleSet.linesOfBytes, Rule.lineMatches path line = false) →
          rules.includes path = (RuleSet.compile plan.filters).includes path)) ∧
    ((∃ path ∈ plan.ignorePaths fs, ∃ cause, fs.read path = .error cause) →
      ∃ failure : RuleFileError, plan.rules fs = .error (.ignoreFile failure) ∧
        failure.path ∈ plan.ignorePaths fs ∧ fs.read failure.path = .error failure.cause) := by
  constructor
  · intro contents hread
    obtain ⟨rules, hrules, hsigns⟩ := foldlM_addIgnoreFile hread (RuleSet.compile plan.filters)
    refine ⟨rules, hrules, fun path => ⟨?_, ?_⟩⟩
    · intro line hline
      rw [Bool.eq_iff_iff, RuleSet.includes_iff_signs, hsigns, List.getLast?_append,
        List.getLast?_map, hline]
      simp
    · intro hnone
      have hfilter : (contents.flatMap RuleSet.linesOfBytes).filter (Rule.lineMatches path) = [] :=
        List.filter_eq_nil_iff.mpr (by simpa using hnone)
      rw [Bool.eq_iff_iff, RuleSet.includes_iff_signs, RuleSet.includes_iff_signs, hsigns, hfilter]
      simp
  · intro herror
    exact foldlM_addIgnoreFile_error herror (RuleSet.compile plan.filters)

end BundlePlan

end SourceBundle
