import Mathlib.Algebra.Ring.Parity
import Mathlib.Data.List.Forall2
import SourceBundle.Proofs.FallibleSteps
import SourceBundle.Proofs.IgnorePrecedence
import SourceBundle.Proofs.RuleFileLines

/-!
# Rules with inclusion and exclusion exchanged

The text of a rule and what the rule does go together: whether it excludes is told by the exclamation
marks in front of its text, and what it matches by the text behind them. Negation changes the number
of marks by one, up or down, and so keeps this; putting sets together changes no rule. Two negations
may leave another text, but they leave every verdict, with the place of the rule that decides.
-/

namespace SourceBundle

namespace Rule

/-! ## Texts and marks -/

def marks (rule : Rule) : Nat :=
  (rule.text.toList.takeWhile (· == '!')).length

def unmarked (rule : Rule) : List Char :=
  rule.text.toList.dropWhile (· == '!')

/-- The rule does what its text says. -/
structure Faithful (rule : Rule) : Prop where
  negated : rule.negated = true ↔ Odd rule.marks
  regex : Regex.compile? (translate rule.unmarked) = some rule.regex

theorem splitNegation_snd (text : List Char) :
    (splitNegation text).2 = text.dropWhile (· == '!') := by
  fun_induction splitNegation text with
  | case1 cs ih =>
    rw [List.dropWhile_cons_of_pos rfl, ← ih]
    rfl
  | case2 text h =>
    cases text with
    | nil => rfl
    | cons c cs =>
      have hc : c ≠ '!' := fun he => h cs (he ▸ rfl)
      rw [List.dropWhile_cons_of_neg (by simpa using hc)]

theorem faithful_of_compile? {line : String} {n : Nat} {rule : Rule}
    (h : compile? line n = some rule) : Faithful rule := by
  obtain ⟨_, htext, hnegated, hregex⟩ := compile?_eq_some h
  constructor
  · rw [hnegated, splitNegation_fst, marks, htext, String.toList_ofList, Nat.odd_iff, beq_iff_eq]
  · rwa [unmarked, htext, String.toList_ofList, ← splitNegation_snd]

theorem takeWhile_flipText (text : List Char) :
    Odd ((flipText text).takeWhile (· == '!')).length ↔
      ¬Odd (text.takeWhile (· == '!')).length := by
  fun_cases flipText text with
  | case1 cs => simp [Nat.odd_add_one]
  | case2 text h => simp [Nat.odd_add_one]

theorem dropWhile_flipText (text : List Char) :
    (flipText text).dropWhile (· == '!') = text.dropWhile (· == '!') := by
  fun_cases flipText text with
  | case1 cs => simp
  | case2 text h => simp

theorem Faithful.negate {rule : Rule} (h : Faithful rule) : Faithful rule.negate := by
  constructor
  · have hflip := takeWhile_flipText rule.text.toList
    rw [marks, Rule.negate, String.toList_ofList, hflip, ← marks, ← h.negated]
    simp
  · have hflip := dropWhile_flipText rule.text.toList
    rw [unmarked, Rule.negate, String.toList_ofList, hflip]
    exact h.regex

end Rule

namespace RuleSet

/-! ## How sets come about -/

/-- The sets that come from compiled lines and files by putting sets together and negating them, each
with its rules as they were compiled. -/
inductive Arises : RuleSet → List Rule → Prop
  | compile (lines : List String) : Arises (compile lines) (compile lines).rules
  | ofFile {fs path further set} (h : ofFile fs path further = .ok set) : Arises set set.rules
  | withHigherPrecedence {set other rules others} (h : Arises set rules)
      (ho : Arises other others) : Arises (set.withHigherPrecedence other) (rules ++ others)
  | withLowerPrecedence {set other rules others} (h : Arises set rules)
      (ho : Arises other others) : Arises (set.withLowerPrecedence other) (others ++ rules)
  | negateAll {set rules} (h : Arises set rules) : Arises set.negateAll rules

def Descends (rule compiled : Rule) : Prop :=
  rule.Faithful ∧ rule.lineNo = compiled.lineNo ∧
    ∃ line, Rule.compile? line compiled.lineNo = some compiled

theorem descends_compile (lines : List String) :
    List.Forall₂ Descends (compile lines).rules (compile lines).rules := by
  refine List.forall₂_same.mpr fun rule hrule => ?_
  obtain ⟨i, line, _, hline⟩ := mem_rulesFrom.mp hrule
  have hnumber := (Rule.compile?_eq_some hline).1
  exact ⟨Rule.faithful_of_compile? hline, rfl, line, hnumber ▸ hline⟩

theorem exists_compile_of_ofFile {fs : FileSystem} {path : String} {further : List String}
    {set : RuleSet} (h : ofFile fs path further = .ok set) : ∃ lines, set = compile lines := by
  cases hread : fs.read path with
  | error cause => simp [ofFile, hread] at h
  | ok bytes =>
    rw [ofFile_of_read hread, Except.ok.injEq] at h
    exact ⟨_, h ▸ ofBytes_eq_compile bytes further⟩

theorem Arises.descends {set : RuleSet} {rules : List Rule} (h : Arises set rules) :
    List.Forall₂ Descends set.rules rules := by
  induction h with
  | compile lines => exact descends_compile lines
  | ofFile h =>
    obtain ⟨lines, rfl⟩ := exists_compile_of_ofFile h
    exact descends_compile lines
  | withHigherPrecedence _ _ ih iho => exact List.rel_append ih iho
  | withLowerPrecedence _ _ ih iho => exact List.rel_append iho ih
  | negateAll _ ih =>
    refine List.forall₂_map_left_iff.mpr (ih.imp fun rule compiled hrule => ?_)
    obtain ⟨hfaithful, hline⟩ := hrule
    exact ⟨hfaithful.negate, hline⟩

/-! ## Which rule decides -/

structure PlacedVerdict where
  included : Bool
  place : Option Nat
  deriving DecidableEq, Repr

def judgeAt (path : String) (verdict : PlacedVerdict) (rule : Rule × Nat) : PlacedVerdict :=
  if rule.1.isMatch path then
    if rule.1.negated then
      if verdict.included then ⟨false, some rule.2⟩ else verdict
    else ⟨true, some rule.2⟩
  else verdict

/-- The verdict on a path with the place of the deciding rule in the list. -/
def explainAt (set : RuleSet) (path : String) : PlacedVerdict :=
  set.rules.zipIdx.foldl (judgeAt path) ⟨false, none⟩

def PlacedVerdict.of (set : RuleSet) (verdict : PlacedVerdict) : Verdict :=
  ⟨verdict.included, verdict.place.bind (set.rules[·]?)⟩

theorem of_judgeAt (set : RuleSet) (path : String) (verdict : PlacedVerdict) {rule : Rule} {i : Nat}
    (h : set.rules[i]? = some rule) :
    (judgeAt path verdict (rule, i)).of set = judge path (verdict.of set) rule := by
  have hrule : ∀ included, PlacedVerdict.of set ⟨included, some i⟩ = ⟨included, some rule⟩ := by
    intro included
    rw [PlacedVerdict.of, Option.bind_some, h]
  rw [judgeAt, judge, PlacedVerdict.of, ← PlacedVerdict.of]
  simp only [apply_ite (PlacedVerdict.of set), hrule]
  rfl

theorem explain_eq_of_explainAt (set : RuleSet) (path : String) :
    set.explain path = (set.explainAt path).of set := by
  have hfold : ∀ (rules : List (Rule × Nat)) (verdict : PlacedVerdict),
      (∀ rule ∈ rules, set.rules[rule.2]? = some rule.1) →
      (rules.foldl (judgeAt path) verdict).of set =
        (rules.map (·.1)).foldl (judge path) (verdict.of set) := by
    intro rules
    induction rules with
    | nil => exact fun _ _ => rfl
    | cons rule rules ih =>
      intro verdict h
      obtain ⟨hrule, hrules⟩ := List.forall_mem_cons.mp h
      rw [List.foldl_cons, ih _ hrules, of_judgeAt set path verdict hrule, List.map_cons,
        List.foldl_cons]
  have hplaces : ∀ rule ∈ set.rules.zipIdx, set.rules[rule.2]? = some rule.1 := by
    intro rule hrule
    simpa using List.mem_zipIdx_iff_getElem?.mp hrule
  have hzip := hfold set.rules.zipIdx ⟨false, none⟩ hplaces
  rw [List.zipIdx_map_fst] at hzip
  rw [explain, explainAt, hzip]
  rfl

theorem judgeAt_congr {path : String} {rule other : Rule} (hregex : rule.regex = other.regex)
    (hnegated : rule.negated = other.negated) (verdict : PlacedVerdict) (i : Nat) :
    judgeAt path verdict (rule, i) = judgeAt path verdict (other, i) := by
  simp only [judgeAt, Rule.isMatch, hregex, hnegated]

theorem explainAt_negateAll_negateAll (set : RuleSet) (path : String) :
    set.negateAll.negateAll.explainAt path = set.explainAt path := by
  have hstep : ∀ verdict (rule : Rule × Nat),
      judgeAt path verdict (rule.1.negate.negate, rule.2) = judgeAt path verdict rule := by
    intro verdict (rule, i)
    have hregex : rule.negate.negate.regex = rule.regex := rfl
    exact judgeAt_congr hregex (Bool.not_not _) verdict i
  have hrules : set.negateAll.negateAll.rules = set.rules.map fun rule => rule.negate.negate := by
    simp [negateAll]
  rw [explainAt, hrules, List.zipIdx_map, List.foldl_map]
  simp only [Prod.map, id_eq, hstep]
  rfl

/-- However a set came about, each of its rules excludes exactly if its text begins with an odd number
of exclamation marks, matches what the text behind them says, and has the number that it was compiled
with. Negated twice, the set says the same of every path, and the rule that decides is in the same
place. -/
theorem Arises.rules_faithful {set : RuleSet} {rules : List Rule} (h : Arises set rules) :
    (∀ rule ∈ set.rules, (rule.negated = true ↔ Odd rule.marks) ∧
      Regex.compile? (translate rule.unmarked) = some rule.regex) ∧
    List.Forall₂ (fun rule compiled => rule.lineNo = compiled.lineNo ∧
      ∃ line, Rule.compile? line compiled.lineNo = some compiled) set.rules rules ∧
    ∀ path, set.negateAll.negateAll.explainAt path = set.explainAt path ∧
      set.explain path = (set.explainAt path).of set ∧
      set.negateAll.negateAll.explain path =
        (set.explainAt path).of set.negateAll.negateAll := by
  have hdescends := h.descends
  refine ⟨fun rule hrule => ?_, hdescends.imp fun _ _ hd => hd.2, fun path => ⟨?_, ?_, ?_⟩⟩
  · obtain ⟨compiled, hfaithful, _⟩ := exists_of_forall₂ hdescends.flip hrule
    exact ⟨hfaithful.negated, hfaithful.regex⟩
  · exact explainAt_negateAll_negateAll set path
  · exact explain_eq_of_explainAt set path
  · rw [explain_eq_of_explainAt, explainAt_negateAll_negateAll]

/-- Two marks in front are gone after two negations, and nothing else has changed. -/
theorem Arises.rules_faithful_two_marks :
    let set := (RuleSet.compile ["*", "!!x"]).withLowerPrecedence (RuleSet.compile ["!y"]).negateAll
    Arises set ((RuleSet.compile ["!y"]).rules ++ (RuleSet.compile ["*", "!!x"]).rules) ∧
      set.rules.map (·.text) = ["y", "*", "!!x"] ∧ set.rules.map (·.lineNo) = [1, 1, 2] ∧
      set.negateAll.negateAll.rules.map (·.text) = ["y", "*", "x"] ∧
      (∀ rule ∈ set.rules, rule.negated = true ↔ Odd rule.marks) ∧
      ∀ path, set.negateAll.negateAll.explainAt path = set.explainAt path := by
  intro set
  have harises : Arises set
      ((RuleSet.compile ["!y"]).rules ++ (RuleSet.compile ["*", "!!x"]).rules) :=
    .withLowerPrecedence (.compile _) (.negateAll (.compile _))
  obtain ⟨hrules, _, hpaths⟩ := harises.rules_faithful
  refine ⟨harises, by decide, by decide, by decide, ?_, ?_⟩
  · exact fun rule hrule => (hrules rule hrule).1
  · exact fun path => (hpaths path).1

end RuleSet

end SourceBundle
