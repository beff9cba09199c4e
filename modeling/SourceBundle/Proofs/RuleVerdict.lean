import Mathlib.Data.List.Basic
import SourceBundle.RuleSet

/-!
# The verdict of a rule set

What a rule set says about a path, told from the rules that match the path: the last of them decides
whether it is in, and of the exclusions only the first that takes an inclusion back is named.
-/

namespace SourceBundle

namespace Verdict

/-- `Settles rules verdict`: the verdict of rules that all match, in their order. -/
inductive Settles : List Rule → Verdict → Prop
  | untouched {rules} (h : ∀ r ∈ rules, r.negated = true) : Settles rules ⟨false, none⟩
  | included {before last} (h : last.negated = false) :
      Settles (before ++ [last]) ⟨true, some last⟩
  | excluded {before last excluder after} (hl : last.negated = false)
      (he : excluder.negated = true) (ha : ∀ r ∈ after, r.negated = true) :
      Settles (before ++ last :: excluder :: after) ⟨false, some excluder⟩

namespace Settles

variable {rules : List Rule} {verdict : Verdict}

theorem judge {path : String} {rule : Rule} (h : Settles rules verdict)
    (hm : rule.isMatch path = true) :
    Settles (rules ++ [rule]) (RuleSet.judge path verdict rule) := by
  by_cases hn : rule.negated = true
  · cases h with
    | untouched h =>
      have hall : ∀ r ∈ rules ++ [rule], r.negated = true :=
        List.forall_mem_append.mpr ⟨h, by simpa using hn⟩
      simpa [RuleSet.judge, hm, hn] using untouched hall
    | included h => simpa [RuleSet.judge, hm, hn] using excluded h hn (by simp)
    | @excluded before last excluder after hl he ha =>
      have hall : ∀ r ∈ after ++ [rule], r.negated = true :=
        List.forall_mem_append.mpr ⟨ha, by simpa using hn⟩
      have hnew : Settles (before ++ last :: excluder :: (after ++ [rule])) ⟨false, some excluder⟩ :=
        .excluded hl he hall
      simpa [RuleSet.judge, hm, hn] using hnew
  · have hf : rule.negated = false := by simpa using hn
    have hnew : Settles (rules ++ [rule]) ⟨true, some rule⟩ := .included hf
    simpa [RuleSet.judge, hm, hf] using hnew

theorem foldl_judge (path : String) (more : List Rule) (h : Settles rules verdict) :
    Settles (rules ++ more.filter (·.isMatch path)) (more.foldl (RuleSet.judge path) verdict) := by
  induction more generalizing rules verdict with
  | nil => simpa using h
  | cons rule more ih =>
    by_cases hm : rule.isMatch path = true
    · simpa [hm] using ih (h.judge hm)
    · simpa [hm, RuleSet.judge] using ih h

theorem included_iff (h : Settles rules verdict) :
    verdict.included = true ↔ ∃ last, rules.getLast? = some last ∧ last.negated = false := by
  cases h with
  | untouched h =>
    have hlast : ∀ last, rules.getLast? = some last → last.negated = true :=
      fun last hl => h last (List.mem_of_getLast? hl)
    simpa using hlast
  | included h => simpa using h
  | @excluded before last excluder after hl he ha =>
    have hall : ∀ r ∈ excluder :: after, r.negated = true := List.forall_mem_cons.mpr ⟨he, ha⟩
    have hlast : ∀ r, (excluder :: after).getLast? = some r → r.negated = true :=
      fun r hr => hall r (List.mem_of_getLast? hr)
    simpa [List.getLast?_append, List.getLast?_cons_cons] using hlast

theorem decisive_of_included (h : Settles rules verdict) (hi : verdict.included = true) :
    verdict.decisive = rules.getLast? := by
  cases h with
  | included => simp
  | _ => simp at hi

theorem decisive_eq_none_iff (h : Settles rules verdict) :
    verdict.decisive = none ↔ ∀ r ∈ rules, r.negated = true := by
  cases h with
  | untouched h => simpa using h
  | included h => simp [h]
  | excluded hl =>
    constructor
    · intro hnone
      simp at hnone
    · intro hall
      simp [hall _ (List.mem_append_right _ List.mem_cons_self)] at hl

theorem decisive_of_excluded (h : Settles rules verdict) (hi : verdict.included = false)
    (hr : ∃ r ∈ rules, r.negated = false) :
    ∃ before last excluder after, rules = before ++ last :: excluder :: after ∧
      last.negated = false ∧ (∀ r ∈ excluder :: after, r.negated = true) ∧
      verdict.decisive = some excluder := by
  cases h with
  | untouched h =>
    obtain ⟨r, hmem, hf⟩ := hr
    simp [h r hmem] at hf
  | included => simp at hi
  | excluded hl he ha =>
    exact ⟨_, _, _, _, rfl, hl, List.forall_mem_cons.mpr ⟨he, ha⟩, rfl⟩

end Settles

end Verdict

namespace RuleSet

def matching (set : RuleSet) (path : String) : List Rule :=
  set.rules.filter (·.isMatch path)

theorem settles_explain (set : RuleSet) (path : String) :
    Verdict.Settles (set.matching path) (set.explain path) := by
  have hstart : Verdict.Settles [] ⟨false, none⟩ := .untouched (by simp)
  exact hstart.foldl_judge path set.rules

theorem includes_iff (set : RuleSet) (path : String) :
    set.includes path = true ↔
      ∃ last, (set.matching path).getLast? = some last ∧ last.negated = false :=
  (set.settles_explain path).included_iff

/-- Rules put last go on from the verdict of the rules before them. -/
theorem explain_withHigherPrecedence (set other : RuleSet) (path : String) :
    (set.withHigherPrecedence other).explain path =
      other.rules.foldl (judge path) (set.explain path) := by
  simp [withHigherPrecedence, explain]

/-- The verdict on a path in terms of the rules that match it. The last of them includes the path or
does not; the rule named is that one, or the first of the exclusions behind the last inclusion. An
exclusion that follows while the path is not in leaves no trace. -/
theorem explain_by_matching (set : RuleSet) (path : String) :
    ((set.explain path).included = true ↔
      ∃ last, (set.matching path).getLast? = some last ∧ last.negated = false) ∧
    ((set.explain path).included = true →
      (set.explain path).decisive = (set.matching path).getLast?) ∧
    ((set.explain path).included = false → (∃ r ∈ set.matching path, r.negated = false) →
      ∃ before last excluder after,
        set.matching path = before ++ last :: excluder :: after ∧ last.negated = false ∧
        (∀ r ∈ excluder :: after, r.negated = true) ∧
        (set.explain path).decisive = some excluder) ∧
    ((set.explain path).decisive = none ↔
      ∀ r ∈ set.rules, r.isMatch path = true → r.negated = true) ∧
    ∀ rule : Rule, rule.negated = true → (set.explain path).included = false →
      (set.withHigherPrecedence ⟨[rule]⟩).explain path = set.explain path := by
  have h := set.settles_explain path
  refine ⟨h.included_iff, h.decisive_of_included, h.decisive_of_excluded, ?_, ?_⟩
  · simpa [matching] using h.decisive_eq_none_iff
  · intro rule hn hi
    rw [explain_withHigherPrecedence]
    simp [judge, hn, hi]

end RuleSet

end SourceBundle
