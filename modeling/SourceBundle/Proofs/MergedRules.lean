import SourceBundle.Proofs.RuleVerdict

/-!
# Rule sets put one over the other

The rules of two sets in one list. Those put last go on from the verdict of the others, so what they
say is not always their own verdict: an exclusion counts only for a path that the others took in.
-/

namespace SourceBundle

namespace RuleSet

variable {path : String} {rules : List Rule} {rule : Rule} {verdict : Verdict}

/-! ## One rule -/

theorem judge_unmatched (h : rule.isMatch path = false) : judge path verdict rule = verdict := by
  simp [judge, h]

theorem judge_inclusion (hm : rule.isMatch path = true) (hn : rule.negated = false) :
    judge path verdict rule = ⟨true, some rule⟩ := by
  simp [judge, hm, hn]

theorem judge_exclusion (hm : rule.isMatch path = true) (hn : rule.negated = true) :
    judge path verdict rule = if verdict.included then ⟨false, some rule⟩ else verdict := by
  simp [judge, hm, hn]

/-! ## Rules in a row -/

theorem foldl_judge_eq_self (h : ∀ r ∈ rules, judge path verdict r = verdict) :
    rules.foldl (judge path) verdict = verdict := by
  induction rules with
  | nil => rfl
  | cons rule rules ih =>
    obtain ⟨hrule, hrules⟩ := List.forall_mem_cons.mp h
    rw [List.foldl_cons, hrule]
    exact ih hrules

/-- Behind an inclusion nothing is left of what the rules before it said. -/
theorem foldl_judge_of_inclusion (h : ∃ r ∈ rules.filter (·.isMatch path), r.negated = false)
    (v w : Verdict) : rules.foldl (judge path) v = rules.foldl (judge path) w := by
  obtain ⟨r, hr, hn⟩ := h
  obtain ⟨hmem, hm⟩ := List.mem_filter.mp hr
  obtain ⟨before, after, rfl⟩ := List.append_of_mem hmem
  have hstep : ∀ u, judge path u r = ⟨true, some r⟩ := fun _ => judge_inclusion hm hn
  simp only [List.foldl_append, List.foldl_cons, hstep]

theorem foldl_judge_of_exclusions {first : Rule} {later : List Rule}
    (hrules : rules.filter (·.isMatch path) = first :: later)
    (hneg : ∀ r ∈ first :: later, r.negated = true) (v : Verdict) :
    rules.foldl (judge path) v = ⟨false, if v.included then some first else v.decisive⟩ := by
  obtain ⟨before, after, rfl, hbefore, hfirst, hafter⟩ := List.filter_eq_cons_iff.mp hrules
  have hskip : before.foldl (judge path) v = v := by
    apply foldl_judge_eq_self
    intro r hr
    exact judge_unmatched (by simpa using hbefore r hr)
  have hstep : judge path v first = ⟨false, if v.included then some first else v.decisive⟩ := by
    rw [judge_exclusion hfirst (hneg first (by simp))]
    rcases v with ⟨included, decisive⟩
    cases included <;> rfl
  rw [List.foldl_append, hskip, List.foldl_cons, hstep]
  apply foldl_judge_eq_self
  intro r hr
  by_cases hm : r.isMatch path = true
  · have hlater : r ∈ later := hafter ▸ List.mem_filter.mpr ⟨hr, hm⟩
    rw [judge_exclusion hm (hneg r (List.mem_cons_of_mem _ hlater))]
    rfl
  · exact judge_unmatched (by simpa using hm)

/-! ## Two sets -/

/-- The verdict of rules over others. Where one of the upper rules takes the path in, the verdict is
that of the upper rules alone. Where they only leave it out, it is not in: the first of them is named
if the lower rules take the path in, and else the rule that the lower ones name. Where none of them
matches, the lower rules decide. Putting rules under others is the same, seen from the others. -/
theorem explain_merged (set other : RuleSet) (path : String) :
    ((∃ r ∈ other.matching path, r.negated = false) →
      (set.withHigherPrecedence other).explain path = other.explain path) ∧
    (∀ first later, other.matching path = first :: later →
      (∀ r ∈ first :: later, r.negated = true) →
      (set.withHigherPrecedence other).explain path =
        ⟨false, if set.includes path then some first else (set.explain path).decisive⟩) ∧
    (other.matching path = [] →
      (set.withHigherPrecedence other).explain path = set.explain path) ∧
    (set.withLowerPrecedence other).explain path =
      (other.withHigherPrecedence set).explain path := by
  rw [explain_withHigherPrecedence]
  refine ⟨?_, ?_, ?_, rfl⟩
  · intro hin
    exact foldl_judge_of_inclusion hin _ _
  · intro first later hmatching hneg
    exact foldl_judge_of_exclusions hmatching hneg _
  · intro hnone
    apply foldl_judge_eq_self
    intro r hr
    have hm : ¬r.isMatch path = true := List.filter_eq_nil_iff.mp hnone r hr
    exact judge_unmatched (by simpa using hm)

theorem explain_merged_exclusions :
    ∃ first later,
      (compile ["!a?", "!*"]).matching "ab" = first :: later ∧
      (∀ r ∈ first :: later, r.negated = true) ∧ first.text = "!a?" ∧
      ((compile ["*"]).withHigherPrecedence (compile ["!a?", "!*"])).explain "ab" =
        ⟨false, some first⟩ := by
  have hupper : compile ["!a?", "!*"] = ⟨[⟨(PathPattern.ofChars ['a', '?']).regex, true, 1, "!a?"⟩,
      ⟨(PathPattern.ofChars ['*']).regex, true, 2, "!*"⟩]⟩ := by decide
  have hlower : compile ["*"] = ⟨[⟨(PathPattern.ofChars ['*']).regex, false, 1, "*"⟩]⟩ := by
    decide
  have hquestion : (PathPattern.ofChars ['a', '?']).regex.isMatch ['a', 'b'] = true := by cbv
  have hstar : (PathPattern.ofChars ['*']).regex.isMatch ['a', 'b'] = true := by cbv
  have hmatching : (compile ["!a?", "!*"]).matching "ab" = (compile ["!a?", "!*"]).rules := by
    simp [matching, hupper, Rule.isMatch, hquestion, hstar]
  have hin : (compile ["*"]).includes "ab" = true := by
    simp [includes, explain, hlower, judge, Rule.isMatch, hstar]
  have hmerged := (explain_merged (compile ["*"]) (compile ["!a?", "!*"]) "ab").2.1
  rw [hmatching, hin, hupper] at hmerged
  rw [hmatching, hupper]
  exact ⟨_, _, rfl, by simp, rfl, hmerged _ _ rfl (by simp)⟩

end RuleSet

end SourceBundle
