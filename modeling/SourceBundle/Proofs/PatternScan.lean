import Mathlib.Tactic.FinCases
import SourceBundle.PatternTranslation

/-!
# What a pattern is read into

The scan of a pattern against rules that say which token stands first in a text. Every token takes
a stretch that is really there, so the rules cut the whole pattern, and they cut it in one way only.
-/

namespace SourceBundle

/-- `anchor.Begins pattern body`: the pattern begins with the anchor, with the body behind it. -/
inductive Anchor.Begins : Anchor → List Char → List Char → Prop
  | root {body} : Begins .root ('/' :: body) body
  | anyDepth {body} : Begins .anyDepth ('*' :: '*' :: '/' :: body) body
  | bare {body} (hslash : ¬['/'] <+: body) (hstars : ¬['*', '*', '/'] <+: body) :
      Begins .bare body body

theorem Anchor.Begins.split_eq {anchor : Anchor} {pattern body : List Char}
    (h : anchor.Begins pattern body) : split pattern = (anchor, body) := by
  cases h with
  | root =>
    by_cases hstars : ['*', '*', '/'] <+: body
    · obtain ⟨cs, rfl⟩ := hstars
      rfl
    · rw [split]
      intro cs he
      exact hstars ⟨cs, he.symm⟩
  | anyDepth => rfl
  | bare hslash hstars => fun_cases split pattern <;> simp_all

theorem Anchor.exists_begins (pattern : List Char) : ∃ anchor body, Begins anchor pattern body := by
  by_cases hslash : ['/'] <+: pattern
  · obtain ⟨body, rfl⟩ := hslash
    exact ⟨_, _, .root⟩
  · by_cases hstars : ['*', '*', '/'] <+: pattern
    · obtain ⟨body, rfl⟩ := hstars
      exact ⟨_, _, .anyDepth⟩
    · exact ⟨_, _, .bare hslash hstars⟩

theorem Anchor.begins_iff {anchor : Anchor} {pattern body : List Char} :
    anchor.Begins pattern body ↔ anchor = (split pattern).1 ∧ body = (split pattern).2 := by
  constructor
  · intro h
    rw [h.split_eq]
    exact ⟨rfl, rfl⟩
  · intro ⟨ha, hb⟩
    obtain ⟨anchor', body', h⟩ := exists_begins pattern
    rw [h.split_eq] at ha hb
    exact ha ▸ hb ▸ h

namespace PatternToken

/-- `token.Begins text rest`: the token stands first in the text, with the rest behind it. -/
inductive Begins : PatternToken → List Char → List Char → Prop
  | between {rest} : Begins .between ('/' :: '*' :: '*' :: '/' :: rest) rest
  | leading {rest} : Begins .leading ('*' :: '*' :: '/' :: rest) rest
  | trailing {rest} (h : rest.head? ≠ some '/') : Begins .trailing ('/' :: '*' :: '*' :: rest) rest
  | star {rest} (h : ¬['*', '/'] <+: rest) : Begins .star ('*' :: rest) rest
  | question {rest} : Begins .question ('?' :: rest) rest
  | bracket {token inside rest} (h : bracket? (inside ++ rest) = some (token, inside.length)) :
      Begins token ('[' :: (inside ++ rest)) rest
  | openBracket {rest} (h : bracket? rest = none) : Begins (.literal '[') ('[' :: rest) rest
  | escaped {c rest} : Begins (.literal c) ('\\' :: c :: rest) rest
  | lastBackslash : Begins (.literal '\\') ['\\'] []
  | plain {c rest} (hc : c ∉ ['*', '?', '[', '\\']) (h : c = '/' → ¬['*', '*'] <+: rest) :
      Begins (.literal c) (c :: rest) rest

/-- A text cut into tokens from its beginning to its end. -/
inductive Scans : List Char → List PatternToken → Prop
  | nil : Scans [] []
  | cons {token tokens text rest} (head : Begins token text rest) (tail : Scans rest tokens) :
      Scans text (token :: tokens)

/-! ## Bracket expressions stay inside the text -/

theorem of_map_count {found : Option (List Char × Nat)} {f : List Char → List Char} {k n : Nat}
    {ms : List Char} (h : (found.map fun (ms, m) => (f ms, m + k)) = some (ms, n)) :
    ∃ ms' m, found = some (ms', m) ∧ f ms' = ms ∧ m + k = n := by
  obtain ⟨⟨ms', m⟩, hm, he⟩ := Option.map_eq_some_iff.mp h
  obtain ⟨hms, hn⟩ := Prod.mk.inj he
  exact ⟨ms', m, hm, hms, hn⟩

theorem members?_le {cs ms : List Char} {n : Nat} (h : members? cs = some (ms, n)) :
    n ≤ cs.length := by
  fun_induction members? cs generalizing ms n with
  | case1 => simp at h
  | case2 => simp at h
  | case3 cs => simp_all
  | case4 c cs ih =>
    obtain ⟨ms', m, hm, _, hn⟩ := of_map_count h
    have := ih hm
    simp only [List.length_cons]
    omega
  | case5 c cs _ _ _ ih =>
    obtain ⟨ms', m, hm, _, hn⟩ := of_map_count h
    have := ih hm
    simp only [List.length_cons]
    omega

theorem members?_ne_nil {cs ms : List Char} {n : Nat} (hc : ∀ ds, cs ≠ ']' :: ds)
    (h : members? cs = some (ms, n)) : ms ≠ [] := by
  fun_induction members? cs with
  | case1 => simp at h
  | case2 => simp at h
  | case3 cs => exact absurd rfl (hc cs)
  | case4 c cs =>
    obtain ⟨ms', _, _, he, _⟩ := of_map_count h
    exact he ▸ List.cons_ne_nil c ms'
  | case5 c cs =>
    obtain ⟨ms', _, _, he, _⟩ := of_map_count h
    exact he ▸ List.cons_ne_nil c ms'

theorem firstMembers?_spec {cs ms : List Char} {n : Nat} (h : firstMembers? cs = some (ms, n)) :
    ms ≠ [] ∧ n ≤ cs.length := by
  revert h
  fun_cases firstMembers? cs with
  | case1 cs =>
    intro h
    obtain ⟨ms', m, hm, he, hn⟩ := of_map_count h
    have hle := members?_le hm
    rw [List.length_cons]
    exact ⟨he ▸ List.cons_ne_nil _ ms', by omega⟩
  | case2 _ hc =>
    intro h
    exact ⟨members?_ne_nil hc h, members?_le h⟩

theorem bracket?_spec {cs : List Char} {token : PatternToken} {n : Nat}
    (h : bracket? cs = some (token, n)) :
    (∃ negated ms, token = .bracket negated (classItems ms) ∧ ms ≠ []) ∧ n ≤ cs.length := by
  revert h
  fun_cases bracket? cs with
  | case1 =>
    intro h
    simp at h
  | case2 c cs hc =>
    intro h
    obtain ⟨⟨ms, m⟩, hm, he⟩ := Option.map_eq_some_iff.mp h
    obtain ⟨rfl, rfl⟩ := Prod.mk.inj he
    obtain ⟨hne, hle⟩ := firstMembers?_spec hm
    rw [List.length_cons]
    exact ⟨⟨true, ms, rfl, hne⟩, by omega⟩
  | case3 c cs hc =>
    intro h
    obtain ⟨⟨ms, m⟩, hm, he⟩ := Option.map_eq_some_iff.mp h
    obtain ⟨rfl, rfl⟩ := Prod.mk.inj he
    obtain ⟨hne, hle⟩ := firstMembers?_spec hm
    exact ⟨⟨false, ms, rfl, hne⟩, hle⟩

/-! ## The scan follows the rules -/

theorem scanFrom_drop (n : Nat) (cs : List Char) : scanFrom n cs = scanFrom 0 (cs.drop n) := by
  induction cs generalizing n with
  | nil => cases n <;> simp [scanFrom]
  | cons c cs ih =>
    cases n with
    | zero => rfl
    | succ n => rw [scanFrom, ih, List.drop_succ_cons]

/-- Of the tokens that a text may begin with, the scan takes the one that the rules name. -/
theorem scanFrom_of_begins {token : PatternToken} {text rest : List Char}
    (h : token.Begins text rest) : scanFrom 0 text = token :: scanFrom 0 rest := by
  cases h with
  | between => rw [scanFrom]
  | leading => rw [scanFrom]
  | trailing h =>
    rw [scanFrom]
    intro cs he
    subst he
    exact h rfl
  | star h =>
    rw [scanFrom]
    intro cs he
    subst he
    exact h ⟨cs, rfl⟩
  | question => rw [scanFrom]
  | bracket h =>
    rename_i inside
    rw [scanFrom, h]
    simp [scanFrom_drop inside.length]
  | openBracket h => rw [scanFrom, h]
  | escaped => rw [scanFrom]
  | lastBackslash => rfl
  | plain hc h =>
    have hstars : ∀ cs, rest = '*' :: '*' :: cs → ['*', '*'] <+: rest := by
      intro cs he
      subst he
      exact ⟨cs, rfl⟩
    rw [scanFrom] <;> grind

theorem exists_begins_of_star (cs : List Char) :
    (∃ token rest, Begins token ('*' :: cs) rest) ∧ ∃ token rest, Begins token ('/' :: cs) rest := by
  constructor
  · by_cases h : ['*', '/'] <+: cs
    · obtain ⟨rest, rfl⟩ := h
      exact ⟨_, _, .leading⟩
    · exact ⟨_, _, .star h⟩
  · by_cases h : ['*', '*'] <+: cs
    · obtain ⟨rest, rfl⟩ := h
      by_cases hs : rest.head? = some '/'
      · obtain ⟨rest, rfl⟩ := List.head?_eq_some_iff.mp hs
        exact ⟨_, _, .between⟩
      · exact ⟨_, _, .trailing hs⟩
    · exact ⟨_, _, .plain (by decide) fun _ => h⟩

theorem exists_begins (c : Char) (cs : List Char) :
    ∃ token rest, Begins token (c :: cs) rest := by
  by_cases hc : c ∈ ['*', '?', '[', '\\', '/']
  · fin_cases hc
    · exact (exists_begins_of_star cs).1
    · exact ⟨_, _, .question⟩
    · cases h : bracket? cs with
      | none => exact ⟨_, _, .openBracket h⟩
      | some found =>
        obtain ⟨token, n⟩ := found
        have hn := (bracket?_spec h).2
        rw [← List.take_append_drop n cs] at h ⊢
        refine ⟨token, _, .bracket ?_⟩
        rw [h, List.length_take_of_le hn]
    · cases cs with
      | nil => exact ⟨_, _, .lastBackslash⟩
      | cons c cs => exact ⟨_, _, .escaped⟩
    · exact (exists_begins_of_star cs).2
  · refine ⟨_, _, .plain (fun hmem => hc (by simp_all)) fun hslash => ?_⟩
    exact absurd (by simp [hslash]) hc

theorem Begins.length_lt {token : PatternToken} {text rest : List Char}
    (h : token.Begins text rest) : rest.length < text.length := by
  cases h <;> simp <;> omega

theorem exists_scans (text : List Char) : ∃ tokens, Scans text tokens := by
  induction hn : text.length using Nat.strong_induction_on generalizing text with
  | _ n ih =>
    cases text with
    | nil => exact ⟨[], .nil⟩
    | cons c cs =>
      obtain ⟨token, rest, head⟩ := exists_begins c cs
      obtain ⟨tokens, tail⟩ := ih rest.length (hn ▸ head.length_lt) rest rfl
      exact ⟨token :: tokens, .cons head tail⟩

theorem Scans.eq_scan {text : List Char} {tokens : List PatternToken} (h : Scans text tokens) :
    tokens = scan text := by
  induction h with
  | nil => rfl
  | cons head tail ih => rw [ih, scan, scan, scanFrom_of_begins head]

/-- The rules cut every pattern, and only as the scan does. -/
theorem scans_iff {text : List Char} {tokens : List PatternToken} :
    Scans text tokens ↔ tokens = scan text := by
  constructor
  · exact Scans.eq_scan
  · intro he
    subst he
    obtain ⟨tokens, h⟩ := exists_scans text
    exact h.eq_scan ▸ h

end PatternToken

end SourceBundle
