import Mathlib.Data.List.Basic
import SourceBundle.RegexSource

/-!
# Written expressions are read back

Reading undoes writing for every expression whose classes are not empty and whose ranges run
upwards. No character of a literal or of a class is taken for a part of the notation.
-/

namespace SourceBundle

/-! ## Expressions that can be written -/

def ClassMember.Proper : ClassMember → Prop
  | .single _ => True
  | .range lo hi => lo ≤ hi

def CharClass.Proper : CharClass → Prop
  | .only _ | .notNewline => True
  | .members _ items => items ≠ [] ∧ ∀ i ∈ items, i.Proper

def Atom.Proper : Atom → Prop
  | .one cls | .star cls | .plus cls => cls.Proper
  | .textStart | .textEnd => True

def Piece.Proper : Piece → Prop
  | .atom a => a.Proper
  | .group branches => branches ≠ [] ∧ ∀ b ∈ branches, ∀ a ∈ b, a.Proper

def Regex.Proper (r : Regex) : Prop :=
  ∀ p ∈ r.pieces, p.Proper

/-! ## Literals -/

theorem escapeChar_head (c : Char) : ∃ d ds, escapeChar c = d :: ds ∧ d ∉ regexMeta.tail := by
  by_cases h : regexMeta.contains c = true
  · exact ⟨'\\', [c], if_pos h, by decide⟩
  · refine ⟨c, [], if_neg h, fun hc => h ?_⟩
    exact List.contains_iff_mem.mpr (List.mem_of_mem_tail hc)

theorem readLiteral?_escapeChar (c : Char) (rest : List Char) :
    readLiteral? (escapeChar c ++ rest) = some (c, rest) := by
  by_cases h : regexMeta.contains c = true
  · rw [escapeChar, if_pos h]
    exact if_pos h
  · rw [escapeChar, if_neg h]
    have hc : c ≠ '\\' := by
      intro he
      subst he
      exact h (by decide)
    rw [List.singleton_append, readLiteral?, if_neg h]
    intro d ds he
    subst he
    exact absurd rfl hc

/-! ## Classes -/

theorem readMembers?_single {fuel : Nat} {cs rest rest' : List Char} {c : Char}
    {items : List ClassMember} (hc : cs.head? ≠ some ']')
    (hread : readLiteral? cs = some (c, rest)) (hrest : rest.head? ≠ some '-')
    (hmore : readMembers? fuel rest = some (items, rest')) :
    readMembers? (fuel + 1) cs = some (.single c :: items, rest') := by
  rw [readMembers?]
  · simp only [hread, Option.bind_eq_bind, Option.bind_some]
    split
    · simp at hrest
    · simp [hmore]
  · intro ds he
    subst he
    exact hc rfl

theorem readMembers?_range {fuel : Nat} {cs rest rest' rest'' : List Char} {lo hi : Char}
    {items : List ClassMember} (hle : lo ≤ hi) (hc : cs.head? ≠ some ']')
    (hlo : readLiteral? cs = some (lo, '-' :: rest)) (hhi : readLiteral? rest = some (hi, rest'))
    (hmore : readMembers? fuel rest' = some (items, rest'')) :
    readMembers? (fuel + 1) cs = some (.range lo hi :: items, rest'') := by
  rw [readMembers?]
  · simp [hlo, hhi, hmore, Char.not_lt.mpr hle]
  · intro ds he
    subst he
    exact hc rfl

theorem ClassMember.source_head (i : ClassMember) :
    ∃ d ds, i.source = d :: ds ∧ d ∉ regexMeta.tail := by
  cases i with
  | single c => exact escapeChar_head c
  | range lo hi =>
    obtain ⟨d, ds, he, hd⟩ := escapeChar_head lo
    exact ⟨d, ds ++ '-' :: escapeChar hi, by simp [source, he], hd⟩

theorem members_head (items : List ClassMember) (rest : List Char) :
    (items.flatMap ClassMember.source ++ ']' :: rest).head? ≠ some '-' := by
  cases items with
  | nil => simp
  | cons i items =>
    obtain ⟨d, ds, he, hd⟩ := i.source_head
    rw [List.flatMap_cons, he]
    rintro ⟨⟩
    exact hd (by decide)

theorem readMembers?_source {items : List ClassMember} (h : ∀ i ∈ items, i.Proper)
    (rest : List Char) {fuel : Nat}
    (hf : (items.flatMap ClassMember.source ++ ']' :: rest).length ≤ fuel) :
    readMembers? fuel (items.flatMap ClassMember.source ++ ']' :: rest) = some (items, rest) := by
  induction items generalizing fuel with
  | nil =>
    obtain ⟨fuel, rfl⟩ := Nat.exists_eq_add_of_le' (Nat.le_trans (by simp) hf : 1 ≤ fuel)
    rfl
  | cons i items ih =>
    obtain ⟨d, ds, he, hd⟩ := i.source_head
    rw [List.flatMap_cons, List.append_assoc] at hf ⊢
    have hlen : 1 ≤ i.source.length := by simp [he]
    rw [List.length_append] at hf
    obtain ⟨fuel, rfl⟩ := Nat.exists_eq_add_of_le' (show 1 ≤ fuel by omega)
    have hmore := ih (fun j hj => h j (by simp [hj])) (show _ ≤ fuel by omega)
    have hclose : (i.source ++ (items.flatMap ClassMember.source ++ ']' :: rest)).head? ≠
        some ']' := by
      rw [he]
      rintro ⟨⟩
      exact hd (by decide)
    cases i with
    | single c =>
      exact readMembers?_single hclose (readLiteral?_escapeChar c _) (members_head items rest) hmore
    | range lo hi =>
      have hlo := readLiteral?_escapeChar lo
        ('-' :: (escapeChar hi ++ (items.flatMap ClassMember.source ++ ']' :: rest)))
      rw [ClassMember.source, List.append_assoc, List.cons_append] at hclose ⊢
      have hle : (ClassMember.range lo hi).Proper := h _ (by simp)
      exact readMembers?_range hle hclose hlo (readLiteral?_escapeChar hi _) hmore

/-! ## Atoms -/

theorem CharClass.source_head (cls : CharClass) :
    ∃ d ds, cls.source = d :: ds ∧ d ∉ ['^', '$', '*', '+', '|', '(', ')'] := by
  cases cls with
  | only c =>
    obtain ⟨d, ds, he, hd⟩ := escapeChar_head c
    exact ⟨d, ds, he, fun hmem => hd ((by decide : _ ⊆ regexMeta.tail) hmem)⟩
  | notNewline => exact ⟨'.', [], rfl, by decide⟩
  | members negated items => exact ⟨'[', _, rfl, by decide⟩

theorem readClass?_only {cs rest : List Char} {c : Char} (hdot : cs.head? ≠ some '.')
    (hopen : cs.head? ≠ some '[') (hread : readLiteral? cs = some (c, rest)) :
    readClass? cs = some (.only c, rest) := by
  rw [readClass?, hread]
  · rfl
  · intro ds he
    subst he
    exact hdot rfl
  · intro ds he
    subst he
    exact hopen rfl
  · intro ds he
    subst he
    exact hopen rfl

theorem readClass?_members {cs rest : List Char} {items : List ClassMember} (negated : Bool)
    (hne : items ≠ []) (hcaret : cs.head? ≠ some '^')
    (hread : readMembers? (cs.length + 1) cs = some (items, rest)) :
    readClass? ('[' :: (if negated then '^' :: cs else cs)) = some (.members negated items, rest) := by
  cases negated with
  | true => simp [readClass?, hread, hne]
  | false =>
    rw [if_neg (by decide), readClass?]
    · simp [hread, hne]
    · intro ds he
      subst he
      exact hcaret rfl

theorem readClass?_source {cls : CharClass} (h : cls.Proper) (rest : List Char) :
    readClass? (cls.source ++ rest) = some (cls, rest) := by
  cases cls with
  | only c =>
    obtain ⟨d, ds, he, hd⟩ := escapeChar_head c
    refine readClass?_only ?_ ?_ (readLiteral?_escapeChar c rest)
    all_goals
      rw [CharClass.source, he]
      rintro ⟨⟩
      exact hd (by decide)
  | notNewline => rfl
  | members negated items =>
    obtain ⟨hne, hitems⟩ := h
    have hread := readMembers?_source hitems rest (Nat.le_add_right _ 1)
    have hcaret : (items.flatMap ClassMember.source ++ ']' :: rest).head? ≠ some '^' := by
      obtain ⟨i, items, rfl⟩ := List.exists_cons_of_ne_nil hne
      obtain ⟨d, ds, he, hd⟩ := i.source_head
      rw [List.flatMap_cons, he]
      rintro ⟨⟩
      exact hd (by decide)
    have hclass := readClass?_members negated hne hcaret hread
    cases negated <;> simpa [CharClass.source] using hclass

def NotRepeating (rest : List Char) : Prop :=
  rest.head? ≠ some '*' ∧ rest.head? ≠ some '+'

theorem Atom.source_head (a : Atom) :
    ∃ d ds, a.source = d :: ds ∧ d ∉ ['*', '+', '|', '(', ')'] := by
  have hsub : ['*', '+', '|', '(', ')'] ⊆ ['^', '$', '*', '+', '|', '(', ')'] := by decide
  cases a with
  | one cls =>
    obtain ⟨d, ds, he, hd⟩ := cls.source_head
    exact ⟨d, ds, he, fun hmem => hd (hsub hmem)⟩
  | star cls =>
    obtain ⟨d, ds, he, hd⟩ := cls.source_head
    exact ⟨d, ds ++ ['*'], by simp [source, he], fun hmem => hd (hsub hmem)⟩
  | plus cls =>
    obtain ⟨d, ds, he, hd⟩ := cls.source_head
    exact ⟨d, ds ++ ['+'], by simp [source, he], fun hmem => hd (hsub hmem)⟩
  | textStart => exact ⟨'^', [], rfl, by decide⟩
  | textEnd => exact ⟨'$', [], rfl, by decide⟩

theorem readAtom?_class {cs rest : List Char} {cls : CharClass} (hstart : cs.head? ≠ some '^')
    (hend : cs.head? ≠ some '$') (hread : readClass? cs = some (cls, rest)) :
    (∀ tail, rest = '*' :: tail → readAtom? cs = some (.star cls, tail)) ∧
      (∀ tail, rest = '+' :: tail → readAtom? cs = some (.plus cls, tail)) ∧
      (NotRepeating rest → readAtom? cs = some (.one cls, rest)) := by
  rw [readAtom?]
  · simp only [hread, Option.bind_eq_bind, Option.bind_some]
    refine ⟨?_, ?_, fun ⟨hstar, hplus⟩ => ?_⟩
    · intro tail he
      subst he
      rfl
    · intro tail he
      subst he
      rfl
    · split <;> simp_all
  · intro ds he
    subst he
    exact hstart rfl
  · intro ds he
    subst he
    exact hend rfl

theorem readAtom?_source {a : Atom} (h : a.Proper) {rest : List Char} (hr : NotRepeating rest) :
    readAtom? (a.source ++ rest) = some (a, rest) := by
  have hcls : ∀ (cls : CharClass) (rest : List Char),
      (cls.source ++ rest).head? ≠ some '^' ∧ (cls.source ++ rest).head? ≠ some '$' := by
    intro cls rest
    obtain ⟨d, ds, he, hd⟩ := cls.source_head
    rw [he]
    simp_all
  cases a with
  | one cls =>
    obtain ⟨_, _, hone⟩ := readAtom?_class (hcls cls rest).1 (hcls cls rest).2
      (readClass?_source h rest)
    exact hone hr
  | star cls =>
    obtain ⟨hstar, _, _⟩ := readAtom?_class (hcls cls ('*' :: rest)).1 (hcls cls ('*' :: rest)).2
      (readClass?_source h ('*' :: rest))
    simpa [Atom.source] using hstar rest rfl
  | plus cls =>
    obtain ⟨_, hplus, _⟩ := readAtom?_class (hcls cls ('+' :: rest)).1 (hcls cls ('+' :: rest)).2
      (readClass?_source h ('+' :: rest))
    simpa [Atom.source] using hplus rest rfl
  | textStart => rfl
  | textEnd => rfl

/-! ## Groups -/

theorem notRepeating_source (a : Atom) (rest : List Char) : NotRepeating (a.source ++ rest) := by
  obtain ⟨d, ds, he, hd⟩ := a.source_head
  rw [he]
  simp_all [NotRepeating]

theorem readBranches?_atoms {branch : List Atom} (h : ∀ a ∈ branch, a.Proper)
    {branches : List (List Atom)} {tail rest : List Char} (ht : NotRepeating tail)
    (hread : ∀ fuel, tail.length ≤ fuel → readBranches? fuel tail = some ([] :: branches, rest))
    {fuel : Nat} (hf : (branch.flatMap Atom.source ++ tail).length ≤ fuel) :
    readBranches? fuel (branch.flatMap Atom.source ++ tail) = some (branch :: branches, rest) := by
  induction branch generalizing fuel with
  | nil => exact hread fuel hf
  | cons a branch ih =>
    obtain ⟨d, ds, he, hd⟩ := a.source_head
    have hlen : 1 ≤ a.source.length := by simp [he]
    rw [List.flatMap_cons, List.append_assoc] at hf ⊢
    rw [List.length_append] at hf
    obtain ⟨fuel, rfl⟩ := Nat.exists_eq_add_of_le' (show 1 ≤ fuel by omega)
    have hmore := ih (fun b hb => h b (by simp [hb])) (show _ ≤ fuel by omega)
    have hnext : NotRepeating (branch.flatMap Atom.source ++ tail) := by
      cases branch with
      | nil => exact ht
      | cons b branch =>
        rw [List.flatMap_cons, List.append_assoc]
        exact notRepeating_source b _
    have hatom := readAtom?_source (h a (by simp)) hnext
    rw [readBranches?, hatom]
    · simp [hmore]
    · intro cs hcs
      simp_all
    · intro cs hcs
      simp_all

theorem readBranches?_source {branches : List (List Atom)} (hne : branches ≠ [])
    (h : ∀ b ∈ branches, ∀ a ∈ b, a.Proper) (rest : List Char) {fuel : Nat}
    (hf : (branchesSource branches ++ ')' :: rest).length ≤ fuel) :
    readBranches? fuel (branchesSource branches ++ ')' :: rest) = some (branches, rest) := by
  fun_induction branchesSource branches generalizing fuel with
  | case1 => exact absurd rfl hne
  | case2 branch =>
    refine readBranches?_atoms (h branch (by simp)) (by simp [NotRepeating]) ?_ hf
    intro fuel hfuel
    obtain ⟨fuel, rfl⟩ := Nat.exists_eq_add_of_le' (Nat.le_trans (by simp) hfuel : 1 ≤ fuel)
    rfl
  | case3 branch branches hmany ih =>
    rw [List.append_assoc, List.cons_append] at hf ⊢
    refine readBranches?_atoms (h branch (by simp)) (by simp [NotRepeating]) ?_ hf
    intro fuel hfuel
    obtain ⟨fuel, rfl⟩ := Nat.exists_eq_add_of_le' (Nat.le_trans (by simp) hfuel : 1 ≤ fuel)
    have hmore := ih (fun he => hmany (by simp [he])) (fun b hb => h b (by simp [hb])) 
      (show _ ≤ fuel by simpa using hfuel)
    simp [readBranches?, hmore]

/-! ## Whole expressions -/

theorem Piece.source_head (p : Piece) : ∃ d ds, p.source = d :: ds ∧ d ∉ ['*', '+'] := by
  cases p with
  | atom a =>
    obtain ⟨d, ds, he, hd⟩ := a.source_head
    exact ⟨d, ds, he, fun hmem => hd ((by decide : _ ⊆ ['*', '+', '|', '(', ')']) hmem)⟩
  | group branches => exact ⟨'(', _, rfl, by decide⟩

theorem readPieces?_source {pieces : List Piece} (h : ∀ p ∈ pieces, p.Proper) {fuel : Nat}
    (hf : (pieces.flatMap Piece.source).length ≤ fuel) :
    readPieces? fuel (pieces.flatMap Piece.source) = some pieces := by
  induction pieces generalizing fuel with
  | nil => cases fuel <;> rfl
  | cons p pieces ih =>
    obtain ⟨d, ds, he, _⟩ := p.source_head
    have hlen : 1 ≤ p.source.length := by simp [he]
    rw [List.flatMap_cons] at hf ⊢
    rw [List.length_append] at hf
    obtain ⟨fuel, rfl⟩ := Nat.exists_eq_add_of_le' (show 1 ≤ fuel by omega)
    have hmore := ih (fun q hq => h q (by simp [hq])) (show _ ≤ fuel by omega)
    have hp : p.Proper := h p (by simp)
    cases p with
    | atom a =>
      have hnext : NotRepeating (pieces.flatMap Piece.source) := by
        cases pieces with
        | nil => simp [NotRepeating]
        | cons q pieces =>
          obtain ⟨d, ds, he, hd⟩ := q.source_head
          rw [List.flatMap_cons, he]
          simp_all [NotRepeating]
      have hatom := readAtom?_source hp hnext
      obtain ⟨d, ds, he, hd⟩ := a.source_head
      rw [Piece.source, readPieces?, hatom]
      · simp [hmore]
      · simp [he]
      · intro cs hcs
        simp_all
    | group branches =>
      have hbranches := readBranches?_source hp.1 hp.2 (pieces.flatMap Piece.source)
        (Nat.le_add_right _ 1)
      simp only [Piece.source, List.append_assoc, List.cons_append, List.nil_append, readPieces?]
      simp only [hbranches, hmore, Option.bind_eq_bind, Option.bind_some]

/-- Reading undoes writing. -/
theorem Regex.read?_source {r : Regex} (h : r.Proper) : Regex.read? r.source = some r := by
  rw [Regex.read?, Regex.source, readPieces?_source h (Nat.le_refl _)]
  rfl

end SourceBundle
